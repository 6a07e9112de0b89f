/-
This file prints the string literals of a tree that was parsed without a report. Every literal
stands between quotes that its value does not hold, and is read back with what stands between them.
-/

import FrontEnd.Proofs.Parser.Accounting
import FrontEnd.Proofs.Parser.Placeholders
import FrontEnd.Proofs.Tree.Quotations
import FrontEnd.Proofs.Tree.Reprinting

namespace FrontEnd

open Layout (plain)

/-- Every module of a root starts a line. -/
def Root.text (root : Root) : List Char :=
  ((root.modules.map Module.text).intersperse ['\n']).flatten

/-- The text of a canonical node of any sort. -/
def Node.text : Node → List Char
  | .block body => body.text
  | .function declared => declared.text
  | .module body => body.text
  | .root whole => whole.text
  | node => plain [] node.formatSteps

/-- A file with one module is written as the module is. -/
theorem Root.text_eq {root : Root} {body : Module} (same : root.modules = [body]) :
    root.text = body.text := by
  simp [text, same]

theorem Root.Canonical.appends {root : Root} (canonical : root.Canonical)
    (well : ∀ piece ∈ root.pieces, piece.WellSpelled) : Appends root.format root.text := by
  obtain ⟨body, same, bodyCanonical⟩ := canonical
  rw [Root.pieces, same] at well
  rw [Root.text_eq same]
  exact Root.appends same bodyCanonical (by simpa using well)

theorem Root.Canonical.quotes {root : Root} (canonical : root.Canonical)
    (well : ∀ piece ∈ root.pieces, piece.WellSpelled) (depth : Nat) :
    Quotes (root.modules.flatMap (·.quotations (depth + 1))) root.text := by
  obtain ⟨body, same, bodyCanonical⟩ := canonical
  rw [Root.pieces, same] at well
  rw [Root.text_eq same, same, List.flatMap_singleton]
  exact bodyCanonical.quotes (by simpa using well) (depth + 1)

namespace Node

variable {node : Node}

/-- Every canonical node writes its text wherever a line is open. -/
theorem Canonical.appends (canonical : node.Canonical)
    (well : ∀ piece ∈ node.pieces, piece.WellSpelled) : Appends node.formatSteps node.text := by
  cases node with
  | expression value => exact (Expression.Canonical.inline canonical well).appends
  | returned keyword value =>
      exact (@Statement.Canonical.inline (.returned keyword value) canonical well).appends
  | «variable» definition => exact (Variable.Canonical.inline canonical well).appends
  | recovery token => exact canonical.elim
  | block body => exact Block.Canonical.appends canonical well
  | parameter declared => exact (BindingCanonical.inline canonical well).appends
  | parameterList list => exact (ParameterList.Canonical.inline canonical well).appends
  | function declared => exact FunctionDeclaration.Canonical.appends canonical well
  | module body => exact Module.Canonical.appends canonical well
  | root whole => exact Root.Canonical.appends canonical well

/-- The text of a canonical node shows its string literals. -/
theorem Canonical.quotes (canonical : node.Canonical)
    (well : ∀ piece ∈ node.pieces, piece.WellSpelled) (depth : Nat) :
    Quotes (node.quotations depth) node.text := by
  cases node with
  | expression value => exact Expression.Canonical.quoting canonical well false depth
  | returned keyword value =>
      exact @Statement.Canonical.quoting (.returned keyword value) canonical well false depth
  | «variable» definition => exact Variable.Canonical.quoting canonical well false depth
  | recovery token => exact canonical.elim
  | block body => exact Block.Canonical.quotes canonical well depth
  | parameter declared => exact Parameter.Canonical.quoting canonical well false depth
  | parameterList list => exact ParameterList.Canonical.quoting canonical well false depth
  | function declared => exact FunctionDeclaration.Canonical.quotes canonical well depth
  | module body => exact Module.Canonical.quotes canonical well depth
  | root whole => exact Root.Canonical.quotes canonical well depth

/-- The literals of a canonical node are among its pieces. -/
theorem Canonical.literals (canonical : node.Canonical) (depth : Nat) :
    LiteralsAmong node.pieces (node.nodes depth) := by
  cases node with
  | expression value => exact Expression.Canonical.literals canonical depth
  | returned keyword value =>
      exact @Statement.Canonical.literals (.returned keyword value) canonical depth
  | «variable» definition => exact Variable.Canonical.literals canonical depth
  | recovery token => exact canonical.elim
  | block body => exact Block.Canonical.literals canonical depth
  | parameter declared =>
      exact literalsAmong_cons.2 ⟨trivial, BindingCanonical.literals canonical (depth + 1)⟩
  | parameterList list => exact ParameterList.Canonical.literals canonical depth
  | function declared => exact FunctionDeclaration.Canonical.literals canonical depth
  | module body => exact Module.Canonical.literals canonical depth
  | root whole => exact Root.Canonical.literals canonical depth

end Node

/-- A function holds the same string literals in its quotations as in its nodes. -/
theorem FunctionDeclaration.quotations_values (declared : FunctionDeclaration) (depth : Nat) :
    (declared.quotations depth).map Quotation.value = stringsAmong (declared.nodes depth) := by
  have named : stringsAmong (declared.name.nodes (depth + 1)) = [] := rfl
  have typed : stringsAmong (declared.result.toList.flatMap (·.nodes (depth + 1))) = [] := by
    cases declared.result <;> rfl
  rw [nodes, stringsAmong_cons rfl]
  simp [quotations, named, typed]

theorem Declaration.quotations_values (declaration : Declaration) (depth : Nat) :
    (declaration.quotations depth).map Quotation.value =
      stringsAmong (declaration.nodes depth) := by
  cases declaration with
  | function declared => exact declared.quotations_values depth
  | «variable» definition => exact quotationsIn_values _

theorem Module.quotations_values (module : Module) (depth : Nat) :
    (module.quotations depth).map Quotation.value = stringsAmong (module.nodes depth) := by
  rw [quotations, nodes, stringsAmong_cons rfl, stringsAmong_flatMap, List.map_flatMap]
  simp only [Declaration.quotations_values]

/-- The literals of a tree have the values of its string nodes in the order of the source. -/
theorem Node.quotations_values (node : Node) (depth : Nat) :
    (node.quotations depth).map Quotation.value = stringsAmong (node.nodes depth) := by
  cases node with
  | function declared => exact declared.quotations_values depth
  | module body => exact body.quotations_values depth
  | root whole =>
      show (whole.modules.flatMap (·.quotations (depth + 1))).map Quotation.value =
        stringsAmong (whole.nodes depth)
      rw [Root.nodes, stringsAmong_cons rfl, stringsAmong_flatMap, List.map_flatMap]
      simp only [Module.quotations_values]
  | _ => exact quotationsIn_values _

/-- A string literal that well-spelled tokens spell has a value that can stand between quotes. -/
theorem LiteralsAmong.isQuotation {pieces : List Piece} {nodes : List Leveled}
    (literals : LiteralsAmong pieces nodes) (well : ∀ piece ∈ pieces, piece.WellSpelled)
    {value : String} (member : value ∈ stringsAmong nodes) :
    ∃ text, IsQuotation text value.toList := by
  obtain ⟨⟨depth, node⟩, isNode, isString⟩ := List.mem_filterMap.1 member
  have literal := literals _ isNode
  unfold Node.stringValue? at isString
  split at isString
  · rename_i token given same
    obtain rfl : given = value := Option.some.inj isString
    rw [same] at literal
    obtain ⟨stored, kind, decoded⟩ := literal
    have spelled : token.kind.IsSpelledBy token.lexeme := well _ stored
    rw [kind] at spelled
    obtain ⟨contents, quotation⟩ := spelled
    rw [Parser.stringContents_quotation quotation] at decoded
    rw [decoded, String.toList_ofList]
    exact ⟨_, quotation⟩
  · cases isString

/-- A value that can stand between quotes does so where it is printed. -/
theorem Quotation.print_isQuotation {quotation : Quotation} {text : List Char}
    (held : IsQuotation text quotation.value.toList) :
    IsQuotation quotation.print quotation.contents := by
  obtain ⟨quote, quoted, isQuote, outside⟩ := Expression.quoteFor_spec held
  rw [String.ofList_toList] at quoted
  have noMargin : quote ∉ blockMargin quotation.inBlock := by
    intro member
    rw [blockMargin_blank _ quote member] at isQuote
    cases isQuote
  have free : quote ∉ quotation.contents := by
    unfold contents
    split <;> simp [outside, noMargin]
  exact isQuotation_iff.2 ⟨quote, isQuote, free, by simp [print, quoted]⟩

/-- The value is changed only by the margin of a block, after a line feed at its end. -/
theorem Quotation.contents_eq_value_iff {quotation : Quotation} :
    quotation.contents = quotation.value.toList ↔
      ¬(quotation.inBlock ∧ Layout.endsLine quotation.value.toList) := by
  unfold contents blockMargin
  cases quotation.inBlock <;> cases Layout.endsLine quotation.value.toList <;> simp

/-- A string by itself is a single token. -/
theorem tokenize_quotation {chars contents : List Char} (quotation : IsQuotation chars contents) :
    tokenize (String.ofList chars) =
      .ok [⟨0, .literal .string, String.ofList chars, false⟩,
        Token.eof (0 + Text.byteSize chars)] := by
  obtain ⟨first, more, same, found⟩ := Lexer.cuts_quotation quotation []
  rw [tokenize, String.toList_ofList]
  nth_rewrite 1 [same]
  rw [List.append_nil] at found
  rw [Lexer.tokensFrom_token found]
  rfl

/-- What is printed for a literal is read as a literal with what stands between the quotes. -/
theorem Entry.parse_quotation {chars contents : List Char}
    (quotation : IsQuotation chars contents) :
    ∃ tokens token state, tokenize (String.ofList chars) = .ok tokens ∧
      Entry.expression.parse tokens (.collect []) () =
        .ok (.expression (.string token (String.ofList contents))) state ∧
      state.sink.held = [] := by
  have value : Parser.stringContents (String.ofList chars) = String.ofList contents := by
    apply Parser.stringContents_quotation
    rwa [String.toList_ofList]
  let token : Token := ⟨0, .literal .string, String.ofList chars, false⟩
  have parsed : ∃ state, Entry.expression.parse [token, Token.eof (0 + Text.byteSize chars)]
      (.collect []) () = .ok (.expression (.string token (Parser.stringContents token.lexeme)))
        state ∧ state.sink.held = [] := ⟨_, rfl, rfl⟩
  obtain ⟨state, parsed, clean⟩ := parsed
  rw [value] at parsed
  exact ⟨_, token, state, tokenize_quotation quotation, parsed, clean⟩

/-- A literal is printed between quotes that do not occur between them. It is read back as a
literal with its own value, unless its block puts a margin before the closing quote. -/
structure Quotation.IsPrinted (quotation : Quotation) : Prop where
  quoted : IsQuotation quotation.print quotation.contents
  kept : quotation.contents = quotation.value.toList ↔
    ¬(quotation.inBlock ∧ Layout.endsLine quotation.value.toList)
  read : ∃ tokens token state, tokenize (String.ofList quotation.print) = .ok tokens ∧
    Entry.expression.parse tokens (.collect []) () =
      .ok (.expression (.string token (String.ofList quotation.contents))) state ∧
    state.sink.held = []

/-- A quotation is printed as a string that reads as what it holds. -/
theorem Quotation.isPrinted {quotation : Quotation} {text : List Char}
    (held : IsQuotation text quotation.value.toList) : quotation.IsPrinted where
  quoted := print_isQuotation held
  kept := contents_eq_value_iff
  read := Entry.parse_quotation (print_isQuotation held)

/-- A tree that was parsed without a report shows its string literals. They stand in its canonical
text in their order, with no other quotes around them. Each is printed between quotes that its
value does not hold, with its value as it is, but in the body of a function, where a value that
ends with a line feed is followed by the margin of the body. -/
theorem Entry.parse_quotations {σ : Type} [Observer σ] {entry : Entry} {text : String}
    {tokens : List Token} {observed : σ} {node : Node} {state : Parser.State σ}
    (lexed : tokenize text = .ok tokens)
    (parsed : entry.parse tokens (.collect []) observed = .ok node state)
    (clean : state.sink.held = []) :
    (node.quotations 0).map Quotation.value = stringsAmong (node.nodes 0) ∧
      Quotes (node.quotations 0) node.format.toList ∧
      ∀ quotation ∈ node.quotations 0, quotation.IsPrinted := by
  obtain ⟨body, stop, rfl, written⟩ := tokenize_wellSpelled lexed
  obtain ⟨reports, held, recovered⟩ := parse_recovered written parsed
  rw [held, Sink.held] at clean
  obtain ⟨rfl, -⟩ := List.append_eq_nil_iff.1 clean
  have repairable : Repairable node.slots := repairable_of_placeholders recovered.accounts.paired
  have canonical := recovered.canonical repairable
  have well := recovered.well repairable
  refine ⟨node.quotations_values 0, ?_, fun quotation member => ?_⟩
  · have printed : node.format = String.ofList node.text := (canonical.appends well).print
    rw [printed, String.toList_ofList]
    exact canonical.quotes well 0
  · have value : quotation.value ∈ stringsAmong (node.nodes 0) := by
      rw [← node.quotations_values 0]
      exact List.mem_map_of_mem member
    obtain ⟨_, quoted⟩ := (canonical.literals 0).isQuotation well value
    exact Quotation.isPrinted quoted

/-- A line feed at the end of a value comes back with the margin of the body behind it. -/
theorem Entry.parse_quotations_lineFeed :
    let text := "func f() -> \x7b let s = 'a\n' \x7d"
    ∃ tokens node state, tokenize text = .ok tokens ∧
      Entry.file.parse tokens (.collect []) () = .ok node state ∧ state.sink.held = [] ∧
      node.quotations 0 = [⟨"a\n", true⟩] ∧
      node.format = "func f() -> \x7b\n  let s = 'a\n  '\n\x7d" ∧
      (node.quotations 0).map Quotation.value = stringsAmong (node.nodes 0) ∧
      Quotes (node.quotations 0) node.format.toList ∧
      ∀ quotation ∈ node.quotations 0, quotation.IsPrinted := by
  intro text
  have ran : (match tokenize text with
      | .ok tokens =>
          match Entry.file.parse tokens (.collect []) () with
          | .ok node state => decide (state.sink.held = [] ∧ node.quotations 0 = [⟨"a\n", true⟩] ∧
              node.format = "func f() -> \x7b\n  let s = 'a\n  '\n\x7d")
          | .error .. => false
      | .error _ => false) = true := by decide +kernel
  split at ran
  · rename_i tokens lexed
    split at ran
    · rename_i node state parsed
      obtain ⟨clean, quotations, printed⟩ := of_decide_eq_true ran
      exact ⟨tokens, node, state, lexed, parsed, clean, quotations, printed,
        parse_quotations lexed parsed clean⟩
    · cases ran
  · cases ran

end FrontEnd
