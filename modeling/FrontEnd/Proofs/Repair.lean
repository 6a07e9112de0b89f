/-
This file formats the trees of broken texts. When only brackets and separators were missing, the
canonical text has them all, so that a parse of it gives the same tree without a report.
-/

import FrontEnd.Proofs.Parser.Placeholders
import FrontEnd.Proofs.Parser.ReadingModules
import FrontEnd.Proofs.Tree.ReprintingModules

namespace FrontEnd

open Layout (Step plain)
open Lexer (Parts Scans)

/-- Inside a block a string is written with a margin after it when its contents end a line. -/
def Node.endsNoLine : Node → Bool
  | .expression (.string _ value) => !Layout.endsLine value.toList
  | _ => true

/-- The canonical text of a node gives the node back when names are names of the source, numbers
have digits, no property is taken of a number with a fraction, no token was unusable, and no string
is indented. -/
def Leveled.isRestorable : Leveled → Bool
  | (_, .expression (.identifier name)) => !name.token.error
  | (_, .expression (.number _ value)) => value.print ≠ "inf"
  | (_, .expression (.property (.number _ value) _)) => '.' ∉ value.print.toList
  | (_, .recovery _) => false
  | (depth, .block body) => (body.nodes depth).all fun inner => inner.2.endsNoLine
  | _ => true

/-- Whether the canonical text gives all nodes back. -/
def Restorable (nodes : List Leveled) : Prop := ∀ entry ∈ nodes, Leveled.isRestorable entry

section Restorable

variable {entry : Leveled} {nodes : List Leveled} {depth : Nat}

@[simp] theorem restorable_cons :
    Restorable (entry :: nodes) ↔ Leveled.isRestorable entry ∧ Restorable nodes :=
  List.forall_mem_cons

@[simp] theorem restorable_append {first second : List Leveled} :
    Restorable (first ++ second) ↔ Restorable first ∧ Restorable second :=
  List.forall_mem_append

@[simp] theorem restorable_flatMap {α : Type} {values : List α} {nodes : α → List Leveled} :
    Restorable (values.flatMap nodes) ↔ ∀ value ∈ values, Restorable (nodes value) :=
  List.forall_mem_flatMap

/-- What can be given back is not rejected. -/
theorem Restorable.readable (restorable : Restorable nodes) : Readable nodes := by
  intro entry member
  have holds := restorable entry member
  obtain ⟨depth, node⟩ := entry
  show node.IsReadable
  unfold Node.IsReadable
  split
  · rename_i receiver name
    unfold Expression.TakesPoint
    split
    · exact of_decide_eq_true holds
    · trivial
  · trivial

/-- What can be given back keeps its outline where nothing is indented. -/
theorem Restorable.faithful (restorable : Restorable nodes) : Faithful [] nodes := by
  intro entry member
  have holds := restorable entry member
  obtain ⟨depth, node⟩ := entry
  show node.IsFaithful []
  unfold Node.IsFaithful
  split
  · simpa [Leveled.isRestorable] using holds
  · exact of_decide_eq_true holds
  · exact fun _ => rfl
  · trivial

/-- A block that can be given back keeps its outline with any margin. -/
theorem Block.faithful {block : Block} (restorable : Restorable (block.nodes depth))
    (margin : List Char) : Faithful margin (block.nodes depth) := by
  have endsNoLine : ∀ inner ∈ block.nodes depth, inner.2.endsNoLine :=
    List.all_eq_true.1 (restorable (depth, .block block) List.mem_cons_self)
  intro entry member
  have kept := restorable.faithful entry member
  have whole := endsNoLine entry member
  obtain ⟨level, node⟩ := entry
  show node.IsFaithful margin
  unfold Node.IsFaithful
  split
  · exact kept
  · exact kept
  · rename_i token value
    intro ends
    simp [Node.endsNoLine, ends] at whole
  · trivial

end Restorable

/-- A declaration that can be given back keeps its outline. -/
theorem Declaration.keepsOutline {declaration : Declaration} {depth : Nat}
    (restorable : Restorable (declaration.nodes depth)) : declaration.KeepsOutline := by
  cases declaration with
  | function declared =>
      refine ⟨depth, restorable.faithful, fun block isBody => Block.faithful ?_ _⟩
      obtain ⟨-, inside⟩ := restorable_cons.1 restorable
      exact restorable_flatMap.1 (restorable_append.1 inside).2 block (by simpa using isBody)
  | «variable» definition => exact ⟨depth, restorable.faithful⟩

section Repairable

variable {depth : Nat}

/-- A name that can be restored was not put in. -/
theorem Restorable.genuine {name : Identifier} (restorable : Restorable (name.nodes depth)) :
    name.token.error = false := by
  have holds := restorable _ List.mem_cons_self
  simpa [Leveled.isRestorable, Identifier.node] using holds

/-- A name that was not put in needs no repair. -/
theorem Identifier.repairable {name : Identifier} (restorable : Restorable (name.nodes depth)) :
    Repairable name.slots := by
  have genuine : name.token.error = false := Restorable.genuine restorable
  simp [slots, Slot.IsRepairable, genuine]

/-- Only closing parentheses are missing from an expression that can be given back. -/
theorem Expression.repairable {value : Expression} {depth : Nat}
    (restorable : Restorable (value.nodes depth)) : Repairable value.slots := by
  have stored : ∀ token, Slot.IsRepairable ⟨none, token⟩ := fun token => by
    simp [Slot.IsRepairable]
  have closing : ∀ token, Slot.IsRepairable ⟨some .expectedParentheses, token⟩ := fun token => by
    simp [Slot.IsRepairable]
  induction value generalizing depth with
  | identifier name => exact Identifier.repairable restorable
  | boolean token value => simpa [slots] using stored token
  | number token value => simpa [slots] using stored token
  | string token value => simpa [slots] using stored token
  | binary left operation token right leftRepairable rightRepairable =>
      simp only [nodes, restorable_cons, restorable_append] at restorable
      simp [slots, stored, leftRepairable restorable.2.1, rightRepairable restorable.2.2]
  | prefixed operation token operand operandRepairable =>
      simp only [nodes, restorable_cons] at restorable
      simp [slots, stored, operandRepairable restorable.2]
  | postfixed operand operation token operandRepairable =>
      simp only [nodes, restorable_cons] at restorable
      simp [slots, stored, operandRepairable restorable.2]
  | call receiver arguments close receiverRepairable argumentsRepairable =>
      simp only [nodes, nodesOfAll_eq_flatMap, restorable_cons, restorable_append,
        restorable_flatMap] at restorable
      obtain ⟨-, receiverRestorable, argumentsRestorable⟩ := restorable
      have inside : ∀ argument ∈ arguments, Repairable argument.slots := fun argument member =>
        argumentsRepairable argument member (argumentsRestorable argument member)
      simpa [slots, closing, receiverRepairable receiverRestorable] using inside
  | property receiver name receiverRepairable =>
      simp only [nodes, restorable_cons, restorable_append] at restorable
      simp [slots, receiverRepairable restorable.2.1, Identifier.repairable restorable.2.2]
  | group opening content close contentRepairable =>
      simp only [nodes, restorable_cons] at restorable
      simp [slots, stored, closing, contentRepairable restorable.2]
  | conditional keyword condition consequent alternative conditionRepairable
      consequentRepairable alternativeRepairable =>
      simp only [nodes, restorable_cons, restorable_append] at restorable
      obtain ⟨-, ⟨first, second⟩, third⟩ := restorable
      simp [slots, stored, conditionRepairable first, consequentRepairable second,
        alternativeRepairable third]

/-- The places of a variable or a parameter can be repaired when its nodes can be restored. -/
theorem repairable_binding {name : Identifier} {type : Option Identifier}
    {value : Option Expression} (restorable : Restorable (nodesOfBinding depth name type value)) :
    Repairable (slotsOfBinding name type value) := by
  simp only [nodesOfBinding, restorable_append, restorable_flatMap] at restorable
  obtain ⟨⟨nameRestorable, typeRestorable⟩, valueRestorable⟩ := restorable
  simp only [slotsOfBinding, repairable_append, repairable_flatMap]
  exact ⟨⟨Identifier.repairable nameRestorable,
    fun annotation member => Identifier.repairable (typeRestorable annotation member)⟩,
    fun given member => Expression.repairable (valueRestorable given member)⟩

theorem Variable.repairable {definition : Variable}
    (restorable : Restorable (definition.nodes depth)) : Repairable definition.slots :=
  repairable_cons.2
    ⟨by simp [Slot.IsRepairable], repairable_binding (restorable_cons.1 restorable).2⟩

/-- The places of a statement can be repaired when its nodes can be restored. -/
theorem Statement.repairable {statement : Statement}
    (restorable : Restorable (statement.nodes depth)) : Repairable statement.slots := by
  cases statement with
  | expression value => exact Expression.repairable restorable
  | returned keyword value =>
      exact repairable_cons.2
        ⟨by simp [Slot.IsRepairable], Expression.repairable (restorable_cons.1 restorable).2⟩
  | «variable» definition => exact Variable.repairable restorable
  | recovery token => cases restorable _ List.mem_cons_self

/-- Brackets that were put in are printed, and need no repair beyond that. -/
theorem Block.repairable {block : Block} (restorable : Restorable (block.nodes depth)) :
    Repairable block.slots := by
  have each := restorable_flatMap.1 (restorable_cons.1 restorable).2
  have inside : ∀ statement ∈ block.statements, Repairable statement.slots :=
    fun statement member => Statement.repairable (each statement member)
  simpa [slots, Slot.IsRepairable] using inside

theorem ParameterList.repairable {list : ParameterList}
    (restorable : Restorable (list.nodes depth)) : Repairable list.slots := by
  have each := restorable_flatMap.1 (restorable_cons.1 restorable).2
  have inside : ∀ parameter ∈ list.parameters, Repairable parameter.slots :=
    fun parameter member => repairable_binding (restorable_cons.1 (each parameter member)).2
  simpa [slots, Slot.IsRepairable] using inside

/-- Only brackets are missing from a declaration that can be given back. -/
theorem Declaration.repairable {declaration : Declaration}
    (restorable : Restorable (declaration.nodes depth)) : Repairable declaration.slots := by
  cases declaration with
  | function declared =>
      simp only [Declaration.nodes, FunctionDeclaration.nodes, restorable_cons, restorable_append,
        restorable_flatMap] at restorable
      obtain ⟨-, ⟨⟨nameRestorable, listRestorable⟩, resultRestorable⟩, bodyRestorable⟩ := restorable
      simp only [slots, FunctionDeclaration.slots, repairable_cons, repairable_append,
        repairable_flatMap]
      exact ⟨by simp [Slot.IsRepairable], ⟨⟨Identifier.repairable nameRestorable,
        ParameterList.repairable listRestorable⟩,
        fun result member => Identifier.repairable (resultRestorable result member)⟩,
        fun block member => Block.repairable (bodyRestorable block member)⟩
  | «variable» definition => exact Variable.repairable restorable

/-- The places of a file can be repaired when its nodes can be restored. -/
theorem Root.repairable {root : Root} (restorable : Restorable (root.nodes depth)) :
    Repairable root.slots := by
  have bodies := restorable_flatMap.1 (restorable_cons.1 restorable).2
  have inside : ∀ body ∈ root.modules, Repairable body.slots := by
    intro body member
    have each := restorable_flatMap.1 (restorable_cons.1 (bodies body member)).2
    have declared : ∀ declaration ∈ body.declarations, Repairable declaration.slots :=
      fun declaration member => Declaration.repairable (each declaration member)
    simpa [Module.slots, Slot.IsRepairable] using declared
  simpa [slots, Slot.IsRepairable] using inside

end Repairable

/-- A text that is readable is split into tokens. -/
theorem Lexer.Scans.tokenize {readable : Prop} {text : List Char} {made : List Token → Prop}
    (scans : Scans readable text [] made) (holds : readable) :
    ∃ taken stop, made taken ∧
      FrontEnd.tokenize (String.ofList text) = .ok (taken ++ [Token.eof stop]) := by
  rcases scans 0 with ⟨-, taken, good, split⟩ | ⟨fails, -⟩
  · refine ⟨taken, 0 + Text.byteSize text, good, ?_⟩
    rw [List.append_nil] at split
    rw [FrontEnd.tokenize, String.toList_ofList, split]
    rfl
  · exact absurd holds fails

namespace Entry

variable {σ : Type} [Observer σ]

/-- The canonical text of a node, parsed from an entry point, gives a node with the same outline and
the same canonical text. The parse reports nothing and stops at the end marker. -/
def Restores (entry : Entry) (node : Node) (sink : Sink) (observed : σ) : Prop :=
  ∃ taken stop node' state, tokenize node.format = .ok (taken ++ [Token.eof stop]) ∧
    entry.parse (taken ++ [Token.eof stop]) sink observed = .ok node' state ∧
    state.sink = sink ∧ state.position = taken.length ∧
    node'.outline = node.outline ∧ node'.format = node.format

/-- A fresh parse takes the tokens that the parser of its entry point reads. -/
theorem parse_reads {entry : Entry} {taken : List Token} {node : Node}
    (reads : Parser.Reads (entry.parser : Parser σ Sink Node) taken node []) (stop : Nat)
    (sink : Sink)
    (observed : σ) :
    ∃ state, entry.parse (taken ++ [Token.eof stop]) sink observed = .ok node state ∧
      state.sink = sink ∧ state.position = taken.length := by
  let start : Parser.State σ := Parser.State.start (taken ++ [Token.eof stop]) sink observed
  have cursor : start.cursor = ⟨[], taken, Token.eof stop⟩ := TokenCursor.ofTokens_marked taken rfl
  obtain ⟨state, ran, ends, kept⟩ := reads start (by rw [cursor]; rfl) (by rw [cursor])
  have moved := kept.position
  rw [ends, cursor] at moved
  refine ⟨state, ran, kept.sink, ?_⟩
  simpa [start, Parser.State.position, cursor, TokenCursor.position] using moved

section Restores

variable (sink : Sink) (observed : σ)

/-- A name is given back by its text. -/
theorem restores_identifier {name : Identifier} (kind : name.token.kind = .identifier)
    (well : ∀ piece ∈ name.pieces, piece.WellSpelled)
    (restorable : Restorable (name.nodes 0)) : identifier.Restores name.node sink observed := by
  have spelling : name.token.kind.IsSpelledBy name.token.lexeme := well _ List.mem_cons_self
  have scans : Scans True (name.token.lexeme.toList ++ []) [] fun taken =>
      ∃ name' : Identifier, taken = [name'.token] ∧ name.Reprints name' :=
    Identifier.scans kind spelling Parts.nil fun name' same => .nil ⟨name', rfl, same⟩
  obtain ⟨_, stop, ⟨name', rfl, same⟩, lexed⟩ := scans.tokenize trivial
  have format : ∀ name : Identifier, name.token.kind = .identifier →
      name.token.kind.IsSpelledBy name.token.lexeme →
      name.node.format = String.ofList name.token.lexeme.toList := by
    intro name kind spelling
    have printed := (Identifier.inline kind spelling).appends.print
    rw [Identifier.format, Layout.plain_cons, Layout.plain_nil, List.append_nil] at printed
    exact printed
  rw [List.append_nil, ← format name kind spelling] at lexed
  have reads : Parser.Reads (Entry.identifier.parser : Parser σ Sink Node) [name'.token]
      name'.node [] :=
    (Parser.reads_identifier same.canonical).bind (Parser.reads_pure _ [])
  obtain ⟨state, parsed, kept, position⟩ := parse_reads reads stop sink observed
  have genuine : name.token.error = false := Restorable.genuine restorable
  refine ⟨_, stop, name'.node, state, lexed, parsed, kept, position, ?_, ?_⟩
  · exact congrArg Layout.print (same.outline genuine)
  · rw [format name' same.canonical (same.well _ List.mem_cons_self), format name kind spelling,
      same.text]

/-- An expression is given back by its text. -/
theorem restores_expression {value : Expression} (canonical : value.Canonical)
    (well : ∀ piece ∈ value.pieces, piece.WellSpelled) (restorable : Restorable (value.nodes 0)) :
    expression.Restores (.expression value) sink observed := by
  have back : value.ScansBack [] := canonical.scansBack well (by simp)
  have scans := back 0 [] Parts.nil (by simp)
  obtain ⟨taken, stop, ⟨value', spelled, same⟩, lexed⟩ :=
    scans.tokenize ⟨restorable.readable, by simp⟩
  have format : (Node.expression value).format = String.ofList (plain [] value.format) :=
    (canonical.inline well).appends.print
  have again : (Node.expression value').format = String.ofList (plain [] value'.format) :=
    (same.canonical.inline same.well).appends.print
  have reads : Parser.Reads (Entry.expression.parser : Parser σ Sink Node) taken
      (.expression value') [] := by
    have ends : value'.EndsBefore 0 [] := Expression.endsBefore_ofEnd rfl 0 value'
    have whole : Parser.Reads (Parser.expression : Parser σ Sink Expression) (taken ++ [])
        value' [] :=
      Parser.reads_expression same.canonical spelled ends
    rw [List.append_nil] at whole
    exact whole.bind (Parser.reads_pure _ [])
  obtain ⟨state, parsed, kept, position⟩ := parse_reads reads stop sink observed
  rw [← format] at lexed
  refine ⟨taken, stop, _, state, lexed, parsed, kept, position, ?_, ?_⟩
  · exact congrArg Layout.print (same.outline ⟨0, restorable.faithful⟩)
  · rw [again, format, same.text]

/-- A statement is given back by its text. -/
theorem restores_statement {value : Statement} (canonical : value.Canonical)
    (well : ∀ piece ∈ value.pieces, piece.WellSpelled) (restorable : Restorable (value.nodes 0)) :
    statement.Restores value.node sink observed := by
  have scans : Scans (Readable (value.nodes 0)) (plain [] value.format) [] fun taken =>
      ∃ value', Spells value'.pieces taken ∧ value.Reprints [] value' :=
    canonical.scans well (by simp) 0 Parts.nil (by simp)
  obtain ⟨taken, stop, ⟨value', spelled, same⟩, lexed⟩ := scans.tokenize restorable.readable
  have format : value.node.format = String.ofList (plain [] value.format) := by
    have printed := (canonical.inline well).appends.print
    cases value <;> exact printed
  have again : value'.node.format = String.ofList (plain [] value'.format) := by
    have printed := (same.canonical.inline same.well).appends.print
    cases value' <;> exact printed
  have reads : Parser.Reads (Entry.statement.parser : Parser σ Sink Node) taken value'.node [] := by
    have ends : value'.EndsBefore [] := value'.endsBefore_ofEnd rfl (by simp)
    have whole : Parser.Reads (Parser.statement : Parser σ Sink Statement) (taken ++ [])
        value' [] :=
      Parser.reads_statement same.canonical spelled ends
    rw [List.append_nil] at whole
    exact whole.bind (Parser.reads_pure _ [])
  obtain ⟨state, parsed, kept, position⟩ := parse_reads reads stop sink observed
  rw [← format] at lexed
  refine ⟨taken, stop, _, state, lexed, parsed, kept, position, ?_, ?_⟩
  · have outline := same.outline ⟨0, restorable.faithful⟩
    have steps : ∀ statement : Statement, statement.node.outlineSteps = statement.outline := by
      intro statement
      cases statement <;> rfl
    rw [Node.outline, Node.outline, steps, steps, outline]
  · rw [again, format, same.text]

/-- A file is given back by its text. -/
theorem restores_file {whole : Root} (canonical : whole.Canonical)
    (well : ∀ piece ∈ whole.pieces, piece.WellSpelled) (restorable : Restorable (whole.nodes 0)) :
    file.Restores (.root whole) sink observed := by
  obtain ⟨body, same, bodyCanonical⟩ := canonical
  have bodyWell : ∀ piece ∈ body.pieces, piece.WellSpelled := by
    simpa [Root.pieces, same] using well
  have bodyRestorable : Restorable (body.nodes 1) := by
    simpa [Root.nodes, same, Leveled.isRestorable] using restorable
  obtain ⟨taken, stop, ⟨body', spelled, reprints⟩, lexed⟩ :=
    (bodyCanonical.scans bodyWell 1).tokenize bodyRestorable.readable
  have format : (Node.root whole).format = String.ofList body.text :=
    Root.format_eq_text same bodyCanonical bodyWell
  have ended : (Token.eof stop).kind = .eof := rfl
  obtain ⟨boundary, state, parsed, position, kept⟩ :=
    parse_canonicalFile reprints.canonical spelled ended sink observed
  let file' : Module := ⟨body'.declarations, boundary⟩
  have fileCanonical : file'.Canonical :=
    ⟨reprints.canonical.declarations, reprints.canonical.sequenced⟩
  have again : (Node.root ⟨[file'], Token.eof stop⟩).format = String.ofList file'.text :=
    Root.format_eq_text rfl fileCanonical reprints.well
  rw [← format] at lexed
  refine ⟨taken, stop, _, state, lexed, parsed, kept, position, ?_, ?_⟩
  · have keeps : ∀ declaration ∈ body.declarations, declaration.KeepsOutline := by
      intro declaration member
      have each := restorable_flatMap.1 (restorable_cons.1 bodyRestorable).2
      exact Declaration.keepsOutline (each declaration member)
    have outline : file'.outline = body.outline := reprints.outline keeps
    simp only [Node.outline, Node.outlineSteps, Root.outline, same, List.map_cons, List.map_nil]
    rw [outline]
  · rw [again, format]
    exact congrArg String.ofList reprints.text

end Restores

/-- Formatting repairs a broken text. When the tree that recovery made of it can be given back, the
canonical text of the tree is parsed without a report, up to its end, to a tree with the same
outline and the same canonical text. -/
theorem format_repairs {entry : Entry} {text : String} {tokens : List Token} {observed : σ}
    {node : Node} {state : Parser.State σ} (lexed : tokenize text = .ok tokens)
    (parsed : entry.parse tokens (.collect []) observed = .ok node state)
    (restorable : Restorable (node.nodes 0)) (sink : Sink) (observed' : σ) :
    entry.Restores node sink observed' := by
  obtain ⟨body, stop, rfl, written⟩ := tokenize_wellSpelled lexed
  obtain ⟨reports, -, recovered⟩ := parse_recovered written parsed
  cases entry with
  | expression =>
      obtain ⟨value, _, -, finished⟩ := Parser.bind_eq_ok.1 parsed
      cases finished
      have repairable : Repairable value.slots := Expression.repairable restorable
      exact restores_expression sink observed' (recovered.canonical repairable)
        (recovered.well repairable) restorable
  | statement =>
      obtain ⟨value, _, -, finished⟩ := Parser.bind_eq_ok.1 parsed
      cases finished
      have inside : Restorable (value.nodes 0) := by
        cases value <;> exact restorable
      have repairable : Repairable value.node.slots :=
        value.node_slots ▸ Statement.repairable inside
      have well := recovered.well repairable
      rw [value.node_pieces] at well
      exact restores_statement sink observed'
        (Statement.node_canonical.1 (recovered.canonical repairable)) well inside
  | identifier =>
      obtain ⟨name, _, -, finished⟩ := Parser.bind_eq_ok.1 parsed
      cases finished
      have repairable : Repairable name.slots := Identifier.repairable restorable
      obtain ⟨kind⟩ := recovered.canonical repairable
      exact restores_identifier sink observed' kind (recovered.well repairable) restorable
  | file =>
      obtain ⟨whole, _, -, finished⟩ := Parser.bind_eq_ok.1 parsed
      cases finished
      have repairable : Repairable whole.slots := Root.repairable restorable
      exact restores_file sink observed' (recovered.canonical repairable)
        (recovered.well repairable) restorable

/-- Formatting a file once puts in all brackets and separators that are missing, and cuts off what
follows its declarations. -/
theorem format_brokenFile :
    let text := "func f(a b,) -> if x y z \x7d let n = (1 \x7d end"
    ∃ tokens node state, tokenize text = .ok tokens ∧
      Entry.file.parse tokens (.collect []) () = .ok node state ∧
      state.sink.held.map (·.code) = [.expectedComma, .expectedCurly, .expectedThen, .expectedElse,
        .expectedParentheses, .expectedDeclaration] ∧
      node.format = "func f(a, b) -> \x7b\n  if x then y else z\n\x7d\nlet n = (1)" ∧
      Restorable (node.nodes 0) ∧ Entry.file.Restores node (.collect []) () := by
  intro text
  have ran : (match tokenize text with
      | .ok tokens =>
          match Entry.file.parse tokens (.collect []) () with
          | .ok node state => decide (state.sink.held.map (·.code) = [.expectedComma,
              .expectedCurly, .expectedThen, .expectedElse, .expectedParentheses,
              .expectedDeclaration] ∧
              node.format = "func f(a, b) -> \x7b\n  if x then y else z\n\x7d\nlet n = (1)" ∧
              (node.nodes 0).all Leveled.isRestorable)
          | .error .. => false
      | .error _ => false) = true := by decide +kernel
  split at ran
  · rename_i tokens lexed
    split at ran
    · rename_i node state parsed
      obtain ⟨codes, printed, all⟩ := of_decide_eq_true ran
      have restorable : Restorable (node.nodes 0) := List.all_eq_true.1 all
      exact ⟨tokens, node, state, lexed, parsed, codes, printed, restorable,
        format_repairs lexed parsed restorable (.collect []) ()⟩
    · cases ran
  · cases ran

end Entry

end FrontEnd
