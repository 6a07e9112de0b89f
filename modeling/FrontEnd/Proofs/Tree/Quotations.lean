/-
This file finds the string literals of a tree in its canonical text. They stand there in their
order between quotes, and there are no other quotes.
-/

import FrontEnd.Proofs.Token.Scanning
import FrontEnd.Proofs.Tree.Slots
import FrontEnd.Proofs.Tree.Text
import FrontEnd.Tree.Nodes

namespace FrontEnd

open Layout (Step plain)

/-- The value of a string literal of a tree, and whether it stands in a block. -/
structure Quotation where
  value : String
  inBlock : Bool
  deriving DecidableEq, Repr

/-- The margin at which the lines of a block begin. -/
def blockMargin (inBlock : Bool) : List Char := if inBlock then [' ', ' '] else []

/-- A margin is made of blanks. -/
theorem blockMargin_blank (inBlock : Bool) : ∀ char ∈ blockMargin inBlock, char = ' ' := by
  cases inBlock <;> simp [blockMargin]

/-- What stands between the quotes. In a block a line feed at the end of the value is followed by
the margin of the line on which the closing quote stands. -/
def Quotation.contents (quotation : Quotation) : List Char :=
  quotation.value.toList ++
    if Layout.endsLine quotation.value.toList then blockMargin quotation.inBlock else []

/-- The quotes with what stands between them. -/
def Quotation.print (quotation : Quotation) : List Char :=
  (quoteFor quotation.value).toList ++ quotation.contents ++ (quoteFor quotation.value).toList

/-- The value of a string literal, which other nodes do not have. -/
def Node.stringValue? : Node → Option String
  | .expression (.string _ value) => some value
  | _ => none

/-- The values of the string literals among some nodes. -/
def stringsAmong (nodes : List Leveled) : List String := nodes.filterMap (·.2.stringValue?)

/-- The string literals among some nodes, in a block or outside of one. -/
def quotationsIn (inBlock : Bool) (nodes : List Leveled) : List Quotation :=
  (stringsAmong nodes).map (⟨·, inBlock⟩)

/-- The string literals of two lists of nodes follow each other. -/
@[simp] theorem stringsAmong_append (first second : List Leveled) :
    stringsAmong (first ++ second) = stringsAmong first ++ stringsAmong second :=
  List.filterMap_append

/-- A node that is no string literal is not among the literals. -/
theorem stringsAmong_cons {entry : Leveled} (other : entry.2.stringValue? = none)
    (nodes : List Leveled) : stringsAmong (entry :: nodes) = stringsAmong nodes :=
  List.filterMap_cons_none other

theorem stringsAmong_flatMap {α : Type} (nodes : α → List Leveled) (values : List α) :
    stringsAmong (values.flatMap nodes) = values.flatMap fun value => stringsAmong (nodes value) :=
  List.filterMap_flatMap

section Quotations

variable {inBlock : Bool}

/-- Where a literal stands does not change its value. -/
@[simp] theorem quotationsIn_values (nodes : List Leveled) :
    (quotationsIn inBlock nodes).map Quotation.value = stringsAmong nodes := by
  rw [quotationsIn, List.map_map]
  exact List.map_id _

@[simp] theorem quotationsIn_append (first second : List Leveled) :
    quotationsIn inBlock (first ++ second) =
      quotationsIn inBlock first ++ quotationsIn inBlock second := by
  simp [quotationsIn]

/-- A node that is no string literal adds no quotation. -/
theorem quotationsIn_cons {entry : Leveled} (other : entry.2.stringValue? = none)
    (nodes : List Leveled) :
    quotationsIn inBlock (entry :: nodes) = quotationsIn inBlock nodes := by
  rw [quotationsIn, stringsAmong_cons other, quotationsIn]

theorem quotationsIn_flatMap {α : Type} (nodes : α → List Leveled) (values : List α) :
    quotationsIn inBlock (values.flatMap nodes) =
      values.flatMap fun value => quotationsIn inBlock (nodes value) := by
  rw [quotationsIn, stringsAmong_flatMap, List.map_flatMap]
  rfl

end Quotations

/-- No character of a text is a quote. -/
def Unquoted (text : List Char) : Prop := ∀ char ∈ text, Lexer.isQuote char = false

instance : DecidablePred Unquoted := fun text =>
  decidable_of_iff (text.any Lexer.isQuote = false) (by simp [Unquoted])

/-- A text shows string literals in order, and there are no quotes outside of them. -/
inductive Quotes : List Quotation → List Char → Prop
  | nothing {text : List Char} (unquoted : Unquoted text) : Quotes [] text
  | literal {front text : List Char} {quotation : Quotation} {rest : List Quotation}
      (unquoted : Unquoted front) (later : Quotes rest text) :
      Quotes (quotation :: rest) (front ++ (quotation.print ++ text))

section Quotes

variable {quotations quotations' : List Quotation} {text text' : List Char}

/-- Two texts without quotes have none together. -/
theorem Unquoted.append (first : Unquoted text) (second : Unquoted text') :
    Unquoted (text ++ text') :=
  List.forall_mem_append.2 ⟨first, second⟩

theorem Quotes.nil : Quotes [] [] := .nothing (by decide)

/-- Text without quotes before the first quotation changes nothing. -/
theorem Quotes.behind (quotes : Quotes quotations text') (unquoted : Unquoted text) :
    Quotes quotations (text ++ text') := by
  cases quotes with
  | nothing free => exact .nothing (unquoted.append free)
  | literal free later =>
      rw [← List.append_assoc]
      exact .literal (unquoted.append free) later

/-- The quotations of two texts follow each other. -/
theorem Quotes.append (first : Quotes quotations text) (second : Quotes quotations' text') :
    Quotes (quotations ++ quotations') (text ++ text') := by
  induction first with
  | nothing unquoted => exact second.behind unquoted
  | literal unquoted _ inductionHypothesis =>
      rw [List.append_assoc, List.append_assoc]
      exact .literal unquoted inductionHypothesis

/-- Text without quotes behind the last quotation changes nothing. -/
theorem Quotes.before (quotes : Quotes quotations text) (unquoted : Unquoted text') :
    Quotes quotations (text ++ text') := by
  simpa using quotes.append (.nothing unquoted)

/-- Texts that are joined by something without quotes have their quotations in order. -/
theorem quotes_joined {α : Type} {separator : List Char} (unquoted : Unquoted separator)
    {quotations : α → List Quotation} {text : α → List Char} {items : List α}
    (each : ∀ item ∈ items, Quotes (quotations item) (text item)) :
    Quotes (items.flatMap quotations) ((items.map text).intersperse separator).flatten := by
  induction items with
  | nil => exact .nil
  | cons first rest inductionHypothesis =>
      obtain ⟨firstQuotes, restQuote⟩ := List.forall_mem_cons.1 each
      cases rest with
      | nil => simpa using firstQuotes
      | cons second rest =>
          simpa using firstQuotes.append ((inductionHypothesis restQuote).behind unquoted)

/-- Texts that follow each other have their quotations in order. -/
theorem quotes_flatMap {α : Type} {quotations : α → List Quotation} {text : α → List Char}
    {items : List α} (each : ∀ item ∈ items, Quotes (quotations item) (text item)) :
    Quotes (items.flatMap quotations) (items.flatMap text) := by
  induction items with
  | nil => exact .nil
  | cons first rest inductionHypothesis =>
      obtain ⟨firstQuotes, restQuote⟩ := List.forall_mem_cons.1 each
      exact firstQuotes.append (inductionHypothesis restQuote)

end Quotes

/-- On one line, steps with separators write the parts with separators between them. -/
theorem plain_separated (margin : List Char) (separator : String) (parts : List (List Step)) :
    plain margin (separated separator parts) =
      ((parts.map (plain margin)).intersperse separator.toList).flatten := by
  induction parts with
  | nil => rfl
  | cons first rest inductionHypothesis =>
      cases rest with
      | nil => simp [separated]
      | cons second rest =>
          rw [separated_cons_cons, Layout.plain_append, Layout.plain_cons, inductionHypothesis]
          simp

/-- Steps show string literals on a line, in a block or outside of one. -/
def Quoting (inBlock : Bool) (quotations : List Quotation) (steps : List Step) : Prop :=
  Quotes quotations (plain (blockMargin inBlock) steps)

section Quoting

variable {inBlock : Bool} {quotations quotations' : List Quotation} {steps steps' : List Step}

theorem Quoting.nil : Quoting inBlock [] [] := Quotes.nil

/-- Writing a text without quotes writes no quotation. -/
theorem Quoting.write {text : String} (unquoted : Unquoted text.toList) :
    Quoting inBlock [] [.write text] := by
  apply Quotes.nothing
  simpa using unquoted

/-- The quotations of two layouts follow each other. -/
theorem Quoting.append (first : Quoting inBlock quotations steps)
    (second : Quoting inBlock quotations' steps') :
    Quoting inBlock (quotations ++ quotations') (steps ++ steps') := by
  unfold Quoting
  rw [Layout.plain_append]
  exact Quotes.append first second

/-- Writing a text without quotes first changes nothing. -/
theorem Quoting.cons {text : String} (unquoted : Unquoted text.toList)
    (quoting : Quoting inBlock quotations steps) :
    Quoting inBlock quotations (.write text :: steps) :=
  (Quoting.write unquoted).append quoting

/-- Parts with separators write their quotations in order. -/
theorem quoting_separated {α : Type} {separator : String} (unquoted : Unquoted separator.toList)
    {quotations : α → List Quotation} {format : α → List Step} {items : List α}
    (each : ∀ item ∈ items, Quoting inBlock (quotations item) (format item)) :
    Quoting inBlock (items.flatMap quotations) (separated separator (items.map format)) := by
  unfold Quoting
  rw [plain_separated, List.map_map]
  exact quotes_joined unquoted each

end Quoting

/-- Words are made of letters, digits and underscores. -/
theorem IsWord.unquoted {chars : List Char} (word : IsWord chars) : Unquoted chars := by
  obtain ⟨first, rest, rfl, starts, continues⟩ := isWord_iff.1 word
  have first : Lexer.continuesWord first := by simp [Lexer.continuesWord, starts]
  exact List.forall_mem_cons.2 ⟨Lexer.isQuote_eq_false first,
    fun char member => Lexer.isQuote_eq_false (continues char member)⟩

theorem IsDigits.unquoted {chars : List Char} (digits : IsDigits chars) : Unquoted chars :=
  fun char member => Lexer.isQuote_eq_false (by simp [Lexer.continuesWord, digits.2 char member])

/-- Numbers are made of digits and at most one point. -/
theorem IsNumeral.unquoted {chars : List Char} (numeral : IsNumeral chars) : Unquoted chars := by
  rcases numeral with digits | ⟨whole, fraction, rfl, digits, more⟩
  · exact digits.unquoted
  · exact digits.unquoted.append (List.forall_mem_cons.2 ⟨by decide, more.unquoted⟩)

/-- No operator has a quote in its spelling. -/
theorem Operation.unquoted (operation : Operation) : Unquoted operation.spelling.toList := by
  cases operation <;> decide

/-- A name of a text writes no quotation. -/
theorem Identifier.quoting {name : Identifier} {inBlock : Bool}
    (kind : name.token.kind = .identifier)
    (spelled : name.token.kind.IsSpelledBy name.token.lexeme) :
    Quoting inBlock [] name.format :=
  .write (Identifier.isWord kind spelled).1.unquoted

/-- A sign, and the blank that may follow it, write no quotation. -/
theorem prefixSteps_quoting {inBlock : Bool} (operation : Operation) (operand : Expression) :
    Quoting inBlock [] (prefixSteps operation operand) := by
  have sign : Quoting inBlock [] [.write operation.spelling] := .write operation.unquoted
  unfold prefixSteps
  simp only
  split
  · exact sign.append (.write (by decide))
  · exact sign

/-- A string literal is shown between its quotes, up to the margin of its block. -/
theorem quoting_string (inBlock : Bool) (token : Token) (value : String) :
    Quoting inBlock [⟨value, inBlock⟩] (Expression.string token value).format := by
  have shown : plain (blockMargin inBlock) (Expression.string token value).format =
      [] ++ ((Quotation.mk value inBlock).print ++ []) := by
    simp [Expression.format, Quotation.print, Quotation.contents]
  unfold Quoting
  rw [shown]
  exact .literal (by decide) .nil

/-- A canonical expression shows its string literals. -/
theorem Expression.Canonical.quoting {value : Expression} (canonical : value.Canonical)
    (well : ∀ piece ∈ value.pieces, piece.WellSpelled) (inBlock : Bool) (depth : Nat) :
    Quoting inBlock (quotationsIn inBlock (value.nodes depth)) value.format := by
  induction canonical generalizing depth with
  | identifier kind => exact Identifier.quoting kind (well _ List.mem_cons_self)
  | @boolean token value kind decoded =>
      apply Quoting.write
      cases value <;> decide
  | @number token value kind decoded =>
      have spelled : token.kind.IsSpelledBy token.lexeme := well _ List.mem_cons_self
      rw [kind] at spelled
      apply Quoting.write
      rcases Binary64.print_isNumeral spelled decoded with same | ⟨numeral, -⟩
      · rw [same]
        decide
      · exact numeral.unquoted
  | @string token value kind decoded => exact quoting_string inBlock token value
  | @binary left right operation token _ _ _ _ _ _ leftQuotes rightQuotes =>
      simp only [pieces, List.forall_mem_append, List.forall_mem_cons] at well
      have sign : Quoting inBlock [] [.write " ", .write operation.spelling, .write " "] :=
        .cons (by decide) (.cons operation.unquoted (.write (by decide)))
      rw [nodes, quotationsIn_cons rfl, quotationsIn_append]
      simpa [format] using ((leftQuotes well.1 _).append sign).append (rightQuotes well.2.2 _)
  | @prefixed operand operation token _ _ _ operandQuotes =>
      simp only [pieces, List.forall_mem_cons] at well
      rw [nodes, quotationsIn_cons rfl]
      exact (prefixSteps_quoting operation operand).append (operandQuotes well.2 _)
  | @postfixed operand operation token _ _ _ operandQuotes =>
      simp only [pieces, List.forall_mem_append] at well
      rw [nodes, quotationsIn_cons rfl]
      simpa [format] using (operandQuotes well.1 _).append (.write operation.unquoted)
  | @call receiver arguments close _ _ _ _ receiverQuotes argumentsQuote =>
      simp only [pieces, List.forall_mem_append, List.forall_mem_cons, piecesOfAll_eq_map] at well
      obtain ⟨wellReceiver, -, wellArguments, -⟩ := well
      have inside : Quoting inBlock
          (arguments.flatMap fun argument => quotationsIn inBlock (argument.nodes (depth + 1)))
          (separated ", " (arguments.map format)) := by
        apply quoting_separated (by decide)
        intro argument member
        exact argumentsQuote argument member (fun piece inside =>
          wellArguments piece (subset_commaSeparated pieces member inside)) _
      rw [nodes, quotationsIn_cons rfl, quotationsIn_append, nodesOfAll_eq_flatMap,
        quotationsIn_flatMap]
      have opens : Quoting inBlock [] [.write "("] := .write (by decide)
      have closes : Quoting inBlock [] [.write ")"] := .write (by decide)
      simpa [format] using
        (((receiverQuotes wellReceiver _).append opens).append inside).append closes
  | @property receiver name _ _ kind receiverQuotes =>
      simp only [pieces, List.forall_mem_append, List.forall_mem_cons] at well
      have named : Quoting inBlock [] name.format :=
        Identifier.quoting kind (well.2.2 _ List.mem_cons_self)
      have none : quotationsIn inBlock (name.nodes (depth + 1)) = [] := rfl
      rw [nodes, quotationsIn_cons rfl, quotationsIn_append, none]
      simpa [format] using ((receiverQuotes well.1 _).append (.write (by decide))).append named
  | group _ _ _ contentQuotes =>
      simp only [pieces, List.forall_mem_append, List.forall_mem_cons] at well
      rw [nodes, quotationsIn_cons rfl]
      simpa [format] using ((Quoting.write (by decide)).append (contentQuotes well.2.1 _)).append
        (.write (by decide))
  | conditional _ _ _ _ conditionQuotes consequentQuotes alternativeQuotes =>
      simp only [pieces, List.forall_mem_append, List.forall_mem_cons] at well
      obtain ⟨-, wellCondition, -, wellConsequent, -, wellAlternative⟩ := well
      rw [nodes, quotationsIn_cons rfl, quotationsIn_append, quotationsIn_append]
      have opens : Quoting inBlock [] [.write "if "] := .write (by decide)
      have proceeds : Quoting inBlock [] [.write " then "] := .write (by decide)
      have turns : Quoting inBlock [] [.write " else "] := .write (by decide)
      simpa [format] using ((((opens.append (conditionQuotes wellCondition (depth + 1))).append
        proceeds).append (consequentQuotes wellConsequent (depth + 1))).append turns).append
        (alternativeQuotes wellAlternative (depth + 1))

/-- Only the value of a variable or a parameter writes quotations. -/
theorem BindingCanonical.quoting {name : Identifier} {type : Option Identifier}
    {value : Option Expression} (canonical : BindingCanonical name type value)
    (well : ∀ piece ∈ piecesOfBinding name type value, piece.WellSpelled) (inBlock : Bool)
    (depth : Nat) :
    Quoting inBlock (quotationsIn inBlock (nodesOfBinding depth name type value))
      (formatBinding name type value) := by
  simp only [piecesOfBinding, List.forall_mem_append] at well
  obtain ⟨⟨wellName, wellType⟩, wellValue⟩ := well
  have named : Quoting inBlock (quotationsIn inBlock (name.nodes depth)) name.format :=
    Identifier.quoting canonical.named (wellName _ List.mem_cons_self)
  rw [nodesOfBinding, quotationsIn_append, quotationsIn_append]
  apply (named.append _).append
  · cases value with
    | none => exact .nil
    | some given =>
        have inside := (canonical.assigned _ rfl).quoting
          (fun piece member => wellValue piece (by simp [member])) inBlock depth
        simpa using inside.cons (by decide)
  · cases type with
    | none => exact .nil
    | some typeName =>
        have inside : Quoting inBlock (quotationsIn inBlock (typeName.nodes depth))
            typeName.format := Identifier.quoting (canonical.typed _ rfl)
          (wellType (.stored typeName.token) (by simp [Identifier.pieces]))
        simpa using inside.cons (by decide)

/-- A variable writes the quotations of its value. -/
theorem Variable.Canonical.quoting {definition : Variable} (canonical : definition.Canonical)
    (well : ∀ piece ∈ definition.pieces, piece.WellSpelled) (inBlock : Bool) (depth : Nat) :
    Quoting inBlock (quotationsIn inBlock (definition.nodes depth)) definition.format := by
  rw [Variable.nodes, quotationsIn_cons rfl]
  exact (canonical.2.quoting (List.forall_mem_cons.1 well).2 inBlock _).cons (by decide)

/-- A canonical statement shows its string literals. -/
theorem Statement.Canonical.quoting {statement : Statement} (canonical : statement.Canonical)
    (well : ∀ piece ∈ statement.pieces, piece.WellSpelled) (inBlock : Bool) (depth : Nat) :
    Quoting inBlock (quotationsIn inBlock (statement.nodes depth)) statement.format := by
  cases statement with
  | expression value => exact Expression.Canonical.quoting canonical well inBlock depth
  | returned keyword value =>
      rw [nodes, quotationsIn_cons rfl]
      have inside := Expression.Canonical.quoting canonical.2 (List.forall_mem_cons.1 well).2
        inBlock (depth + 1)
      exact inside.cons (by decide)
  | «variable» definition => exact Variable.Canonical.quoting canonical well inBlock depth
  | recovery token => exact canonical.elim

theorem Parameter.Canonical.quoting {parameter : Parameter} (canonical : parameter.Canonical)
    (well : ∀ piece ∈ parameter.pieces, piece.WellSpelled) (inBlock : Bool) (depth : Nat) :
    Quoting inBlock (quotationsIn inBlock (parameter.nodes depth)) parameter.format := by
  rw [Parameter.nodes, quotationsIn_cons rfl]
  exact BindingCanonical.quoting canonical well inBlock (depth + 1)

/-- Parameters write the quotations of their default values in order. -/
theorem ParameterList.Canonical.quoting {list : ParameterList} (canonical : list.Canonical)
    (well : ∀ piece ∈ list.pieces, piece.WellSpelled) (inBlock : Bool) (depth : Nat) :
    Quoting inBlock (quotationsIn inBlock (list.nodes depth)) list.format := by
  simp only [ParameterList.pieces, List.forall_mem_cons, List.forall_mem_append] at well
  obtain ⟨-, wellParameters, -⟩ := well
  have inside : Quoting inBlock
      (list.parameters.flatMap fun parameter =>
        quotationsIn inBlock (parameter.nodes (depth + 1)))
      (separated ", " (list.parameters.map Parameter.format)) := by
    apply quoting_separated (by decide)
    intro parameter member
    exact (canonical.parameters parameter member).quoting (fun piece inside =>
      wellParameters piece (subset_commaSeparated Parameter.pieces member inside)) _ _
  rw [ParameterList.nodes, quotationsIn_cons rfl, quotationsIn_flatMap]
  simpa [format] using ((Quoting.write (by decide)).append inside).append (.write (by decide))

/-- The string literals of a function, of which those of the body stand in a block. -/
def FunctionDeclaration.quotations (depth : Nat) (declared : FunctionDeclaration) :
    List Quotation :=
  quotationsIn false (declared.parameters.nodes (depth + 1)) ++
    quotationsIn true (declared.body.toList.flatMap (·.nodes (depth + 1)))

/-- The string literals of a declaration in their places. -/
def Declaration.quotations (depth : Nat) : Declaration → List Quotation
  | .function declared => declared.quotations depth
  | .variable definition => quotationsIn false (definition.nodes depth)

def Module.quotations (depth : Nat) (module : Module) : List Quotation :=
  module.declarations.flatMap (·.quotations (depth + 1))

/-- The string literals of a tree in the order of the source. -/
def Node.quotations (depth : Nat) : Node → List Quotation
  | .block body => quotationsIn true (body.nodes depth)
  | .function declared => declared.quotations depth
  | .module body => body.quotations depth
  | .root whole => whole.modules.flatMap (·.quotations (depth + 1))
  | node => quotationsIn false (node.nodes depth)

/-- The lines of a block show the string literals of its statements. -/
theorem Block.Canonical.quotes {block : Block} (canonical : block.Canonical)
    (well : ∀ piece ∈ block.pieces, piece.WellSpelled) (depth : Nat) :
    Quotes (quotationsIn true (block.nodes depth)) block.text := by
  have lines : Quotes
      (block.statements.flatMap fun statement => quotationsIn true (statement.nodes (depth + 1)))
      (linesOf block.statements) := by
    apply quotes_flatMap
    intro statement member
    have inside := (canonical.statements statement member).quoting (fun piece inside =>
      well piece (by
        have inBlock := List.mem_flatMap.2 ⟨statement, member, inside⟩
        simp [Block.pieces, inBlock])) true (depth + 1)
    have feed : Unquoted ['\n', ' ', ' '] := by decide
    exact Quotes.behind inside feed
  rw [Block.nodes, quotationsIn_cons rfl, quotationsIn_flatMap, Block.text]
  split
  · rename_i empty
    rw [List.isEmpty_iff.1 empty]
    exact .nothing (by decide)
  · have opens : Unquoted ['\x7b'] := by decide
    exact Quotes.behind (lines.before (by decide)) opens

/-- The parameters of a function stand on its first line, and its statements on lines of their
own. -/
theorem FunctionDeclaration.Canonical.quotes {declared : FunctionDeclaration}
    (canonical : declared.Canonical) (well : ∀ piece ∈ declared.pieces, piece.WellSpelled)
    (depth : Nat) : Quotes (declared.quotations depth) declared.text := by
  simp only [FunctionDeclaration.pieces, List.forall_mem_cons, List.forall_mem_append] at well
  obtain ⟨-, ⟨⟨wellName, wellParameters⟩, wellResult⟩, wellBody⟩ := well
  have named : Quoting false [] declared.name.format :=
    Identifier.quoting canonical.name (wellName _ List.mem_cons_self)
  have result : Quoting false [] (declared.result.toList.flatMap fun result =>
      .write ": " :: result.format) := by
    cases same : declared.result with
    | none => exact .nil
    | some typeName =>
        have inside : Quoting false [] typeName.format := Identifier.quoting
          (canonical.result _ same)
          (wellResult (.stored typeName.token) (by simp [same, Identifier.pieces]))
        simpa using inside.cons (by decide)
  have parameters := canonical.parameters.quoting wellParameters false (depth + 1)
  have signature : Quoting false (quotationsIn false (declared.parameters.nodes (depth + 1)))
      (.write "func " :: (declared.name.format ++ declared.parameters.format ++
        declared.result.toList.flatMap fun result => .write ": " :: result.format)) := by
    apply Quoting.cons (by decide)
    simpa using (named.append parameters).append result
  have body : Quotes (quotationsIn true (declared.body.toList.flatMap (·.nodes (depth + 1))))
      (declared.body.toList.flatMap fun body => plain [] [.write " -> "] ++ body.text) := by
    cases same : declared.body with
    | none => exact .nil
    | some block =>
        have inside := (canonical.body _ same).quotes (fun piece member =>
          wellBody piece (by simp [same, member])) (depth + 1)
        have arrow : Unquoted (plain [] [.write " -> "]) := by decide
        simpa using inside.behind arrow
  exact Quotes.append signature body

/-- A declaration writes the quotations of its literals in order. -/
theorem Declaration.Canonical.quotes {declaration : Declaration}
    (canonical : declaration.Canonical)
    (well : ∀ piece ∈ declaration.pieces, piece.WellSpelled) (depth : Nat) :
    Quotes (declaration.quotations depth) declaration.text := by
  cases declaration with
  | function declared => exact FunctionDeclaration.Canonical.quotes canonical well depth
  | «variable» definition => exact Variable.Canonical.quoting canonical well false depth

/-- The text of a canonical module shows the string literals of its declarations. -/
theorem Module.Canonical.quotes {module : Module} (canonical : module.Canonical)
    (well : ∀ piece ∈ module.pieces, piece.WellSpelled) (depth : Nat) :
    Quotes (module.quotations depth) module.text := by
  apply quotes_joined (by decide)
  intro declaration member
  exact (canonical.declarations declaration member).quotes (fun piece inside =>
    well piece (List.mem_flatMap.2 ⟨declaration, member, inside⟩)) (depth + 1)

end FrontEnd
