/-
This file describes the canonical text of a tree. Everything but a block stands on one line, and a
block has a line for each of its statements.
-/

import FrontEnd.Proofs.Binary64.RoundTrip
import FrontEnd.Proofs.Layout
import FrontEnd.Proofs.Tree.ModuleShape
import FrontEnd.Tree.Format

namespace FrontEnd

open Layout (Step Inline plain)

/-- A stored piece is well spelled when its token has a spelling of its kind, whether it was written
or put in for a missing one. -/
def Piece.WellSpelled : Piece → Prop
  | .stored token => token.kind.IsSpelledBy token.lexeme
  | .mark _ => True

/-- A word goes on over no line end. -/
theorem IsWord.noFeed {chars : List Char} (word : IsWord chars) : '\n' ∉ chars := by
  obtain ⟨first, rest, rfl, starts, continues⟩ := isWord_iff.1 word
  intro member
  rcases List.mem_cons.1 member with rfl | later
  · cases starts
  · have := continues _ later
    cases this

/-- A number goes on over no line end. -/
theorem IsNumeral.noFeed {chars : List Char} (numeral : IsNumeral chars) : '\n' ∉ chars := by
  obtain ⟨whole, fraction, rfl, digits, more⟩ := isNumeral_iff.1 numeral
  have noDigit : Char.isDigit '\n' = false := by decide
  have inWhole : '\n' ∉ whole := fun member => by simpa [noDigit] using digits.2 _ member
  have inFraction : '\n' ∉ fraction := fun member => by simpa [noDigit] using more _ member
  unfold withFraction
  split
  · exact inWhole
  · simp [inWhole, inFraction]

/-- An operator is written on one line. -/
theorem Operation.spelling_noFeed (operation : Operation) : '\n' ∉ operation.spelling.toList := by
  cases operation <;> decide

/-- A name is a word that is neither a truth value nor a keyword. -/
theorem Identifier.isWord {name : Identifier} (kind : name.token.kind = .identifier)
    (spelled : name.token.kind.IsSpelledBy name.token.lexeme) :
    IsWord name.token.lexeme.toList ∧ Lexer.wordKind name.token.lexeme = .identifier := by
  rw [kind] at spelled
  exact spelled

/-- A name of a text is written on one line. -/
theorem Identifier.inline {name : Identifier} (kind : name.token.kind = .identifier)
    (spelled : name.token.kind.IsSpelledBy name.token.lexeme) : Inline name.format :=
  Inline.write (Identifier.isWord kind spelled).1.noFeed

/-- A separator stands behind every part but the last one. -/
theorem separated_cons_cons (separator : String) (first second : List Step)
    (rest : List (List Step)) :
    separated separator (first :: second :: rest) =
      first ++ .write separator :: separated separator (second :: rest) := by
  simp [separated]

/-- Parts on one line with separators on one line stay on it. -/
theorem inline_separated {separator : String} (noFeed : '\n' ∉ separator.toList)
    {parts : List (List Step)} (each : ∀ part ∈ parts, Inline part) :
    Inline (separated separator parts) := by
  induction parts with
  | nil => exact .nil
  | cons first rest inductionHypothesis =>
      obtain ⟨firstInline, restInline⟩ := List.forall_mem_cons.1 each
      cases rest with
      | nil => simpa [separated] using firstInline
      | cons second rest =>
          rw [separated_cons_cons]
          exact firstInline.append (.cons noFeed (inductionHypothesis restInline))

/-- A sign stands on the line of its operand. -/
theorem prefixSteps_inline (operation : Operation) (operand : Expression) :
    Inline (prefixSteps operation operand) := by
  have sign := Inline.write operation.spelling_noFeed
  unfold prefixSteps
  simp only
  split
  · exact sign.append (Inline.write (by decide))
  · exact sign

@[simp] theorem Expression.formatAll_eq_map (values : List Expression) :
    Expression.formatAll values = values.map Expression.format := by
  induction values with
  | nil => rfl
  | cons first rest inductionHypothesis =>
      rw [Expression.formatAll, inductionHypothesis, List.map_cons]

/-- The printed value of a number token. -/
theorem number_print_noFeed {token : Token} {value : Binary64}
    (kind : token.kind = .literal .number) (decoded : Binary64.read? token.lexeme = some value)
    (spelled : token.kind.IsSpelledBy token.lexeme) : '\n' ∉ value.print.toList := by
  rw [kind] at spelled
  rcases Binary64.print_isNumeral spelled decoded with rfl | ⟨numeral, -⟩
  · decide
  · exact numeral.noFeed

/-- A canonical expression stands on one line. -/
theorem Expression.Canonical.inline {value : Expression} (canonical : value.Canonical)
    (well : ∀ piece ∈ value.pieces, piece.WellSpelled) : Inline value.format := by
  induction canonical with
  | identifier kind => exact Identifier.inline kind (well _ List.mem_cons_self)
  | @boolean token value kind decoded =>
      apply Inline.write
      cases value <;> decide
  | number kind decoded =>
      exact Inline.write (number_print_noFeed kind decoded (well _ List.mem_cons_self))
  | @string token value kind decoded =>
      refine Inline.quoted ?_ ?_
      all_goals
        unfold quoteFor
        split <;> decide
  | @binary left right operation token _ _ _ _ _ _ leftInline rightInline =>
      simp only [pieces, List.forall_mem_append, List.forall_mem_cons] at well
      have sign : Inline [.write " ", .write operation.spelling, .write " "] :=
        .cons (by decide) (.cons operation.spelling_noFeed (.write (by decide)))
      exact ((leftInline well.1).append sign).append (rightInline well.2.2)
  | @prefixed operand operation token _ _ _ operandInline =>
      simp only [pieces, List.forall_mem_cons] at well
      exact (prefixSteps_inline operation operand).append (operandInline well.2)
  | @postfixed operand operation token _ _ _ operandInline =>
      simp only [pieces, List.forall_mem_append] at well
      exact (operandInline well.1).append (.write operation.spelling_noFeed)
  | @call receiver arguments close _ _ _ _ receiverInline argumentsInline =>
      simp only [pieces, List.forall_mem_append, List.forall_mem_cons, piecesOfAll_eq_map] at well
      obtain ⟨wellReceiver, -, wellArguments, -⟩ := well
      have inside : Inline (separated ", " (formatAll arguments)) := by
        rw [formatAll_eq_map]
        refine inline_separated (by decide) (List.forall_mem_map.2 fun argument member => ?_)
        exact argumentsInline argument member fun piece inside =>
          wellArguments piece (subset_commaSeparated pieces member inside)
      exact (((receiverInline wellReceiver).append (.write (by decide))).append inside).append
        (.write (by decide))
  | @property receiver name _ _ kind receiverInline =>
      simp only [pieces, List.forall_mem_append, List.forall_mem_cons] at well
      exact ((receiverInline well.1).append (.write (by decide))).append
        (Identifier.inline kind (well.2.2 _ List.mem_cons_self))
  | group _ _ _ contentInline =>
      simp only [pieces, List.forall_mem_append, List.forall_mem_cons] at well
      exact ((Inline.write (by decide)).append (contentInline well.2.1)).append
        (.write (by decide))
  | conditional _ _ _ _ conditionInline consequentInline alternativeInline =>
      simp only [pieces, List.forall_mem_append, List.forall_mem_cons] at well
      obtain ⟨-, wellCondition, -, wellConsequent, -, wellAlternative⟩ := well
      exact (((((Inline.write (by decide)).append (conditionInline wellCondition)).append
        (.write (by decide))).append (consequentInline wellConsequent)).append
        (.write (by decide))).append (alternativeInline wellAlternative)

/-- A variable or a parameter is written on one line. -/
theorem BindingCanonical.inline {name : Identifier} {type : Option Identifier}
    {value : Option Expression} (canonical : BindingCanonical name type value)
    (well : ∀ piece ∈ piecesOfBinding name type value, piece.WellSpelled) :
    Inline (formatBinding name type value) := by
  simp only [piecesOfBinding, List.forall_mem_append] at well
  obtain ⟨⟨wellName, wellType⟩, wellValue⟩ := well
  have named := Identifier.inline canonical.named (wellName _ List.mem_cons_self)
  refine (named.append ?_).append ?_
  · cases type with
    | none => exact .nil
    | some typeName =>
        have inside : Inline typeName.format :=
          Identifier.inline (canonical.typed _ rfl)
            (wellType (.stored typeName.token) (by simp [Identifier.pieces]))
        simpa using Inline.cons (by decide) inside
  · cases value with
    | none => exact .nil
    | some given =>
        have inside : Inline given.format :=
          (canonical.assigned _ rfl).inline fun piece member => wellValue _ (by simp [member])
        simpa using Inline.cons (by decide) inside

theorem Variable.Canonical.inline {definition : Variable} (canonical : definition.Canonical)
    (well : ∀ piece ∈ definition.pieces, piece.WellSpelled) : Inline definition.format :=
  .cons (by decide) (canonical.2.inline (List.forall_mem_cons.1 well).2)

/-- A canonical statement stands on one line. -/
theorem Statement.Canonical.inline {statement : Statement} (canonical : statement.Canonical)
    (well : ∀ piece ∈ statement.pieces, piece.WellSpelled) : Inline statement.format := by
  cases statement with
  | expression value => exact Expression.Canonical.inline canonical well
  | returned keyword value =>
      exact .cons (by decide)
        (Expression.Canonical.inline canonical.2 (List.forall_mem_cons.1 well).2)
  | «variable» definition => exact Variable.Canonical.inline canonical well
  | recovery token => exact canonical.elim

/-- All parameters are written on one line. -/
theorem ParameterList.Canonical.inline {list : ParameterList} (canonical : list.Canonical)
    (well : ∀ piece ∈ list.pieces, piece.WellSpelled) : Inline list.format := by
  simp only [ParameterList.pieces, List.forall_mem_cons, List.forall_mem_append] at well
  obtain ⟨-, wellParameters, -⟩ := well
  have inside : Inline (separated ", " (list.parameters.map Parameter.format)) := by
    refine inline_separated (by decide) (List.forall_mem_map.2 fun parameter member => ?_)
    exact (canonical.parameters parameter member).inline fun piece inside =>
      wellParameters piece (subset_commaSeparated Parameter.pieces member inside)
  exact ((Inline.write (by decide)).append inside).append (.write (by decide))

/-- The characters that begin an operand without a sign before it. -/
def Lexer.beginsPrimary (char : Char) : Bool :=
  continuesWord char || isQuote char || char = '('

/-- A word begins as an operand does. -/
theorem IsWord.begins {chars : List Char} (word : IsWord chars) :
    ∃ first ∈ chars.head?, Lexer.beginsPrimary first := by
  obtain ⟨first, rest, rfl, starts, -⟩ := isWord_iff.1 word
  exact ⟨first, rfl, by simp [Lexer.beginsPrimary, Lexer.continuesWord, starts]⟩

/-- A number begins as an operand does. -/
theorem IsNumeral.begins {chars : List Char} (numeral : IsNumeral chars) :
    ∃ first ∈ chars.head?, Lexer.beginsPrimary first := by
  obtain ⟨whole, fraction, rfl, digits, -⟩ := isNumeral_iff.1 numeral
  obtain ⟨first, rest, starts, digit⟩ := withFraction_eq_cons digits fraction
  rw [starts]
  exact ⟨first, rfl, by simp [Lexer.beginsPrimary, Lexer.continuesWord, digit]⟩

/-- The signs that stand before an operand. -/
def prefixMarks : List Char := ['+', '-', '!']

/-- A sign begins no operand by itself. -/
theorem not_beginsPrimary {mark : Char} (member : mark ∈ prefixMarks) :
    Lexer.beginsPrimary mark = false := by
  have none : prefixMarks.all (!Lexer.beginsPrimary ·) := by decide
  simpa using List.all_eq_true.1 none mark member

/-- An operator is spelled as its operation is. -/
theorem Operator.spelling_eq {sign : Operator} {fixity : Fixity} {operation : Operation}
    (meaning : sign.operation? fixity = some operation) : sign.spelling = operation.spelling := by
  cases fixity <;> cases sign <;> simp [Operator.operation?] at meaning <;> subst meaning <;> rfl

/-- An operation before an operand is spelled with a sign first. -/
theorem Operator.spelling_before {sign : Operator} {operation : Operation}
    (meaning : sign.operation? .before = some operation) :
    ∃ mark ∈ prefixMarks, operation.spelling.toList.head? = some mark := by
  cases sign <;> simp [Operator.operation?] at meaning <;> subst meaning <;>
    exact ⟨_, by decide, rfl⟩

/-- An operation after an operand is spelled with a sign twice. -/
theorem Operator.spelling_after {sign : Operator} {operation : Operation}
    (meaning : sign.operation? .after = some operation) :
    ∃ mark ∈ prefixMarks, operation.spelling.toList = [mark, mark] := by
  cases sign <;> simp [Operator.operation?] at meaning <;> subst meaning <;>
    exact ⟨_, by decide, rfl⟩

/-- A token opens a text when the text has the first character of the token, or when both of them
begin an operand without a sign. -/
def Token.Opens (token : Token) (text : List Char) : Prop :=
  ∃ first other, text.head? = some first ∧ token.lexeme.toList.head? = some other ∧
    (first = other ∧ first ∈ prefixMarks ∨ Lexer.beginsPrimary first ∧ Lexer.beginsPrimary other)

/-- How a text opens is told by its first character. -/
theorem Token.Opens.append {token : Token} {text : List Char} (opens : token.Opens text)
    (more : List Char) : token.Opens (text ++ more) := by
  obtain ⟨first, other, starts, same, alike⟩ := opens
  exact ⟨first, other, by rw [List.head?_append, starts, Option.some_or], same, alike⟩

/-- A text that opens as a token does is not empty. -/
theorem Token.Opens.ne_nil {token : Token} {text : List Char} (opens : token.Opens text) :
    text ≠ [] := by
  obtain ⟨first, other, starts, -⟩ := opens
  rintro rfl
  cases starts

/-- The text of an expression is opened by its first token. -/
theorem Expression.Canonical.opens {value : Expression} (canonical : value.Canonical)
    (well : ∀ piece ∈ value.pieces, piece.WellSpelled) (margin : List Char) :
    value.first.Opens (plain margin value.format) := by
  -- A token that is not a sign begins an operand, and so does the text that stands for it.
  have primary : ∀ {token : Token} {text : List Char},
      (∃ other ∈ token.lexeme.toList.head?, Lexer.beginsPrimary other) →
      (∃ first ∈ text.head?, Lexer.beginsPrimary first) → token.Opens text := by
    rintro token text ⟨other, same, otherBegins⟩ ⟨first, starts, begins⟩
    exact ⟨first, other, starts, same, .inr ⟨begins, otherBegins⟩⟩
  induction canonical with
  | @identifier name kind =>
      have word := (Identifier.isWord kind (well _ List.mem_cons_self)).1.begins
      exact primary word (by simpa [format, Identifier.format] using word)
  | @boolean token value kind decoded =>
      have spelled : token.kind.IsSpelledBy token.lexeme := well _ List.mem_cons_self
      rw [kind] at spelled
      apply primary spelled.1.begins
      cases value
      · exact ⟨'f', rfl, by decide⟩
      · exact ⟨'t', rfl, by decide⟩
  | @number token value kind decoded =>
      have spelled : token.kind.IsSpelledBy token.lexeme := well _ List.mem_cons_self
      rw [kind] at spelled
      apply primary (IsNumeral.begins spelled)
      rcases Binary64.print_isNumeral spelled decoded with rfl | ⟨numeral, -⟩
      · exact ⟨'i', rfl, by decide⟩
      · simpa [format] using numeral.begins
  | @string token value kind decoded =>
      have spelled : token.kind.IsSpelledBy token.lexeme := well _ List.mem_cons_self
      rw [kind] at spelled
      obtain ⟨contents, quotation⟩ := spelled
      obtain ⟨quote, isQuote, -, whole⟩ := isQuotation_iff.1 quotation
      apply primary ⟨quote, by rw [first, whole]; rfl, by simp [Lexer.beginsPrimary, isQuote]⟩
      simp only [format, Layout.plain_cons, Layout.Step.plain, quoteFor]
      split
      · exact ⟨'"', rfl, by decide⟩
      · exact ⟨'\'', rfl, by decide⟩
  | binary _ _ _ _ _ _ leftOpens _ =>
      simp only [pieces, List.forall_mem_append] at well
      simpa [format, first] using (leftOpens well.1).append _
  | @prefixed operand operation token meaning _ _ _ =>
      obtain ⟨sign, kind, meaning⟩ := Token.operation?_eq_some.1 meaning
      obtain ⟨mark, member, starts⟩ := Operator.spelling_before meaning
      have spelled : token.kind.IsSpelledBy token.lexeme := well _ List.mem_cons_self
      rw [kind] at spelled
      have lexeme : operation.spelling = token.lexeme :=
        (Operator.spelling_eq meaning).symm.trans (Option.some.inj spelled)
      refine ⟨mark, mark, ?_, by rw [first, ← lexeme, starts], .inl ⟨rfl, member⟩⟩
      simp only [format, prefixSteps]
      split <;> simp [List.head?_append, starts]
  | postfixed _ _ _ operandOpens =>
      simp only [pieces, List.forall_mem_append] at well
      simpa [format, first] using (operandOpens well.1).append _
  | call _ _ _ _ receiverOpens _ =>
      simp only [pieces, List.forall_mem_append] at well
      simpa [format, first] using (receiverOpens well.1).append _
  | property _ _ _ receiverOpens =>
      simp only [pieces, List.forall_mem_append] at well
      simpa [format, first] using (receiverOpens well.1).append _
  | @group opening close content openingKind _ _ _ =>
      have spelled : opening.kind.IsSpelledBy opening.lexeme := well _ List.mem_cons_self
      rw [openingKind] at spelled
      have lexeme : "(" = opening.lexeme := Option.some.inj spelled
      refine primary ⟨'(', by rw [first, ← lexeme]; rfl, by decide⟩ ⟨'(', rfl, by decide⟩
  | @conditional keyword _ _ _ kind _ _ _ _ _ _ =>
      have spelled : keyword.kind.IsSpelledBy keyword.lexeme := well _ List.mem_cons_self
      rw [kind] at spelled
      exact primary spelled.1.begins ⟨'i', rfl, by decide⟩

/-- Two operands with the same text stand in the same way after a sign. -/
theorem prefixSteps_congr {operation : Operation} {operand operand' : Expression} {text : List Char}
    (opens : operand.first.Opens text) (opens' : operand'.first.Opens text) {mark : Char}
    (member : mark ∈ prefixMarks) (starts : operation.spelling.toList.head? = some mark) :
    prefixSteps operation operand = prefixSteps operation operand' := by
  obtain ⟨first, other, head, same, alike⟩ := opens
  obtain ⟨first', other', head', same', alike'⟩ := opens'
  obtain rfl : first = first' := Option.some.inj (head.symm.trans head')
  have touches : mark = other ↔ mark = other' := by
    rcases alike with ⟨rfl, firstMark⟩ | ⟨firstBegins, begins⟩
    · rcases alike' with ⟨rfl, -⟩ | ⟨firstBegins, -⟩
      · exact Iff.rfl
      · simp [not_beginsPrimary firstMark] at firstBegins
    · rcases alike' with ⟨rfl, firstMark⟩ | ⟨-, begins'⟩
      · simp [not_beginsPrimary firstMark] at firstBegins
      · have differs : ∀ char, Lexer.beginsPrimary char → mark ≠ char := by
          rintro char begins rfl
          simp [not_beginsPrimary member] at begins
        exact iff_of_false (differs other begins) (differs other' begins')
  simp only [prefixSteps, starts, same, same', Option.some.injEq, touches]

/-- Steps append a text when they write it wherever nothing is indented. -/
def Appends (steps : List Step) (text : List Char) : Prop :=
  ∀ layout : Layout, layout.unit = [' ', ' '] → layout.level = 0 →
    layout.run steps = layout.push text

theorem Appends.nil : Appends [] [] := fun _ _ _ => rfl

/-- The texts of two lists of steps follow each other. -/
theorem Appends.append {first second : List Step} {firstText secondText : List Char}
    (firstAppends : Appends first firstText) (secondAppends : Appends second secondText) :
    Appends (first ++ second) (firstText ++ secondText) := by
  intro layout unit level
  rw [Layout.run_append, firstAppends layout unit level,
    secondAppends (layout.push firstText) unit level, Layout.push_push]

/-- The text that steps append is the one that they print. -/
theorem Appends.print {steps : List Step} {text : List Char} (appends : Appends steps text) :
    Layout.print steps = String.ofList text := by
  have ran : (Layout.start "  ").run steps = (Layout.start "  ").push text := appends _ rfl rfl
  rw [Layout.print, ran]
  simp [Layout.text, Layout.push, Layout.start]

/-- On the outermost level a line opens without a margin. -/
theorem Layout.openLine_of_level {layout : Layout} (level : layout.level = 0) :
    layout.openLine = layout := by
  rw [openLine_eq]
  simp [margin, level]

/-- Steps that stay on a line write the same wherever they stand. -/
theorem Layout.Inline.appends {steps : List Step} (inline : Inline steps) :
    Appends steps (plain [] steps) := by
  intro layout _ level
  have margin : layout.margin = [] := by simp [Layout.margin, level]
  rw [inline.run, margin]
  by_cases none : plain [] steps = []
  · rw [none, Layout.putVerbatim_nil, Layout.push_nil]
  · rw [Layout.putVerbatim_eq _ none, Layout.openLine_of_level level]

theorem appends_lineFeed : Appends [.write "\n"] ['\n'] := fun _ _ _ => rfl

/-- The lines of the statements of a block are indented by one level. -/
def linesOf (statements : List Statement) : List Char :=
  statements.flatMap fun statement => '\n' :: ' ' :: ' ' :: plain [' ', ' '] statement.format

/-- A block without statements is written on one line. -/
def Block.text (block : Block) : List Char :=
  if block.statements.isEmpty then ['\x7b', '\x7d']
  else '\x7b' :: (linesOf block.statements ++ ['\n', '\x7d'])

/-- The first line of a function, and its body behind an arrow. -/
def FunctionDeclaration.text (declared : FunctionDeclaration) : List Char :=
  plain [] (.write "func " :: (declared.name.format ++ declared.parameters.format ++
    declared.result.toList.flatMap fun result => .write ": " :: result.format)) ++
  declared.body.toList.flatMap fun body => plain [] [.write " -> "] ++ body.text

/-- The canonical text of a declaration on the outermost level. -/
def Declaration.text : Declaration → List Char
  | .function declared => declared.text
  | .variable definition => plain [] definition.format

/-- Every declaration of a module starts a line. -/
def Module.text (module : Module) : List Char :=
  ((module.declarations.map Declaration.text).intersperse ['\n']).flatten

/-- The statements of a block start lines of their own at the level of the block. -/
theorem run_lines {statements : List Statement}
    (each : ∀ statement ∈ statements, Inline statement.format ∧
      ∀ margin, plain margin statement.format ≠ [])
    {layout : Layout} (unit : layout.unit = [' ', ' ']) (level : layout.level = 1)
    (within : layout.atLineStart = false) :
    layout.run (statements.flatMap fun statement => .write "\n" :: statement.format) =
        layout.push (linesOf statements) ∧
      (layout.push (linesOf statements)).atLineStart = false := by
  induction statements generalizing layout with
  | nil => exact ⟨rfl, within⟩
  | cons first rest inductionHypothesis =>
      obtain ⟨⟨inline, some⟩, restEach⟩ := List.forall_mem_cons.1 each
      have margin : layout.margin = [' ', ' '] := by simp [Layout.margin, unit, level]
      let line := '\n' :: ' ' :: ' ' :: plain [' ', ' '] first.format
      have starts : (layout.push ['\n']).atLineStart := rfl
      have opened : (layout.push ['\n']).openLine = layout.push ['\n', ' ', ' '] := by
        rw [Layout.openLine_eq, starts, Layout.push_margin, margin]
        simp
      have wrote : layout.run (.write "\n" :: first.format) = layout.push line := by
        show (layout.push ['\n']).run first.format = _
        rw [inline.run, Layout.push_margin, margin, Layout.putVerbatim_eq _ (some _), opened,
          Layout.push_push]
        rfl
      have whole : Layout.endsLine line = false := by
        show Layout.endsLine (['\n', ' ', ' '] ++ plain [' ', ' '] first.format) = false
        rw [Layout.endsLine_append (by decide), inline.whole]
      have stays : (layout.push line).atLineStart = false := by
        rw [Layout.push_atLineStart _ (List.cons_ne_nil _ _), whole]
      have unitKept : (layout.push line).unit = [' ', ' '] := unit
      obtain ⟨ran, ends⟩ := inductionHypothesis restEach unitKept level stays
      rw [Layout.push_push] at ran ends
      refine ⟨?_, ends⟩
      rw [List.flatMap_cons, Layout.run_append, wrote, ran]
      rfl

/-- A block writes its statements one per line, one level deeper. -/
theorem Block.appends {block : Block}
    (each : ∀ statement ∈ block.statements, Inline statement.format ∧
      ∀ margin, plain margin statement.format ≠ []) :
    Appends block.format block.text := by
  unfold Block.format Block.text
  split
  · exact fun layout unit level => (Inline.write (by decide)).appends layout unit level
  · intro layout unit level
    let inside : Layout := { layout.push ['\x7b'] with level := 1 }
    have opened : layout.run [.write "\x7b", .indent] = inside := by
      show { layout.put '\x7b' with level := (layout.put '\x7b').level + 1 } = _
      rw [Layout.put_level, Layout.put_eq _ (by decide), Layout.putVerbatim_eq _ (by simp),
        Layout.openLine_of_level level, level]
    have unitKept : inside.unit = [' ', ' '] := unit
    obtain ⟨ran, -⟩ := run_lines each unitKept rfl rfl
    let outside := layout.push ('\x7b' :: linesOf block.statements)
    have closed : (inside.push (linesOf block.statements)).run [.dedent, .write "\n\x7d"] =
        outside.push ['\n', '\x7d'] := by
      have left : (inside.push (linesOf block.statements)).apply .dedent = outside := by
        simp [Layout.apply, inside, outside, Layout.push, level]
      show ((Layout.apply _ .dedent).push ['\n']).put '\x7d' = _
      have still : (outside.push ['\n']).level = 0 := level
      rw [left, Layout.put_eq _ (by decide), Layout.putVerbatim_eq _ (by simp),
        Layout.openLine_of_level still, Layout.push_push]
      rfl
    rw [Layout.run_append, Layout.run_append, opened, ran, closed, Layout.push_push]
    rfl

/-- Parts that are separated by line feeds write their texts on lines of their own. -/
theorem appends_separated {α : Type} {format : α → List Step} {text : α → List Char}
    {items : List α} (each : ∀ item ∈ items, Appends (format item) (text item)) :
    Appends (separated "\n" (items.map format)) ((items.map text).intersperse ['\n']).flatten := by
  induction items with
  | nil => exact Appends.nil
  | cons first rest inductionHypothesis =>
      obtain ⟨firstAppends, restAppends⟩ := List.forall_mem_cons.1 each
      cases rest with
      | nil => simpa [separated] using firstAppends
      | cons second rest =>
          rw [List.map_cons, List.map_cons, separated_cons_cons]
          have later := appends_lineFeed.append (inductionHypothesis restAppends)
          simpa using firstAppends.append later

/-- No statement is empty, so that none is mistaken for an empty line. -/
theorem Statement.Canonical.text_ne_nil {statement : Statement}
    (canonical : statement.Canonical) (well : ∀ piece ∈ statement.pieces, piece.WellSpelled)
    (margin : List Char) : plain margin statement.format ≠ [] := by
  cases statement with
  | expression value => exact (Expression.Canonical.opens canonical well margin).ne_nil
  | returned keyword value => simp [Statement.format]
  | «variable» definition => simp [Statement.format, Variable.format]
  | recovery token => exact canonical.elim

/-- A canonical block writes its text wherever a line is open. -/
theorem Block.Canonical.appends {block : Block} (canonical : block.Canonical)
    (well : ∀ piece ∈ block.pieces, piece.WellSpelled) : Appends block.format block.text := by
  refine Block.appends fun statement member => ?_
  have statementCanonical := canonical.statements statement member
  have statementWell : ∀ piece ∈ statement.pieces, piece.WellSpelled := fun piece inside =>
    well piece (by
      have inBlock := List.mem_flatMap.2 ⟨statement, member, inside⟩
      simp [Block.pieces, inBlock])
  exact ⟨statementCanonical.inline statementWell, statementCanonical.text_ne_nil statementWell⟩

/-- A canonical function writes its text wherever a line is open. -/
theorem FunctionDeclaration.Canonical.appends {declared : FunctionDeclaration}
    (canonical : declared.Canonical) (well : ∀ piece ∈ declared.pieces, piece.WellSpelled) :
    Appends declared.format declared.text := by
  simp only [FunctionDeclaration.pieces, List.forall_mem_cons, List.forall_mem_append] at well
  obtain ⟨-, ⟨⟨wellName, wellParameters⟩, wellResult⟩, wellBody⟩ := well
  have named := Identifier.inline canonical.name (wellName _ List.mem_cons_self)
  have result : Inline (declared.result.toList.flatMap fun result =>
      .write ": " :: result.format) := by
    cases same : declared.result with
    | none => exact .nil
    | some typeName =>
        have inside : Inline typeName.format := Identifier.inline (canonical.result _ same)
          (wellResult (.stored typeName.token) (by simp [same, Identifier.pieces]))
        simpa using Inline.cons (by decide) inside
  have signature : Inline (.write "func " :: (declared.name.format ++ declared.parameters.format ++
      declared.result.toList.flatMap fun result => .write ": " :: result.format)) :=
    .cons (by decide) ((named.append (canonical.parameters.inline wellParameters)).append result)
  have body : Appends (declared.body.toList.flatMap fun body => .write " -> " :: body.format)
      (declared.body.toList.flatMap fun body => plain [] [.write " -> "] ++ body.text) := by
    cases same : declared.body with
    | none => exact .nil
    | some block =>
        have arrow : Appends [.write " -> "] (plain [] [.write " -> "]) :=
          (Inline.write (by decide)).appends
        have inside : Appends block.format block.text := (canonical.body _ same).appends
          fun piece member => wellBody piece (by simp [same, member])
        simpa using arrow.append inside
  have whole := signature.appends.append body
  rw [List.cons_append] at whole
  exact whole

/-- A canonical declaration writes its text wherever a line is open. -/
theorem Declaration.Canonical.appends {declaration : Declaration}
    (canonical : declaration.Canonical)
    (well : ∀ piece ∈ declaration.pieces, piece.WellSpelled) :
    Appends declaration.format declaration.text := by
  cases declaration with
  | function declared => exact FunctionDeclaration.Canonical.appends canonical well
  | «variable» definition => exact (Variable.Canonical.inline canonical well).appends

/-- The declarations of a module are written on lines of their own. -/
theorem Module.Canonical.appends {module : Module} (canonical : module.Canonical)
    (well : ∀ piece ∈ module.pieces, piece.WellSpelled) : Appends module.format module.text := by
  refine appends_separated fun declaration member => ?_
  exact (canonical.declarations declaration member).appends fun piece inside =>
    well piece (List.mem_flatMap.2 ⟨declaration, member, inside⟩)

/-- A file with one module is written as the module is. -/
theorem Root.appends {root : Root} {body : Module} (same : root.modules = [body])
    (canonical : body.Canonical) (well : ∀ piece ∈ body.pieces, piece.WellSpelled) :
    Appends root.format body.text := by
  have steps : root.format = body.format := by
    simp [Root.format, same, separated]
  rw [steps]
  exact canonical.appends well

/-- The canonical text of a root is the text of its only module. -/
theorem Root.format_eq_text {root : Root} {body : Module} (same : root.modules = [body])
    (canonical : body.Canonical) (well : ∀ piece ∈ body.pieces, piece.WellSpelled) :
    (Node.root root).format = String.ofList body.text :=
  (Root.appends same canonical well).print

end FrontEnd
