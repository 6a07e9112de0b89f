/-
This file reads the canonical text of an expression back. The tree that its tokens spell has the
same shape and the same text, or the text has a number with two points and is rejected.
-/

import FrontEnd.Proofs.Parser.Accounting
import FrontEnd.Proofs.Token.Scanning
import FrontEnd.Proofs.Tree.Text
import FrontEnd.Tree.Outline

namespace FrontEnd

open Layout (Step Inline plain)
open Lexer (Parts Scans Cuts)

/-- A number with a fraction cannot stand before a point. -/
def Expression.TakesPoint : Expression → Prop
  | .number _ value => '.' ∉ value.print.toList
  | _ => True

instance : DecidablePred Expression.TakesPoint := fun value => by
  unfold Expression.TakesPoint
  split <;> infer_instance

/-- The text of a node is rejected when it takes a property of a number with a fraction. -/
def Node.IsReadable : Node → Prop
  | .expression (.property receiver _) => receiver.TakesPoint
  | _ => True

instance : DecidablePred Node.IsReadable := fun node => by
  unfold Node.IsReadable
  split <;> infer_instance

/-- Whether the canonical text of no node is rejected. -/
def Readable (nodes : List Leveled) : Prop := ∀ entry ∈ nodes, entry.2.IsReadable

@[simp] theorem readable_cons {entry : Leveled} {nodes : List Leveled} :
    Readable (entry :: nodes) ↔ entry.2.IsReadable ∧ Readable nodes :=
  List.forall_mem_cons

@[simp] theorem readable_nil : Readable [] := by simp [Readable]

/-- Two lists of nodes are readable together when each one is. -/
@[simp] theorem readable_append {first second : List Leveled} :
    Readable (first ++ second) ↔ Readable first ∧ Readable second :=
  List.forall_mem_append

@[simp] theorem readable_flatMap {α : Type} {values : List α} {nodes : α → List Leveled} :
    Readable (values.flatMap nodes) ↔ ∀ value ∈ values, Readable (nodes value) := by
  simp only [Readable, List.mem_flatMap]
  constructor
  · exact fun all value member entry inside => all entry ⟨value, member, inside⟩
  · rintro all entry ⟨value, member, inside⟩
    exact all value member entry inside

/-- The text of a node has the outline of the node when names are names of the source, numbers have
digits, and no margin comes after the contents of a string. -/
def Node.IsFaithful (margin : List Char) : Node → Prop
  | .expression (.identifier name) => name.token.error = false
  | .expression (.number _ value) => value.print ≠ "inf"
  | .expression (.string _ value) => Layout.endsLine value.toList → margin = []
  | _ => True

/-- Whether the text keeps the outlines of all nodes. -/
def Faithful (margin : List Char) (nodes : List Leveled) : Prop :=
  ∀ entry ∈ nodes, entry.2.IsFaithful margin

section Faithful

variable {margin : List Char}

@[simp] theorem faithful_cons {entry : Leveled} {nodes : List Leveled} :
    Faithful margin (entry :: nodes) ↔ entry.2.IsFaithful margin ∧ Faithful margin nodes :=
  List.forall_mem_cons

@[simp] theorem faithful_nil : Faithful margin [] := by simp [Faithful]

/-- Two lists of nodes are faithful together when each one is. -/
@[simp] theorem faithful_append {first second : List Leveled} :
    Faithful margin (first ++ second) ↔ Faithful margin first ∧ Faithful margin second :=
  List.forall_mem_append

@[simp] theorem faithful_flatMap {α : Type} {values : List α} {nodes : α → List Leveled} :
    Faithful margin (values.flatMap nodes) ↔ ∀ value ∈ values, Faithful margin (nodes value) := by
  simp only [Faithful, List.mem_flatMap]
  constructor
  · exact fun all value member entry inside => all entry ⟨value, member, inside⟩
  · rintro all entry ⟨value, member, inside⟩
    exact all value member entry inside

end Faithful

/-- The role of the kind of a piece. -/
def Piece.role (piece : Piece) : TokenKind := piece.kind.role

/-- A stored token plays the role of its kind. -/
@[simp] theorem Piece.role_stored (token : Token) : (stored token).role = token.kind.role := rfl

/-- A value that was read back from the text of another one. Their pieces have the same roles, they
have the same text, and the same outline if the text keeps it. -/
structure Reprints {α β : Type} (pieces : α → List Piece) (text : α → List Char)
    (outline : α → β) (kept canonical : α → Prop) (value value' : α) : Prop where
  canonical : canonical value'
  well : ∀ piece ∈ pieces value', piece.WellSpelled
  roles : (pieces value').map Piece.role = (pieces value).map Piece.role
  text : text value' = text value
  outline : kept value → outline value' = outline value

/-- A value that was read back and ends before the same neighbours. -/
structure ReprintsInPlace {α β : Type} (pieces : α → List Piece) (text : α → List Char)
    (outline : α → β) (kept canonical : α → Prop)
    (endsBefore : α → List TokenKind → Prop) (value value' : α) : Prop
    extends Reprints pieces text outline kept canonical value value' where
  ends : ∀ ahead, endsBefore value ahead → endsBefore value' ahead

@[simp] theorem Expression.outlineAll_eq_map (values : List Expression) :
    outlineAll values = values.map outline := by
  induction values with
  | nil => rfl
  | cons first rest inductionHypothesis =>
      rw [outlineAll, inductionHypothesis, List.map_cons]

/-- The text of an expression has the outline of the expression. -/
def Expression.KeepsOutline (margin : List Char) (value : Expression) : Prop :=
  ∃ depth, Faithful margin (value.nodes depth)

/-- An expression that was read back also has the shape of the other one as far as its neighbours
can see it. -/
structure Expression.Reprints (margin : List Char) (value value' : Expression) : Prop
    extends FrontEnd.Reprints pieces (fun value => plain margin value.format) outline
      (KeepsOutline margin) Canonical value value' where
  rank : value'.rank = value.rank
  conditional : value'.endsInConditional = value.endsInConditional
  closed : value'.endsInPostfix = value.endsInPostfix

/-- Items that were read back one by one. -/
theorem forall₂_map_eq {α β : Type} {related : α → α → Prop} {items items' : List α}
    (each : List.Forall₂ related items items') {view : α → β}
    (same : ∀ item ∈ items, ∀ item', related item item' → view item' = view item) :
    items'.map view = items.map view := by
  induction each with
  | nil => rfl
  | cons related _ inductionHypothesis =>
      obtain ⟨first, others⟩ := List.forall_mem_cons.1 same
      rw [List.map_cons, List.map_cons, first _ related, inductionHypothesis others]

theorem forall₂_forall {α : Type} {related : α → α → Prop} {items items' : List α}
    (each : List.Forall₂ related items items') {property : α → Prop}
    (holds : ∀ item item', related item item' → property item') :
    ∀ item' ∈ items', property item' := by
  induction each with
  | nil => simp
  | cons related _ inductionHypothesis =>
      exact List.forall_mem_cons.2 ⟨holds _ _ related, inductionHypothesis⟩

/-- A view that respects joining cannot tell lists with a separator apart when it cannot tell their
items apart. -/
theorem view_intersperse {α β : Type} {view : List α → List β}
    (append : ∀ first second, view (first ++ second) = view first ++ view second)
    (separator : List α) {parts parts' : List (List α)} (same : parts'.map view = parts.map view) :
    view (parts'.intersperse separator).flatten = view (parts.intersperse separator).flatten := by
  induction parts' generalizing parts with
  | nil =>
      obtain rfl : parts = [] := by simpa using same.symm
      rfl
  | cons first' rest' inductionHypothesis =>
      obtain ⟨first, rest, rfl, sameFirst, sameRest⟩ := List.map_eq_cons_iff.1 same.symm
      cases rest' with
      | nil =>
          obtain rfl : rest = [] := by simpa using sameRest
          simpa using sameFirst.symm
      | cons second' later' =>
          obtain ⟨second, later, rfl, -⟩ := List.map_eq_cons_iff.1 sameRest
          have whole := inductionHypothesis sameRest.symm
          simp only [List.intersperse_cons_cons, List.flatten_cons, append] at whole ⊢
          rw [whole, sameFirst]

section Lists

variable {α β : Type} {pieces : α → List Piece} {format : α → List Step} {outline : α → β}
  {kept canonical : α → Prop} {related : α → α → Prop} {margin : List Char} {items items' : List α}
  (each : List.Forall₂ related items items')
  (reprints : ∀ item item', related item item' →
    Reprints pieces (fun item => plain margin (format item)) outline kept canonical item item')

include each reprints

/-- Items that were read back one by one have the roles of the list. -/
theorem commaSeparated_roles : (commaSeparated (items'.map pieces)).map Piece.role =
    (commaSeparated (items.map pieces)).map Piece.role := by
  apply view_intersperse (fun _ _ => List.map_append) _
  rw [List.map_map, List.map_map]
  exact forall₂_map_eq each fun item _ item' same => (reprints item item' same).roles

/-- Items that were read back one by one have the text of the list. -/
theorem separated_plain (separator : String) :
    plain margin (separated separator (items'.map format)) =
      plain margin (separated separator (items.map format)) := by
  apply view_intersperse (Layout.plain_append margin) _
  rw [List.map_map, List.map_map]
  exact forall₂_map_eq each fun item _ item' same => (reprints item item' same).text

theorem commaSeparated_well : ∀ piece ∈ commaSeparated (items'.map pieces), piece.WellSpelled :=
  forall_mem_commaSeparated trivial
    (forall₂_forall each fun item item' same => (reprints item item' same).well)

/-- Items that were read back one by one have the outlines of the list. -/
theorem map_outline (keeps : ∀ item ∈ items, kept item) :
    items'.map outline = items.map outline :=
  forall₂_map_eq each fun item member item' same =>
    (reprints item item' same).outline (keeps item member)

end Lists

/-- Items with commas between them are scanned one by one. -/
theorem scans_separated {α : Type} {format : α → List Step} {pieces : α → List Piece}
    {readable : α → Prop} {related : α → α → Prop} {margin : List Char} {items : List α}
    (each : ∀ item ∈ items, ∀ rest, Parts rest → rest.head? ≠ some '.' →
      Scans (readable item) (plain margin (format item)) rest fun taken =>
        ∃ item', Spells (pieces item') taken ∧ related item item')
    {rest : List Char} (parts : Parts rest) (noPoint : rest.head? ≠ some '.') :
    Scans (∀ item ∈ items, readable item)
      (plain margin (separated ", " (items.map format))) rest fun taken =>
        ∃ items', Spells (commaSeparated (items'.map pieces)) taken ∧
          List.Forall₂ related items items' := by
  induction items with
  | nil => exact (Scans.nil ⟨[], .nil, .nil⟩).iff (by simp)
  | cons first later inductionHypothesis =>
      obtain ⟨firstScans, laterScans⟩ := List.forall_mem_cons.1 each
      cases later with
      | nil =>
          have single : Scans (readable first) (plain margin (format first)) rest fun taken =>
              ∃ items', Spells (commaSeparated (items'.map pieces)) taken ∧
                List.Forall₂ related [first] items' :=
            (firstScans rest parts noPoint).mono fun taken reread => by
              obtain ⟨item', spelled, same⟩ := reread
              exact ⟨[item'], by simpa using spelled, .cons same .nil⟩
          simpa [separated] using single
      | cons second rest' =>
          rw [List.map_cons, List.map_cons, separated_cons_cons]
          have text : plain margin (format first ++
              .write ", " :: separated ", " (format second :: rest'.map format)) =
              plain margin (format first) ++ (',' :: ' ' ::
                plain margin (separated ", " ((second :: rest').map format))) := by
            simp
          rw [text]
          refine Scans.iff (Scans.bind (firstScans _ (Parts.cons (by decide) (by decide) _)
            (by simp)) fun taken reread => ?_) List.forall_mem_cons.symm
          obtain ⟨item', spelled, same⟩ := reread
          refine Scans.mark (.symbol .comma) rfl (by decide) fun token kind _ => ?_
          apply Scans.blank (by decide)
          refine (inductionHypothesis laterScans).mono fun taken' reread => ?_
          obtain ⟨items', spelled', same'⟩ := reread
          refine ⟨item' :: items', ?_, .cons same same'⟩
          cases same' with
          | cons _ _ =>
              rw [List.map_cons, List.map_cons, commaSeparated_cons_cons]
              exact spells_append.2 ⟨_, _, spelled, .cons kind spelled', rfl⟩

/-- A name that was read back is a name with the same spelling. -/
abbrev Identifier.Reprints (name name' : Identifier) : Prop :=
  FrontEnd.Reprints pieces (·.token.lexeme.toList) outline (·.token.error = false)
    (·.token.kind = .identifier) name name'

/-- A name is read back. -/
theorem Identifier.scans {name : Identifier} (kind : name.token.kind = .identifier)
    (well : name.token.kind.IsSpelledBy name.token.lexeme) {readable : Prop} {text rest : List Char}
    {made : List Token → Prop} (parts : Parts (text ++ rest))
    (scans : ∀ name' : Identifier, name.Reprints name' →
      Scans readable text rest fun later => made (name'.token :: later)) :
    Scans readable (name.token.lexeme.toList ++ text) rest made := by
  obtain ⟨word, isName⟩ := Identifier.isWord kind well
  have cuts := Lexer.cuts_word word parts.word
  rw [String.ofList_toList, isName] at cuts
  refine Scans.token _ cuts fun token kind' lexeme well' => ?_
  apply scans ⟨token⟩
  exact
    { canonical := kind'
      well := List.forall_mem_singleton.2 well'.spelled
      roles := by simp [Identifier.pieces, kind', kind]
      text := by rw [lexeme, String.toList_ofList]
      outline := fun genuine => by
        have same : token.lexeme = name.token.lexeme := by rw [lexeme, String.ofList_toList]
        simp [Identifier.outline, same, well'.genuine, genuine] }

namespace Expression

/-- The text of an expression is read back before everything that does not become a part of it. -/
def ScansBack (margin : List Char) (value : Expression) : Prop :=
  ∀ (depth : Nat) (rest : List Char), Parts rest → (rest.head? = some '.' → value.rank = 10) →
    Scans (Readable (value.nodes depth) ∧ (rest.head? = some '.' → value.TakesPoint))
      (plain margin value.format) rest fun taken =>
        ∃ value', Spells value'.pieces taken ∧ value.Reprints margin value'

section Leaves

variable {margin : List Char} {token : Token}

/-- A name is scanned back as itself. -/
theorem scansBack_identifier {name : Identifier} (kind : name.token.kind = .identifier)
    (well : name.token.kind.IsSpelledBy name.token.lexeme) :
    (identifier name).ScansBack margin := by
  intro depth rest parts _
  have text : plain margin (identifier name).format = name.token.lexeme.toList ++ [] := by
    simp [format, Identifier.format]
  have readable : True ↔ Readable ((identifier name).nodes depth) ∧
      (rest.head? = some '.' → (identifier name).TakesPoint) := by
    simp [nodes, Identifier.nodes, Identifier.node, Node.IsReadable, TakesPoint]
  rw [text]
  refine Scans.iff ?_ readable
  have before : Parts ([] ++ rest) := parts
  refine Identifier.scans kind well before fun name' same => ?_
  refine .nil ⟨.identifier name', .cons rfl .nil, ?_⟩
  exact
    { canonical := .identifier same.canonical
      well := same.well
      roles := same.roles
      text := by simp [format, Identifier.format, same.text]
      outline := by
        rintro ⟨_, faithful⟩
        exact same.outline (faithful_cons.1 faithful).1
      rank := rfl
      conditional := rfl
      closed := rfl }

/-- A truth value is printed as the word that gives it back. -/
theorem print_boolean (value : Bool) :
    ∃ word : String, (if value then "true" else "false") = word ∧ IsWord word.toList ∧
      Lexer.wordKind word = .literal .boolean ∧ value = decide (word = "true") := by
  cases value
  · exact ⟨"false", rfl, isWord_cons (by decide) (by decide), by decide, by decide⟩
  · exact ⟨"true", rfl, isWord_cons (by decide) (by decide), by decide, by decide⟩

/-- A truth value is scanned back as the word that it is. -/
theorem scansBack_boolean {value : Bool} (kind : token.kind = .literal .boolean) :
    (boolean token value).ScansBack margin := by
  intro depth rest parts _
  obtain ⟨word, printed, isWord, isTruth, decoded⟩ := print_boolean value
  have cuts := Lexer.cuts_word isWord parts.word
  rw [String.ofList_toList, isTruth] at cuts
  have text : plain margin (boolean token value).format = word.toList := by
    simp [format, printed]
  rw [text]
  refine (Scans.single cuts fun token' kind' lexeme well' => ?_).iff ?_
  · refine ⟨.boolean token' value, .cons rfl .nil, ?_⟩
    have same : token'.lexeme = word := by rw [lexeme, String.ofList_toList]
    exact
      { canonical := .boolean kind' (by rw [same]; exact decoded)
        well := List.forall_mem_singleton.2 well'.spelled
        roles := by simp [pieces, kind', kind]
        text := by simp [format]
        outline := fun _ => by simp [outline]
        rank := rfl
        conditional := rfl
        closed := rfl }
  · simp [nodes, Node.IsReadable, TakesPoint]

/-- A number is scanned back as the same double, or as a name where it is infinite. -/
theorem scansBack_number {value : Binary64} (kind : token.kind = .literal .number)
    (decoded : Binary64.read? token.lexeme = some value)
    (spelled : token.kind.IsSpelledBy token.lexeme) : (number token value).ScansBack margin := by
  intro depth rest parts _
  rw [kind] at spelled
  have text : plain margin (number token value).format = value.print.toList := by simp [format]
  rw [text]
  rcases Binary64.print_isNumeral spelled decoded with rfl | ⟨numeral, again⟩
  -- A number that passes all doubles is printed as a word.
  · have word : IsWord "inf".toList := isWord_cons (by decide) (by decide)
    have cuts := Lexer.cuts_word word parts.word
    have isName : Lexer.wordKind (String.ofList "inf".toList) = .identifier := by decide
    rw [isName] at cuts
    refine (Scans.single cuts fun token' kind' lexeme well' => ?_).iff ?_
    · refine ⟨.identifier ⟨token'⟩, .cons rfl .nil, ?_⟩
      exact
        { canonical := .identifier kind'
          well := List.forall_mem_singleton.2 well'.spelled
          roles := by simp [pieces, Identifier.pieces, kind', kind, TokenKind.role]
          text := by simp [format, Identifier.format, lexeme, Binary64.print]
          outline := by
            rintro ⟨_, faithful⟩
            exact absurd rfl (faithful_cons.1 faithful).1
          rank := rfl
          conditional := rfl
          closed := rfl }
    · simp [nodes, Node.IsReadable, TakesPoint, Binary64.print]
  · have readable : Readable ((number token value).nodes depth) := by
      simp [nodes, Node.IsReadable]
    by_cases free : rest.head? = some '.' → '.' ∉ value.print.toList
    · have cuts := Lexer.cuts_numeral numeral parts.stopsDigits (fun _ => parts.point)
        fun point again => free again point
      refine (Scans.single cuts fun token' kind' lexeme well' => ?_).iff ?_
      · refine ⟨.number token' value, .cons rfl .nil, ?_⟩
        have same : token'.lexeme = value.print := by rw [lexeme, String.ofList_toList]
        exact
          { canonical := .number kind' (by rw [same]; exact again)
            well := List.forall_mem_singleton.2 well'.spelled
            roles := by simp [pieces, kind', kind]
            text := by simp [format]
            outline := fun _ => by simp [outline]
            rank := rfl
            conditional := rfl
            closed := rfl }
      · exact iff_of_true trivial ⟨readable, free⟩
    · obtain ⟨again, point⟩ := Classical.not_imp.1 free
      obtain ⟨first, more, same, rejected⟩ :=
        Lexer.front_numeral_unexpected numeral parts.stopsDigits (not_not.1 point) again
      rw [same]
      exact Scans.unexpected rejected fun both => free both.2

/-- The quote that is printed around the contents of a string is a quote that they do not hold. -/
theorem quoteFor_spec {text contents : List Char} (quotation : IsQuotation text contents) :
    ∃ quote, (quoteFor (String.ofList contents)).toList = [quote] ∧ Lexer.isQuote quote ∧
      quote ∉ contents := by
  obtain ⟨quote, isQuote, outside, -⟩ := isQuotation_iff.1 quotation
  unfold quoteFor
  rw [String.toList_ofList]
  by_cases single : '\'' ∈ contents
  · refine ⟨'"', by simp [single], rfl, ?_⟩
    rcases Bool.or_eq_true_iff.1 isQuote with same | same
    · rw [of_decide_eq_true same] at outside
      exact absurd single outside
    · rwa [of_decide_eq_true same] at outside
  · exact ⟨'\'', by simp [single], rfl, single⟩

/-- A margin after a line feed leaves no line feed at the end. -/
theorem endsLine_margin (blank : ∀ char ∈ margin, char = ' ') (contents : List Char) :
    (if Layout.endsLine (contents ++ if Layout.endsLine contents then margin else []) then margin
      else []) = [] := by
  by_cases none : margin = []
  · simp [none]
  · by_cases ends : Layout.endsLine contents
    · have stops : Layout.endsLine margin = false := by
        rw [← Bool.not_eq_true, Layout.endsLine, decide_eq_true_eq]
        intro last
        cases blank _ (List.mem_of_getLast? last)
      simp [ends, Layout.endsLine_append_of_ne_nil _ none, stops]
    · simp [ends]

/-- A string is scanned back with the value that its lines have behind the margin. -/
theorem scansBack_string {value : String} (kind : token.kind = .literal .string)
    (decoded : value = Parser.stringContents token.lexeme)
    (spelled : token.kind.IsSpelledBy token.lexeme) (blank : ∀ char ∈ margin, char = ' ') :
    (string token value).ScansBack margin := by
  intro depth rest _ _
  rw [kind] at spelled
  obtain ⟨contents, quotation⟩ := spelled
  rw [Parser.stringContents_quotation quotation] at decoded
  subst decoded
  obtain ⟨quote, quoted, isQuote, outside⟩ := quoteFor_spec quotation
  let held := contents ++ if Layout.endsLine contents then margin else []
  have noQuote : ∀ quote, Lexer.isQuote quote → (quote ∈ held ↔ quote ∈ contents) := by
    intro quote isQuote
    have notBlank : quote ∉ margin := fun member => by
      rw [blank quote member] at isQuote
      cases isQuote
    by_cases ends : Layout.endsLine contents <;> simp [held, ends, notBlank]
  have again : IsQuotation (quote :: (held ++ [quote])) held :=
    isQuotation_iff.2
      ⟨quote, isQuote, fun inside => outside ((noQuote quote isQuote).1 inside), rfl⟩
  have text : plain margin (string token (String.ofList contents)).format =
      quote :: (held ++ [quote]) := by
    simp [format, quoted, held]
  rw [text]
  refine (Scans.single (Lexer.cuts_quotation again rest) fun token' kind' lexeme well' => ?_).iff ?_
  · refine ⟨.string token' (String.ofList held), .cons rfl .nil, ?_⟩
    have sameQuote : (quoteFor (String.ofList held)).toList = [quote] := by
      rw [← quoted]
      simp [quoteFor, noQuote '\'' rfl]
    have spelled : token'.lexeme.toList = quote :: (held ++ [quote]) := by
      rw [lexeme, String.toList_ofList]
    rw [← spelled] at again
    exact
      { canonical := .string kind' (Parser.stringContents_quotation again).symm
        well := List.forall_mem_singleton.2 well'.spelled
        roles := by simp [pieces, kind', kind]
        text := by
          have kept : (if Layout.endsLine held then margin else []) = [] :=
            endsLine_margin blank contents
          refine Eq.trans ?_ text.symm
          simp only [format, Layout.plain_cons, Layout.plain_nil, Layout.Step.plain, sameQuote,
            String.toList_ofList, kept]
          simp
        outline := by
          rintro ⟨_, faithful⟩
          have noMargin : Layout.endsLine contents → margin = [] := by
            simpa [Node.IsFaithful] using (faithful_cons.1 faithful).1
          have same : held = contents := by
            by_cases ends : Layout.endsLine contents <;> simp [held, ends, noMargin]
          simp [outline, same]
        rank := rfl
        conditional := rfl
        closed := rfl }
  · simp [nodes, Node.IsReadable, TakesPoint]

end Leaves

section Forms

variable {margin : List Char} {token : Token} {operation : Operation}

/-- An operator that a text spells has the meaning that its spelling was printed for. -/
theorem operation_of_spelling {fixity : Fixity}
    (meaning : token.operation? fixity = some operation) :
    ∃ kind, token.kind = kind ∧ kind.spelling? = some operation.spelling ∧
      ∀ token' : Token, token'.kind = kind → token'.operation? fixity = some operation := by
  obtain ⟨sign, kind, meaning⟩ := Token.operation?_eq_some.1 meaning
  refine ⟨.operator sign, kind, ?_, fun token' kind' => ?_⟩
  · exact congrArg some (Operator.spelling_eq meaning)
  · exact Token.operation?_eq_some.2 ⟨sign, kind', meaning⟩

/-- An operator between operands is scanned back with blanks around it. -/
theorem ScansBack.binary {left right : Expression} (leftBack : left.ScansBack margin)
    (rightBack : right.ScansBack margin) (meaning : token.operation? .between = some operation)
    (leftRank : operation.rank ≤ left.rank) (rightRank : operation.rank < right.rank)
    (leftEnd : operation = .assignment → left.endsInConditional = false) :
    (Expression.binary left operation token right).ScansBack margin := by
  intro depth rest parts primary
  have low : operation.rank < 8 := by
    obtain ⟨sign, -, meaning⟩ := Token.operation?_eq_some.1 meaning
    exact (Operator.rank_of_between meaning).1
  have noPoint : rest.head? ≠ some '.' := fun point => by
    have high := primary point
    simp only [rank] at high
    omega
  obtain ⟨kind, sameKind, fixed, again⟩ := operation_of_spelling meaning
  have text : plain margin (Expression.binary left operation token right).format =
      plain margin left.format ++
        (' ' :: (operation.spelling.toList ++ (' ' :: plain margin right.format))) := by
    simp [format]
  rw [text]
  have readable : (Readable (left.nodes (depth + 1)) ∧
      (some ' ' = some '.' → left.TakesPoint)) ∧
      (Readable (right.nodes (depth + 1)) ∧ (rest.head? = some '.' → right.TakesPoint)) ↔
      Readable ((Expression.binary left operation token right).nodes depth) ∧
        (rest.head? = some '.' →
          (Expression.binary left operation token right).TakesPoint) := by
    simp [nodes, Node.IsReadable, noPoint]
  refine Scans.iff ?_ readable
  refine (leftBack (depth + 1) _ (Parts.cons (by decide) (by decide) _) (by simp)).bind
    fun taken reread => ?_
  obtain ⟨left', spelledLeft, leftSame⟩ := reread
  refine Scans.between kind fixed fun token' kind' well' => ?_
  refine (rightBack (depth + 1) rest parts fun point => absurd point noPoint).mono
    fun taken' reread => ?_
  obtain ⟨right', spelledRight, rightSame⟩ := reread
  refine ⟨.binary left' operation token' right',
    spells_append.2 ⟨_, _, spelledLeft, .cons rfl spelledRight, rfl⟩, ?_⟩
  exact
    { canonical := .binary (again token' kind') leftSame.canonical rightSame.canonical
        (by rw [leftSame.rank]; exact leftRank) (by rw [rightSame.rank]; exact rightRank)
        (by rw [leftSame.conditional]; exact leftEnd)
      well := List.forall_mem_append.2
        ⟨leftSame.well, List.forall_mem_cons.2 ⟨well'.spelled, rightSame.well⟩⟩
      roles := by simp [pieces, leftSame.roles, rightSame.roles, kind', sameKind]
      text := by simp [format, leftSame.text, rightSame.text]
      outline := by
        rintro ⟨_, faithful⟩
        simp only [nodes, faithful_cons, faithful_append] at faithful
        obtain ⟨-, left, right⟩ := faithful
        simp [outline, leftSame.outline ⟨_, left⟩, rightSame.outline ⟨_, right⟩]
      rank := rfl
      conditional := rightSame.conditional
      closed := rightSame.closed }

/-- A sign and an operand stand apart when they would make another sign together. -/
theorem prefixSteps_apart {operand : Expression} {text : List Char}
    (opens : operand.first.Opens text) {mark : Char} (member : mark ∈ prefixMarks)
    (starts : operation.spelling.toList.head? = some mark) :
    prefixSteps operation operand = [.write operation.spelling, .write " "] ∨
      prefixSteps operation operand = [.write operation.spelling] ∧
        ∀ next ∈ text.head?, Lexer.pairKind? mark next = none := by
  obtain ⟨first, other, head, same, alike⟩ := opens
  by_cases touches : mark = other
  · exact .inl (by simp [prefixSteps, starts, same, touches])
  · refine .inr ⟨by simp [prefixSteps, starts, same, touches], fun next isNext => ?_⟩
    obtain rfl : first = next := Option.some.inj (head.symm.trans isNext)
    rcases alike with ⟨rfl, firstMark⟩ | ⟨begins, -⟩
    · simp only [prefixMarks, List.mem_cons, List.not_mem_nil, or_false] at member firstMark
      rcases member with rfl | rfl | rfl <;> rcases firstMark with rfl | rfl | rfl <;>
        first | rfl | exact absurd rfl touches
    · refine Lexer.pairKind?_eq_none fun ends => ?_
      have none : Lexer.pairEnds.all (!Lexer.beginsPrimary ·) := by decide
      simpa [begins] using List.all_eq_true.1 none first ends

/-- A sign is scanned back apart from the operand, from which a blank keeps it where it must. -/
theorem ScansBack.prefixed {operand : Expression} (operandBack : operand.ScansBack margin)
    (meaning : token.operation? .before = some operation) (operandCanonical : operand.Canonical)
    (operandWell : ∀ piece ∈ operand.pieces, piece.WellSpelled) (operandRank : 8 ≤ operand.rank) :
    (Expression.prefixed operation token operand).ScansBack margin := by
  intro depth rest parts primary
  have noPoint : rest.head? ≠ some '.' := fun point => by
    have high := primary point
    simp [rank] at high
  obtain ⟨kind, sameKind, fixed, again⟩ := operation_of_spelling meaning
  obtain ⟨sign, -, signMeaning⟩ := Token.operation?_eq_some.1 meaning
  obtain ⟨mark, member, starts⟩ := Operator.spelling_before signMeaning
  have opens := operandCanonical.opens operandWell margin
  have readable : Readable (operand.nodes (depth + 1)) ∧
      (rest.head? = some '.' → operand.TakesPoint) ↔
      Readable ((Expression.prefixed operation token operand).nodes depth) ∧
        (rest.head? = some '.' →
          (Expression.prefixed operation token operand).TakesPoint) := by
    simp [nodes, Node.IsReadable, noPoint]
  have operandScans := (operandBack (depth + 1) rest parts fun point => absurd point noPoint).iff
    readable
  have finish : ∀ token' : Token, token'.kind = kind → token'.WellSpelled → ∀ taken,
      (∃ operand', Spells operand'.pieces taken ∧ operand.Reprints margin operand') →
      ∃ value', Spells value'.pieces (token' :: taken) ∧
        (Expression.prefixed operation token operand).Reprints margin value' := by
    rintro token' kind' well' taken ⟨operand', spelled, same⟩
    refine ⟨.prefixed operation token' operand', .cons rfl spelled, ?_⟩
    have opens' := same.canonical.opens same.well margin
    rw [same.text] at opens'
    exact
      { canonical := .prefixed (again token' kind') same.canonical
          (by rw [same.rank]; exact operandRank)
        well := List.forall_mem_cons.2 ⟨well'.spelled, same.well⟩
        roles := by simp [pieces, same.roles, kind', sameKind]
        text := by simp [format, same.text, prefixSteps_congr opens opens' member starts]
        outline := by
          rintro ⟨_, faithful⟩
          simp [outline, same.outline ⟨_, (faithful_cons.1 faithful).2⟩]
        rank := rfl
        conditional := same.conditional
        closed := same.closed }
  rcases prefixSteps_apart opens member starts with apart | ⟨joined, alone⟩
  · have text : plain margin (Expression.prefixed operation token operand).format =
        operation.spelling.toList ++ (' ' :: plain margin operand.format) := by
      simp [format, apart]
    rw [text]
    refine Scans.token kind (Lexer.cuts_fixed fixed fun first _ next same => ?_)
      fun token' kind' _ well' => ?_
    · obtain rfl : ' ' = next := Option.some.inj same
      exact Lexer.pairKind?_eq_none (by decide)
    · exact .blank (by decide) (operandScans.mono (finish token' kind' well'))
  · have text : plain margin (Expression.prefixed operation token operand).format =
        operation.spelling.toList ++ plain margin operand.format := by
      simp [format, joined]
    rw [text]
    refine Scans.token kind (Lexer.cuts_fixed fixed fun first single next same => ?_)
      fun token' kind' _ well' => operandScans.mono (finish token' kind' well')
    rw [single] at starts
    obtain rfl : first = mark := Option.some.inj starts
    obtain ⟨char, later, filled⟩ := List.exists_cons_of_ne_nil opens.ne_nil
    rw [filled] at same alone
    exact alone next same

/-- A sign behind an operand is scanned back. -/
theorem ScansBack.postfixed {operand : Expression} (operandBack : operand.ScansBack margin)
    (meaning : token.operation? .after = some operation) (operandRank : operand.rank = 10) :
    (Expression.postfixed operand operation token).ScansBack margin := by
  intro depth rest parts primary
  have noPoint : rest.head? ≠ some '.' := fun point => by
    have high := primary point
    simp [rank] at high
  obtain ⟨kind, sameKind, fixed, again⟩ := operation_of_spelling meaning
  obtain ⟨sign, -, signMeaning⟩ := Token.operation?_eq_some.1 meaning
  obtain ⟨mark, member, spelling⟩ := Operator.spelling_after signMeaning
  have text : plain margin (Expression.postfixed operand operation token).format =
      plain margin operand.format ++ operation.spelling.toList := by
    simp [format]
  rw [text]
  have readable : (Readable (operand.nodes (depth + 1)) ∧
      ((operation.spelling.toList ++ rest).head? = some '.' → operand.TakesPoint)) ∧ True ↔
      Readable ((Expression.postfixed operand operation token).nodes depth) ∧
        (rest.head? = some '.' →
          (Expression.postfixed operand operation token).TakesPoint) := by
    have differs : mark ≠ '.' := by
      rintro rfl
      simp [prefixMarks] at member
    simp [nodes, Node.IsReadable, TakesPoint, spelling, differs]
  have before : Parts (operation.spelling.toList ++ rest) := by
    rw [spelling]
    simp only [prefixMarks, List.mem_cons, List.not_mem_nil, or_false] at member
    rcases member with rfl | rfl | rfl <;> exact Parts.cons (by decide) (by decide) _
  refine Scans.iff ?_ readable
  refine (operandBack (depth + 1) _ before fun _ => operandRank).bind
    fun taken reread => ?_
  obtain ⟨operand', spelled, same⟩ := reread
  refine Scans.single (Lexer.cuts_fixed fixed fun first single => ?_) fun token' kind' _ well' => ?_
  · rw [spelling] at single
    cases single
  refine ⟨.postfixed operand' operation token',
    spells_append.2 ⟨_, _, spelled, .cons rfl .nil, rfl⟩, ?_⟩
  exact
    { canonical := .postfixed (again token' kind') same.canonical
        (by rw [same.rank]; exact operandRank)
      well := List.forall_mem_append.2 ⟨same.well, List.forall_mem_singleton.2 well'.spelled⟩
      roles := by simp [pieces, same.roles, kind', sameKind]
      text := by simp [format, same.text]
      outline := by
        rintro ⟨_, faithful⟩
        simp [outline, same.outline ⟨_, (faithful_cons.1 faithful).2⟩]
      rank := rfl
      conditional := rfl
      closed := rfl }

/-- A property is scanned back unless its receiver is a number that takes the point. -/
theorem ScansBack.property {receiver : Expression} {name : Identifier}
    (receiverBack : receiver.ScansBack margin) (receiverRank : receiver.rank = 10)
    (kind : name.token.kind = .identifier)
    (well : name.token.kind.IsSpelledBy name.token.lexeme) :
    (Expression.property receiver name).ScansBack margin := by
  intro depth rest parts _
  have text : plain margin (Expression.property receiver name).format =
      plain margin receiver.format ++ ('.' :: (name.token.lexeme.toList ++ [])) := by
    simp [format, Identifier.format]
  rw [text]
  have readable : (Readable (receiver.nodes (depth + 1)) ∧
      (some '.' = some '.' → receiver.TakesPoint)) ∧ True ↔
      Readable ((Expression.property receiver name).nodes depth) ∧
        (rest.head? = some '.' → (Expression.property receiver name).TakesPoint) := by
    simp [nodes, Node.IsReadable, TakesPoint, Identifier.nodes, Identifier.node, and_comm]
  have before : Parts ('.' :: (name.token.lexeme.toList ++ []) ++ rest) := by
    rw [List.append_nil]
    obtain ⟨first, more, spelled, starts, -⟩ := isWord_iff.1 (Identifier.isWord kind well).1
    refine ⟨fun char same => ?_, fun _ char same => ?_⟩
    · obtain rfl : '.' = char := Option.some.inj same
      rfl
    · rw [spelled] at same
      obtain rfl : first = char := Option.some.inj same
      exact Lexer.isDigit_eq_false starts
  refine Scans.iff ?_ readable
  refine (receiverBack (depth + 1) _ before fun _ => receiverRank).bind
    fun taken reread => ?_
  obtain ⟨receiver', spelled, same⟩ := reread
  refine Scans.mark (.symbol .dot) rfl (by decide) fun point pointKind _ => ?_
  have after : Parts ([] ++ rest) := parts
  refine Identifier.scans kind well after fun name' sameName => ?_
  refine .nil ⟨.property receiver' name',
    spells_append.2 ⟨_, _, spelled, .cons pointKind (.cons rfl .nil), rfl⟩, ?_⟩
  exact
    { canonical := .property same.canonical (by rw [same.rank]; exact receiverRank)
        sameName.canonical
      well := List.forall_mem_append.2
        ⟨same.well, List.forall_mem_cons.2 ⟨trivial, sameName.well⟩⟩
      roles := by simp [pieces, same.roles, sameName.roles]
      text := by simp [format, same.text, Identifier.format, sameName.text]
      outline := by
        rintro ⟨_, faithful⟩
        simp only [nodes, faithful_cons, faithful_append] at faithful
        obtain ⟨-, receiverFaithful, nameFaithful⟩ := faithful
        have genuine : name.token.error = false := (faithful_cons.1 nameFaithful).1
        simp [outline, same.outline ⟨_, receiverFaithful⟩, sameName.outline genuine]
      rank := rfl
      conditional := rfl
      closed := rfl }

/-- A group is scanned back with its parentheses. -/
theorem ScansBack.group {opening close : Token} {content : Expression}
    (contentBack : content.ScansBack margin) (openingKind : opening.kind = .bracket .openParen)
    (closeKind : close.kind = .bracket .closeParen) :
    (Expression.group opening content close).ScansBack margin := by
  intro depth rest parts _
  have text : plain margin (Expression.group opening content close).format =
      '(' :: (plain margin content.format ++ [')']) := by
    simp [format]
  rw [text]
  have readable : (Readable (content.nodes (depth + 1)) ∧
      (some ')' = some '.' → content.TakesPoint)) ∧ True ↔
      Readable ((Expression.group opening content close).nodes depth) ∧
        (rest.head? = some '.' → (Expression.group opening content close).TakesPoint) := by
    simp [nodes, Node.IsReadable, TakesPoint]
  refine Scans.iff ?_ readable
  refine Scans.mark (.bracket .openParen) rfl (by decide) fun opening' kind well => ?_
  refine (contentBack (depth + 1) _ (Parts.cons (by decide) (by decide) _) (by simp)).bind
    fun taken reread => ?_
  obtain ⟨content', spelled, same⟩ := reread
  refine Scans.mark (.bracket .closeParen) rfl (by decide) fun close' kind' well' => ?_
  refine .nil ⟨.group opening' content' close',
    .cons rfl (spells_append.2 ⟨_, _, spelled, .cons rfl .nil, rfl⟩), ?_⟩
  exact
    { canonical := .group kind same.canonical kind'
      well := List.forall_mem_cons.2 ⟨well.spelled, List.forall_mem_append.2
        ⟨same.well, List.forall_mem_singleton.2 well'.spelled⟩⟩
      roles := by simp [pieces, same.roles, kind, kind', openingKind, closeKind]
      text := by simp [format, same.text]
      outline := by
        rintro ⟨_, faithful⟩
        simp [outline, same.outline ⟨_, (faithful_cons.1 faithful).2⟩]
      rank := rfl
      conditional := rfl
      closed := rfl }

/-- A conditional is scanned back with its keywords, which stand between blanks. -/
theorem ScansBack.conditional {keyword : Token} {condition consequent alternative : Expression}
    (conditionBack : condition.ScansBack margin) (consequentBack : consequent.ScansBack margin)
    (alternativeBack : alternative.ScansBack margin) (kind : keyword.kind = .keyword .ifWord) :
    (Expression.conditional keyword condition consequent alternative).ScansBack margin := by
  intro depth rest parts primary
  have noPoint : rest.head? ≠ some '.' := fun point => by
    have high := primary point
    simp [rank] at high
  have text : plain margin
      (Expression.conditional keyword condition consequent alternative).format =
      Keyword.ifWord.spelling.toList ++ ' ' :: (plain margin condition.format ++
        ' ' :: (Keyword.thenWord.spelling.toList ++ ' ' :: (plain margin consequent.format ++
          ' ' :: (Keyword.elseWord.spelling.toList ++ ' ' ::
            plain margin alternative.format)))) := by
    simp [format, Keyword.spelling]
  rw [text]
  have readable : (Readable (condition.nodes (depth + 1)) ∧
      (some ' ' = some '.' → condition.TakesPoint)) ∧
      (Readable (consequent.nodes (depth + 1)) ∧
        (some ' ' = some '.' → consequent.TakesPoint)) ∧
      (Readable (alternative.nodes (depth + 1)) ∧
        (rest.head? = some '.' → alternative.TakesPoint)) ↔
      Readable ((Expression.conditional keyword condition consequent alternative).nodes depth) ∧
        (rest.head? = some '.' →
          (Expression.conditional keyword condition consequent alternative).TakesPoint) := by
    simp [nodes, Node.IsReadable, noPoint]
  refine Scans.iff ?_ readable
  refine Scans.keyword .ifWord fun keyword' kind' well => ?_
  refine (conditionBack (depth + 1) _ (Parts.cons (by decide) (by decide) _) (by simp)).bind
    fun taken reread => ?_
  obtain ⟨condition', spelledCondition, sameCondition⟩ := reread
  refine .blank (by decide) (Scans.keyword .thenWord fun thenToken thenKind _ => ?_)
  refine (consequentBack (depth + 1) _ (Parts.cons (by decide) (by decide) _) (by simp)).bind
    fun taken' reread => ?_
  obtain ⟨consequent', spelledConsequent, sameConsequent⟩ := reread
  refine .blank (by decide) (Scans.keyword .elseWord fun elseToken elseKind _ => ?_)
  refine (alternativeBack (depth + 1) rest parts fun point => absurd point noPoint).mono
    fun taken'' reread => ?_
  obtain ⟨alternative', spelledAlternative, sameAlternative⟩ := reread
  refine ⟨.conditional keyword' condition' consequent' alternative', .cons rfl
    (spells_append.2 ⟨_, _, spelledCondition, .cons thenKind (spells_append.2
      ⟨_, _, spelledConsequent, .cons elseKind spelledAlternative, rfl⟩), rfl⟩), ?_⟩
  exact
    { canonical := .conditional kind' sameCondition.canonical sameConsequent.canonical
        sameAlternative.canonical
      well := List.forall_mem_cons.2 ⟨well.spelled, List.forall_mem_append.2 ⟨sameCondition.well,
        List.forall_mem_cons.2 ⟨trivial, List.forall_mem_append.2 ⟨sameConsequent.well,
          List.forall_mem_cons.2 ⟨trivial, sameAlternative.well⟩⟩⟩⟩⟩
      roles := by
        simp [pieces, sameCondition.roles, sameConsequent.roles, sameAlternative.roles, kind', kind]
      text := by
        simp [format, sameCondition.text, sameConsequent.text, sameAlternative.text]
      outline := by
        rintro ⟨_, faithful⟩
        simp only [nodes, faithful_cons, faithful_append] at faithful
        obtain ⟨-, ⟨first, second⟩, third⟩ := faithful
        simp [outline, sameCondition.outline ⟨_, first⟩, sameConsequent.outline ⟨_, second⟩,
          sameAlternative.outline ⟨_, third⟩]
      rank := rfl
      conditional := rfl
      closed := sameAlternative.closed }

/-- A call is scanned back with commas between its arguments. -/
theorem ScansBack.call {receiver : Expression} {arguments : List Expression} {close : Token}
    (receiverBack : receiver.ScansBack margin) (receiverRank : receiver.rank = 10)
    (argumentsBack : ∀ argument ∈ arguments, argument.ScansBack margin)
    (closeKind : close.kind = .bracket .closeParen) :
    (Expression.call receiver arguments close).ScansBack margin := by
  intro depth rest parts _
  have text : plain margin (Expression.call receiver arguments close).format =
      plain margin receiver.format ++
        ('(' :: (plain margin (separated ", " (arguments.map format)) ++ [')'])) := by
    simp [format]
  rw [text]
  have readable : (Readable (receiver.nodes (depth + 1)) ∧
      (some '(' = some '.' → receiver.TakesPoint)) ∧
      (∀ argument ∈ arguments, Readable (argument.nodes (depth + 1))) ∧ True ↔
      Readable ((Expression.call receiver arguments close).nodes depth) ∧
        (rest.head? = some '.' →
          (Expression.call receiver arguments close).TakesPoint) := by
    simp [nodes, Node.IsReadable, TakesPoint, nodesOfAll_eq_flatMap]
  refine Scans.iff ?_ readable
  refine (receiverBack (depth + 1) _ (Parts.cons (by decide) (by decide) _) (by simp)).bind
    fun taken reread => ?_
  obtain ⟨receiver', spelledReceiver, receiverSame⟩ := reread
  refine Scans.mark (.bracket .openParen) rfl (by decide) fun opening openingKind _ => ?_
  have each : ∀ argument ∈ arguments, ∀ rest, Parts rest → rest.head? ≠ some '.' →
      Scans (Readable (argument.nodes (depth + 1))) (plain margin argument.format) rest
        fun taken => ∃ argument', Spells argument'.pieces taken ∧
          argument.Reprints margin argument' := by
    intro argument member rest parts noPoint
    refine (argumentsBack argument member (depth + 1) rest parts
      fun point => absurd point noPoint).iff ?_
    simp [noPoint]
  refine (scans_separated each (Parts.cons (by decide) (by decide) _) (by simp)).bind
    fun taken' reread => ?_
  obtain ⟨arguments', spelledArguments, argumentsSame⟩ := reread
  refine Scans.mark (.bracket .closeParen) rfl (by decide) fun close' kind' well' => ?_
  refine .nil ⟨.call receiver' arguments' close', ?_, ?_⟩
  · rw [pieces, piecesOfAll_eq_map]
    exact spells_append.2 ⟨_, _, spelledReceiver, .cons openingKind (spells_append.2
      ⟨_, _, spelledArguments, .cons rfl .nil, rfl⟩), rfl⟩
  have roles := commaSeparated_roles argumentsSame fun _ _ same => same.toReprints
  have texts := separated_plain argumentsSame (fun _ _ same => same.toReprints) ", "
  have wells := commaSeparated_well argumentsSame fun _ _ same => same.toReprints
  exact
    { canonical := .call receiverSame.canonical (by rw [receiverSame.rank]; exact receiverRank)
        (forall₂_forall argumentsSame fun _ _ same => same.canonical) kind'
      well := by
        rw [pieces, piecesOfAll_eq_map]
        exact List.forall_mem_append.2 ⟨receiverSame.well, List.forall_mem_cons.2 ⟨trivial,
          List.forall_mem_append.2 ⟨wells, List.forall_mem_singleton.2 well'.spelled⟩⟩⟩
      roles := by simp [pieces, receiverSame.roles, roles, kind', closeKind]
      text := by simp [format, receiverSame.text, texts]
      outline := by
        rintro ⟨_, faithful⟩
        simp only [nodes, faithful_cons, faithful_append, nodesOfAll_eq_flatMap, faithful_flatMap]
          at faithful
        obtain ⟨-, receiverFaithful, argumentsFaithful⟩ := faithful
        have outlines := map_outline argumentsSame (fun _ _ same => same.toReprints)
          fun argument member => ⟨_, argumentsFaithful argument member⟩
        simp [outline, receiverSame.outline ⟨_, receiverFaithful⟩, outlines]
      rank := rfl
      conditional := rfl
      closed := rfl }

end Forms

/-- The text of a canonical expression is read back. -/
theorem Canonical.scansBack {value : Expression} (canonical : value.Canonical)
    (well : ∀ piece ∈ value.pieces, piece.WellSpelled) {margin : List Char}
    (blank : ∀ char ∈ margin, char = ' ') : value.ScansBack margin := by
  induction canonical with
  | identifier kind => exact scansBack_identifier kind (well _ List.mem_cons_self)
  | boolean kind _ => exact scansBack_boolean kind
  | number kind decoded => exact scansBack_number kind decoded (well _ List.mem_cons_self)
  | string kind decoded => exact scansBack_string kind decoded (well _ List.mem_cons_self) blank
  | binary meaning _ _ leftRank rightRank leftEnd leftBack rightBack =>
      simp only [pieces, List.forall_mem_append, List.forall_mem_cons] at well
      exact (leftBack well.1).binary (rightBack well.2.2) meaning leftRank rightRank leftEnd
  | prefixed meaning operandCanonical operandRank operandBack =>
      simp only [pieces, List.forall_mem_cons] at well
      exact (operandBack well.2).prefixed meaning operandCanonical well.2 operandRank
  | postfixed meaning _ operandRank operandBack =>
      simp only [pieces, List.forall_mem_append] at well
      exact (operandBack well.1).postfixed meaning operandRank
  | call _ receiverRank _ closeKind receiverBack argumentsBack =>
      simp only [pieces, List.forall_mem_append, List.forall_mem_cons, piecesOfAll_eq_map] at well
      obtain ⟨wellReceiver, -, wellArguments, -⟩ := well
      refine (receiverBack wellReceiver).call receiverRank (fun argument member => ?_) closeKind
      exact argumentsBack argument member fun piece inside =>
        wellArguments piece (subset_commaSeparated pieces member inside)
  | property _ receiverRank kind receiverBack =>
      simp only [pieces, List.forall_mem_append, List.forall_mem_cons] at well
      exact (receiverBack well.1).property receiverRank kind (well.2.2 _ List.mem_cons_self)
  | group openingKind _ closeKind contentBack =>
      simp only [pieces, List.forall_mem_append, List.forall_mem_cons] at well
      exact (contentBack well.2.1).group openingKind closeKind
  | conditional kind _ _ _ conditionBack consequentBack alternativeBack =>
      simp only [pieces, List.forall_mem_append, List.forall_mem_cons] at well
      obtain ⟨-, wellCondition, -, wellConsequent, -, wellAlternative⟩ := well
      exact (conditionBack wellCondition).conditional (consequentBack wellConsequent)
        (alternativeBack wellAlternative) kind

end Expression

end FrontEnd
