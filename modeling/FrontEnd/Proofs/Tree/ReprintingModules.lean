/-
This file reads the canonical text of statements, declarations and modules back.
-/

import FrontEnd.Proofs.Tree.Reprinting

namespace FrontEnd

open Layout (Step Inline plain)
open Lexer (Parts Scans Cuts)

section Optional

variable {α : Type} {mark : TokenKind} {lead : List Char} {pieces : α → List Piece}
  {text : α → List Char} {related : α → α → Prop} {item item' : Option α}

/-- A part that may be missing is read back when its mark and what follows the mark are. -/
theorem scans_optional {readable : α → Prop} {rest : List Char}
    (leads : ∀ {readable : Prop} {text : List Char} {made : List Token → Prop},
      (∀ token : Token, token.kind = mark →
        Scans readable text rest fun later => made (token :: later)) →
      Scans readable (lead ++ text) rest made)
    (each : ∀ value ∈ item, Scans (readable value) (text value) rest fun taken =>
      ∃ value', Spells (pieces value') taken ∧ related value value') :
    Scans (∀ value ∈ item, readable value)
      (item.toList.flatMap fun value => lead ++ text value) rest fun taken =>
        ∃ item', Spells (item'.toList.flatMap fun value => .mark mark :: pieces value) taken ∧
          Option.Rel related item item' := by
  cases item with
  | none => exact (Scans.nil ⟨none, .nil, .none⟩).iff (by simp)
  | some value =>
      rw [Option.toList_some, List.flatMap_singleton]
      refine (leads fun token kind => ?_).iff (by simp : readable value ↔ _)
      refine (each value rfl).mono fun taken reread => ?_
      obtain ⟨value', spelled, same⟩ := reread
      refine ⟨some value', ?_, .some same⟩
      rw [Option.toList_some, List.flatMap_singleton]
      exact .cons kind spelled

/-- A part that was read back is missing where the other one is. -/
theorem missing_iff (same : Option.Rel related item item') : item' = none ↔ item = none := by
  cases same <;> simp

/-- A part that may be missing is read back as its value is. -/
theorem optional_reprints {β : Type} {outline : α → β} {kept canonical : α → Prop}
    (same : Option.Rel related item item')
    (reprints : ∀ value value', related value value' →
      Reprints pieces text outline kept canonical value value') :
    Reprints (fun item => item.toList.flatMap fun value => .mark mark :: pieces value)
      (fun item => item.toList.flatMap fun value => lead ++ text value)
      (fun item => item.map outline)
      (fun item => ∀ value ∈ item, kept value) (fun item => ∀ value ∈ item, canonical value)
      item item' := by
  cases same with
  | none =>
      exact
        { canonical := by simp
          well := by simp
          roles := rfl
          text := rfl
          outline := fun _ => rfl }
  | @some value value' related =>
      have same := reprints value value' related
      exact
        { canonical := by simpa using same.canonical
          well := by simpa using ⟨trivial, same.well⟩
          roles := by simp [same.roles]
          text := by simp [same.text]
          outline := fun keeps => by simp [same.outline (keeps value rfl)] }

end Optional

/-- What ends before an expression's neighbours also ends before those of the one read back. -/
theorem Expression.Reprints.endsBefore {margin : List Char} {value value' : Expression}
    (same : value.Reprints margin value') {rank : Nat} {ahead : List TokenKind}
    (ends : value.EndsBefore rank ahead) : value'.EndsBefore rank ahead := by
  refine ⟨?_, ?_, ?_⟩
  · rw [same.conditional]
    exact ends.looser
  · rw [same.closed]
    exact ends.complete
  · rw [same.closed]
    exact ends.closed

/-- The pieces and the text of a type after a name. -/
def piecesOfType (type : Option Identifier) : List Piece :=
  type.toList.flatMap fun type => .mark (.symbol .colon) :: type.pieces

/-- A type stands behind a colon. -/
def textOfType (type : Option Identifier) : List Char :=
  type.toList.flatMap fun type => [':', ' '] ++ type.token.lexeme.toList

/-- The pieces and the text of a value after a name. -/
def piecesOfValue (value : Option Expression) : List Piece :=
  value.toList.flatMap fun value => .mark (.operator .equals) :: value.pieces

/-- A value stands behind a sign of assignment. -/
def textOfValue (margin : List Char) (value : Option Expression) : List Char :=
  value.toList.flatMap fun value => [' ', '=', ' '] ++ plain margin value.format

/-- The pieces and the text of a body after an arrow. -/
def piecesOfBody (body : Option Block) : List Piece :=
  body.toList.flatMap fun body => .mark (.symbol .arrow) :: body.pieces

/-- A body stands behind an arrow. -/
def textOfBody (body : Option Block) : List Char :=
  body.toList.flatMap fun body => [' ', '-', '>', ' '] ++ body.text

/-- The text of a type gives a type with the same name back. -/
theorem scans_type {type : Option Identifier}
    (typed : ∀ typeName ∈ type, typeName.token.kind = .identifier)
    (well : ∀ piece ∈ piecesOfType type, piece.WellSpelled) {rest : List Char}
    (parts : Parts rest) :
    Scans True (textOfType type) rest fun taken =>
      ∃ type', Spells (piecesOfType type') taken ∧
        Option.Rel Identifier.Reprints type type' := by
  have readable : (∀ typeName ∈ type, True) ↔ True := by simp
  refine Scans.iff (scans_optional (fun scans => ?_) fun typeName same => ?_) readable
  · exact Scans.mark (.symbol .colon) rfl (by decide) fun token kind _ =>
      .blank (by decide) (scans token kind)
  · have wellName : typeName.token.kind.IsSpelledBy typeName.token.lexeme :=
      well (.stored typeName.token) (by
        rw [piecesOfType, show type = some typeName from same]
        simp [Identifier.pieces])
    rw [← List.append_nil typeName.token.lexeme.toList]
    refine Identifier.scans (typed typeName same) wellName parts fun typeName' reprints => ?_
    exact .nil ⟨typeName', .cons rfl .nil, reprints⟩

/-- The text of a value gives a value of the same outline back. -/
theorem scans_value {value : Option Expression} (canonical : ∀ given ∈ value, given.Canonical)
    (well : ∀ piece ∈ piecesOfValue value, piece.WellSpelled) {margin : List Char}
    (blank : ∀ char ∈ margin, char = ' ') (depth : Nat) {rest : List Char} (parts : Parts rest)
    (noPoint : rest.head? ≠ some '.') :
    Scans (∀ given ∈ value, Readable (given.nodes depth)) (textOfValue margin value) rest
      fun taken => ∃ value', Spells (piecesOfValue value') taken ∧
        Option.Rel (Expression.Reprints margin) value value' := by
  refine scans_optional (fun scans => ?_) fun given same => ?_
  · exact Scans.between (.operator .equals) rfl fun token kind _ => scans token kind
  · have wellGiven : ∀ piece ∈ given.pieces, piece.WellSpelled := fun piece inside =>
      well piece (by
        rw [piecesOfValue, show value = some given from same]
        simp [inside])
    have back := (canonical given same).scansBack wellGiven blank
    exact (back depth rest parts fun point => absurd point noPoint).iff (by simp [noPoint])

/-- The outlines of a name, its type and its value. -/
def Parameter.outlines (parameter : Parameter) :
    List Step × Option (List Step) × Option (List Step) :=
  (parameter.name.outline, parameter.type.map Identifier.outline,
    parameter.default.map Expression.outline)

/-- The outline of a parameter by the outlines of its name, its type and its value. -/
def joinOutlines : List Step × Option (List Step) × Option (List Step) → List Step
  | (name, type, value) =>
      Outline.node "Parameter" (Outline.child "name" name ++ Outline.optional "type" type ++
        Outline.optional "default" value)

theorem Parameter.outline_eq : Parameter.outline = joinOutlines ∘ Parameter.outlines := rfl

/-- A parameter that was read back ends before the same neighbours. -/
abbrev Parameter.Reprints (margin : List Char) (parameter parameter' : Parameter) : Prop :=
  ReprintsInPlace pieces (fun parameter => plain margin parameter.format) outlines
    (fun parameter => ∃ depth, Faithful margin (parameter.nodes depth)) Canonical
    (fun parameter => BindingEndsBefore parameter.type parameter.default) parameter parameter'

/-- A binding keeps its outline when its name, its type and its value do. -/
theorem faithful_binding {margin : List Char} {depth : Nat} {name : Identifier}
    {type : Option Identifier} {value : Option Expression} :
    Faithful margin (nodesOfBinding depth name type value) ↔ name.token.error = false ∧
      (∀ annotation ∈ type, annotation.token.error = false) ∧
        ∀ given ∈ value, Faithful margin (given.nodes depth) := by
  have named : ∀ name : Identifier,
      Faithful margin (name.nodes depth) ↔ name.token.error = false := by
    intro name
    simp [Identifier.nodes, Identifier.node, Node.IsFaithful]
  simp [nodesOfBinding, named]

theorem Parameter.pieces_eq (parameter : Parameter) :
    parameter.pieces = parameter.name.pieces ++
      (piecesOfType parameter.type ++ piecesOfValue parameter.default) := by
  simp [Parameter.pieces, piecesOfBinding, piecesOfType, piecesOfValue]

/-- A parameter is written as its name, its type and its value. -/
theorem Parameter.plain_format (parameter : Parameter) (margin : List Char) :
    plain margin parameter.format = parameter.name.token.lexeme.toList ++
      (textOfType parameter.type ++ textOfValue margin parameter.default) := by
  cases sameType : parameter.type <;> cases sameValue : parameter.default <;>
    simp [Parameter.format, formatBinding, textOfType, textOfValue, Identifier.format, sameType,
      sameValue]

/-- The text of a name, its type and its value is read back. -/
theorem Parameter.Canonical.scans {parameter : Parameter} (canonical : parameter.Canonical)
    (well : ∀ piece ∈ parameter.pieces, piece.WellSpelled) {margin : List Char}
    (blank : ∀ char ∈ margin, char = ' ') (depth : Nat) {rest : List Char} (parts : Parts rest)
    (noPoint : rest.head? ≠ some '.') :
    Scans (Readable (parameter.nodes depth)) (plain margin parameter.format) rest fun taken =>
      ∃ parameter', Spells parameter'.pieces taken ∧ parameter.Reprints margin parameter' := by
  obtain ⟨name, type, value⟩ := parameter
  obtain ⟨named, typed, assigned⟩ := canonical
  rw [Parameter.pieces_eq] at well
  simp only [List.forall_mem_append] at well
  obtain ⟨wellName, wellType, wellValue⟩ := well
  have beforeValue : Parts (textOfValue margin value ++ rest) := by
    cases value with
    | none => exact parts
    | some given => exact Parts.cons (by decide) (by decide) _
  have beforeType : Parts (textOfType type ++ textOfValue margin value ++ rest) := by
    rw [List.append_assoc]
    cases type with
    | none => exact beforeValue
    | some typeName => exact Parts.cons (by decide) (by decide) _
  have readable : True ∧ (∀ given ∈ value, Readable (given.nodes (depth + 1))) ↔
      Readable (Parameter.nodes depth ⟨name, type, value⟩) := by
    cases type <;>
      simp [Parameter.nodes, nodesOfBinding, Node.IsReadable, Identifier.nodes, Identifier.node]
  rw [Parameter.plain_format]
  refine Scans.iff ?_ readable
  refine Identifier.scans named (wellName _ List.mem_cons_self) beforeType
    fun name' sameName => ?_
  refine (scans_type typed wellType beforeValue).bind
    fun taken reread => ?_
  obtain ⟨type', spelledType, sameType⟩ := reread
  refine (scans_value assigned wellValue blank (depth + 1) parts noPoint).mono
    fun taken' reread => ?_
  obtain ⟨value', spelledValue, sameValue⟩ := reread
  refine ⟨⟨name', type', value'⟩, ?_, ?_⟩
  · rw [Parameter.pieces_eq]
    exact spells_append.2 ⟨[name'.token], _, .cons rfl .nil,
      spells_append.2 ⟨_, _, spelledType, spelledValue, rfl⟩, rfl⟩
  have types : FrontEnd.Reprints piecesOfType textOfType _ _ _ type type' :=
    optional_reprints sameType fun _ _ same => same
  have values : FrontEnd.Reprints piecesOfValue (textOfValue margin) _ _ _ value value' :=
    optional_reprints sameValue fun _ _ same => same.toReprints
  exact
    { canonical := ⟨sameName.canonical, types.canonical, values.canonical⟩
      well := by
        rw [Parameter.pieces_eq]
        exact List.forall_mem_append.2
          ⟨sameName.well, List.forall_mem_append.2 ⟨types.well, values.well⟩⟩
      roles := by
        simp [Parameter.pieces_eq, sameName.roles, types.roles, values.roles]
      text := by
        simp only [Parameter.plain_format, sameName.text, types.text, values.text]
      outline := by
        rintro ⟨_, faithful⟩
        obtain ⟨-, nameKept, typeKept, valueKept⟩ := faithful_cons.1 faithful |>.imp id
          faithful_binding.1
        have valueOutline := values.outline fun given isGiven => ⟨_, valueKept given isGiven⟩
        simp only [Parameter.outlines, sameName.outline nameKept, types.outline typeKept,
          valueOutline]
      ends := fun ahead ends => by
        refine ⟨fun given' isGiven => ?_, fun none => ?_, fun none untyped => ?_⟩
        · cases sameValue with
          | none => cases isGiven
          | some same =>
              obtain rfl := Option.some.inj isGiven
              exact same.endsBefore (ends.assigned _ rfl)
        · exact ends.unassigned ((missing_iff sameValue).1 none)
        · exact ends.untyped ((missing_iff sameValue).1 none) ((missing_iff sameType).1 untyped) }

/-- A variable is a parameter after a keyword. -/
def Variable.binding (definition : Variable) : Parameter :=
  ⟨definition.name, definition.type, definition.value⟩

/-- A variable that was read back ends before the same neighbours. -/
abbrev Variable.Reprints (margin : List Char) (definition definition' : Variable) : Prop :=
  ReprintsInPlace pieces (fun definition => plain margin definition.format) outline
    (fun definition => ∃ depth, Faithful margin (definition.nodes depth)) Canonical EndsBefore
    definition definition'

/-- The text of a variable gives a variable of the same outline back. -/
theorem Variable.Canonical.scans {definition : Variable} (canonical : definition.Canonical)
    (well : ∀ piece ∈ definition.pieces, piece.WellSpelled) {margin : List Char}
    (blank : ∀ char ∈ margin, char = ' ') (depth : Nat) {rest : List Char} (parts : Parts rest)
    (noPoint : rest.head? ≠ some '.') :
    Scans (Readable (definition.nodes depth)) (plain margin definition.format) rest fun taken =>
      ∃ definition', Spells definition'.pieces taken ∧
        definition.Reprints margin definition' := by
  have bindingCanonical : definition.binding.Canonical := canonical.2
  have text : plain margin definition.format =
      Keyword.letWord.spelling.toList ++ ' ' :: plain margin definition.binding.format := by
    simp [Variable.format, Parameter.format, Variable.binding, Keyword.spelling]
  rw [text]
  refine Scans.keyword .letWord fun keyword' kind' well' => ?_
  refine ((bindingCanonical.scans (List.forall_mem_cons.1 well).2 blank depth parts noPoint).iff
    ?_).mono fun taken reread => ?_
  · simp [Parameter.nodes, Variable.nodes, Variable.binding, Node.IsReadable]
  obtain ⟨binding', spelled, same⟩ := reread
  refine ⟨⟨keyword', binding'.name, binding'.type, binding'.default⟩, .cons rfl spelled, ?_⟩
  exact
    { canonical := ⟨kind', same.canonical⟩
      well := List.forall_mem_cons.2 ⟨well'.spelled, same.well⟩
      roles := congrArg₂ List.cons (by simp [kind', canonical.1]) same.roles
      text := by
        rw [text, ← same.text]
        simp [Variable.format, Parameter.format, Keyword.spelling]
      outline := by
        rintro ⟨depth, faithful⟩
        have kept : Faithful margin (definition.binding.nodes depth) :=
          faithful_cons.2 ⟨trivial, (faithful_cons.1 faithful).2⟩
        have outlines := same.outline ⟨depth, kept⟩
        simp only [Parameter.outlines, Variable.binding, Prod.mk.injEq] at outlines
        simp only [Variable.outline, outlines]
      ends := same.ends }

/-- A statement that was read back ends before the same neighbours. -/
abbrev Statement.Reprints (margin : List Char) (statement statement' : Statement) : Prop :=
  ReprintsInPlace pieces (fun statement => plain margin statement.format) outline
    (fun statement => ∃ depth, Faithful margin (statement.nodes depth)) Canonical EndsBefore
    statement statement'

/-- The text of a statement is read back. -/
theorem Statement.Canonical.scans {statement : Statement} (canonical : statement.Canonical)
    (well : ∀ piece ∈ statement.pieces, piece.WellSpelled) {margin : List Char}
    (blank : ∀ char ∈ margin, char = ' ') (depth : Nat) {rest : List Char} (parts : Parts rest)
    (noPoint : rest.head? ≠ some '.') :
    Scans (Readable (statement.nodes depth)) (plain margin statement.format) rest fun taken =>
      ∃ statement', Spells statement'.pieces taken ∧ statement.Reprints margin statement' := by
  cases statement with
  | expression value =>
      have back := Expression.Canonical.scansBack canonical well blank
      refine ((back depth rest parts fun point => absurd point noPoint).iff ?_).mono
        fun taken reread => ?_
      · simp [Statement.nodes, noPoint]
      obtain ⟨value', spelled, same⟩ := reread
      refine ⟨.expression value', spelled, ?_⟩
      exact
        { canonical := same.canonical
          well := same.well
          roles := same.roles
          text := same.text
          outline := same.outline
          ends := fun ahead ends => same.endsBefore ends }
  | returned keyword value =>
      have back := Expression.Canonical.scansBack canonical.2 (List.forall_mem_cons.1 well).2 blank
      have text : plain margin (Statement.returned keyword value).format =
          Keyword.returnWord.spelling.toList ++ ' ' :: plain margin value.format := by
        simp [Statement.format, Keyword.spelling]
      rw [text]
      refine Scans.keyword .returnWord fun keyword' kind' well' => ?_
      refine ((back (depth + 1) rest parts fun point => absurd point noPoint).iff ?_).mono
        fun taken reread => ?_
      · simp [Statement.nodes, Node.IsReadable, noPoint]
      obtain ⟨value', spelled, same⟩ := reread
      refine ⟨.returned keyword' value', .cons rfl spelled, ?_⟩
      exact
        { canonical := ⟨kind', same.canonical⟩
          well := List.forall_mem_cons.2 ⟨well'.spelled, same.well⟩
          roles := by simp [Statement.pieces, same.roles, kind', canonical.1]
          text := by simp [Statement.format, same.text]
          outline := by
            rintro ⟨_, faithful⟩
            simp [Statement.outline, same.outline ⟨_, (faithful_cons.1 faithful).2⟩]
          ends := fun ahead ends => same.endsBefore ends }
  | «variable» definition =>
      refine (Variable.Canonical.scans canonical well blank depth parts noPoint).mono
        fun taken reread => ?_
      obtain ⟨definition', spelled, same⟩ := reread
      refine ⟨.variable definition', spelled, ?_⟩
      exact
        { canonical := same.canonical
          well := same.well
          roles := same.roles
          text := same.text
          outline := same.outline
          ends := same.ends }
  | recovery token => exact canonical.elim

section Sequences

variable {α : Type} {pieces : α → List Piece} {related : α → α → Prop} {items items' : List α}

/-- Items that have the same roles one by one have them in order. -/
theorem flatMap_roles (each : List.Forall₂ related items items')
    (roles : ∀ item item', related item item' →
      (pieces item').map Piece.role = (pieces item).map Piece.role) :
    (items'.flatMap pieces).map Piece.role = (items.flatMap pieces).map Piece.role := by
  rw [List.map_flatMap, List.map_flatMap, List.flatMap_def, List.flatMap_def,
    forall₂_map_eq each fun item _ => roles item]

/-- Items that are well spelled one by one are well spelled in order. -/
theorem flatMap_well (each : List.Forall₂ related items items')
    (well : ∀ item item', related item item' → ∀ piece ∈ pieces item', piece.WellSpelled) :
    ∀ piece ∈ items'.flatMap pieces, piece.WellSpelled := by
  intro piece member
  obtain ⟨item', inItems, inside⟩ := List.mem_flatMap.1 member
  exact forall₂_forall each well item' inItems piece inside

/-- A sequence that was read back item by item is whole when the other one is. -/
theorem Sequenced.reprints {ends : α → List TokenKind → Prop}
    (each : List.Forall₂ related items items')
    (roles : ∀ item item', related item item' →
      (pieces item').map Piece.role = (pieces item).map Piece.role)
    (endsAlso : ∀ item item', related item item' → ∀ ahead, ends item ahead → ends item' ahead)
    (alike : ∀ item ahead ahead', ends item ahead → LookAlike ahead ahead' → ends item ahead')
    {ahead : List TokenKind} (sequenced : Sequenced pieces ends ahead items) :
    Sequenced pieces ends ahead items' := by
  induction each with
  | nil => exact sequenced
  | @cons first first' rest rest' same later inductionHypothesis =>
      obtain ⟨endsFirst, sequencedRest⟩ := sequenced
      refine ⟨alike first' _ _ (endsAlso _ _ same _ endsFirst) (LookAlike.ofRoles ?_),
        inductionHypothesis sequencedRest⟩
      have sameRoles := flatMap_roles later roles
      rw [List.map_append, List.map_append, List.map_map, List.map_map]
      exact congrArg (· ++ ahead.map TokenKind.role) sameRoles.symm

end Sequences

/-- The lines of the statements of a block are read back. -/
theorem scans_lines {statements : List Statement}
    (canonical : ∀ statement ∈ statements, statement.Canonical)
    (well : ∀ statement ∈ statements, ∀ piece ∈ statement.pieces, piece.WellSpelled)
    (depth : Nat) {rest : List Char} (parts : Parts rest) (noPoint : rest.head? ≠ some '.') :
    Scans (∀ statement ∈ statements, Readable (statement.nodes depth)) (linesOf statements) rest
      fun taken => ∃ statements', Spells (statements'.flatMap Statement.pieces) taken ∧
        List.Forall₂ (Statement.Reprints [' ', ' ']) statements statements' := by
  induction statements with
  | nil => exact (Scans.nil ⟨[], .nil, .nil⟩).iff (by simp)
  | cons first later inductionHypothesis =>
      obtain ⟨firstCanonical, laterCanonical⟩ := List.forall_mem_cons.1 canonical
      obtain ⟨firstWell, laterWell⟩ := List.forall_mem_cons.1 well
      have before : Parts (linesOf later ++ rest) ∧ (linesOf later ++ rest).head? ≠ some '.' := by
        cases later with
        | nil => exact ⟨parts, noPoint⟩
        | cons second more => exact ⟨Parts.cons (by decide) (by decide) _, by simp [linesOf]⟩
      have text : linesOf (first :: later) =
          '\n' :: ' ' :: ' ' :: (plain [' ', ' '] first.format ++ linesOf later) := by
        simp [linesOf]
      rw [text]
      refine .blank (by decide) (.blank (by decide) (.blank (by decide) ?_))
      refine Scans.iff ?_ List.forall_mem_cons.symm
      refine (firstCanonical.scans firstWell (by simp) depth before.1 before.2).bind
        fun taken reread => ?_
      obtain ⟨first', spelled, same⟩ := reread
      refine (inductionHypothesis laterCanonical laterWell).mono
        fun taken' reread => ?_
      obtain ⟨later', spelledLater, sameLater⟩ := reread
      exact ⟨first' :: later', spells_append.2 ⟨_, _, spelled, spelledLater, rfl⟩,
        .cons same sameLater⟩

/-- The text after the lines of a block. -/
def closingOf (statements : List Statement) : List Char :=
  if statements.isEmpty then ['\x7d'] else ['\n', '\x7d']

/-- Between its brackets a block has a line for each statement. -/
theorem Block.text_eq (block : Block) :
    block.text = '\x7b' :: (linesOf block.statements ++ closingOf block.statements) := by
  unfold Block.text closingOf
  split
  · rename_i none
    rw [List.isEmpty_iff.1 none]
    rfl
  · rfl

/-- A block that was read back. Its lines have a margin. -/
abbrev Block.Reprints (block block' : Block) : Prop :=
  FrontEnd.Reprints pieces text outline
    (fun block => ∃ depth, Faithful [' ', ' '] (block.nodes depth)) Canonical block block'

/-- The text of a block is read back. -/
theorem Block.Canonical.scans {block : Block} (canonical : block.Canonical)
    (well : ∀ piece ∈ block.pieces, piece.WellSpelled) (depth : Nat) (rest : List Char) :
    Scans (Readable (block.nodes depth)) block.text rest fun taken =>
      ∃ block', Spells block'.pieces taken ∧ block.Reprints block' := by
  have readable : (∀ statement ∈ block.statements, Readable (statement.nodes (depth + 1))) ∧ True ↔
      Readable (block.nodes depth) := by
    simp [Block.nodes, Node.IsReadable]
  have wellStatements : ∀ statement ∈ block.statements, ∀ piece ∈ statement.pieces,
      piece.WellSpelled := by
    intro statement member piece inside
    have inBlock := List.mem_flatMap.2 ⟨statement, member, inside⟩
    exact well piece (by simp [Block.pieces, inBlock])
  have before : Parts (closingOf block.statements ++ rest) ∧
      (closingOf block.statements ++ rest).head? ≠ some '.' := by
    unfold closingOf
    split
    · exact ⟨Parts.cons (by decide) (by decide) _, by simp⟩
    · exact ⟨Parts.cons (by decide) (by decide) _, by simp⟩
  rw [Block.text_eq]
  refine Scans.iff ?_ readable
  refine Scans.mark (.bracket .openCurly) rfl (by decide) fun opening kind well' => ?_
  refine (scans_lines canonical.statements wellStatements (depth + 1) before.1 before.2).bind
    fun taken reread => ?_
  obtain ⟨statements', spelled, same⟩ := reread
  have closes : ∀ {made : List Token → Prop},
      (∀ token : Token, token.kind = .bracket .closeCurly → token.WellSpelled → made [token]) →
      Scans True (closingOf block.statements) rest made := by
    intro made good
    have close : Scans True ['\x7d'] rest made :=
      Scans.mark (.bracket .closeCurly) rfl (by decide) fun token kind well =>
        .nil (good token kind well)
    unfold closingOf
    split
    · exact close
    · exact .blank (by decide) close
  refine closes fun close closeKind closeWell => ?_
  refine ⟨⟨opening, statements', close⟩,
    .cons rfl (spells_append.2 ⟨_, _, spelled, .cons rfl .nil, rfl⟩), ?_⟩
  have lines : linesOf statements' = linesOf block.statements := by
    rw [linesOf, linesOf, List.flatMap_def, List.flatMap_def]
    rw [forall₂_map_eq same fun first _ first' same => by rw [same.text]]
  have empty : statements'.isEmpty = block.statements.isEmpty := by
    rw [Bool.eq_iff_iff, List.isEmpty_iff_length_eq_zero, List.isEmpty_iff_length_eq_zero,
      same.length_eq]
  have roles := flatMap_roles same fun _ _ same => same.roles
  exact
    { canonical :=
        { opening := kind
          statements := forall₂_forall same fun _ _ same => same.canonical
          sequenced := canonical.sequenced.reprints same (fun _ _ same => same.roles)
            (fun _ _ same => same.ends) fun _ _ _ => Statement.EndsBefore.alike
          close := closeKind }
      well := List.forall_mem_cons.2 ⟨well'.spelled, List.forall_mem_append.2
        ⟨flatMap_well same fun _ _ same => same.well,
          List.forall_mem_singleton.2 closeWell.spelled⟩⟩
      roles := by
        simp [Block.pieces, roles, kind, closeKind, canonical.opening, canonical.close]
      text := by
        rw [Block.text_eq, Block.text_eq, lines, closingOf, closingOf, empty]
      outline := by
        rintro ⟨_, faithful⟩
        have inside := faithful_flatMap.1 (faithful_cons.1 faithful).2
        have outlines := map_outline same (fun _ _ same => same.toReprints)
          fun statement member => ⟨_, inside statement member⟩
        simp [Block.outline, outlines] }

/-- A list of parameters that was read back. -/
abbrev ParameterList.Reprints (list list' : ParameterList) : Prop :=
  FrontEnd.Reprints pieces (fun list => plain [] list.format) outline
    (fun list => ∃ depth, Faithful [] (list.nodes depth)) Canonical list list'

/-- The text of a list of parameters is read back. -/
theorem ParameterList.Canonical.scans {list : ParameterList} (canonical : list.Canonical)
    (well : ∀ piece ∈ list.pieces, piece.WellSpelled) (depth : Nat) (rest : List Char) :
    Scans (Readable (list.nodes depth)) (plain [] list.format) rest fun taken =>
      ∃ list', Spells list'.pieces taken ∧ list.Reprints list' := by
  simp only [ParameterList.pieces, List.forall_mem_cons, List.forall_mem_append] at well
  obtain ⟨-, wellParameters, -⟩ := well
  have text : ∀ list : ParameterList, plain [] list.format =
      '(' :: (plain [] (separated ", " (list.parameters.map Parameter.format)) ++ [')']) := by
    simp [ParameterList.format]
  have readable : (∀ parameter ∈ list.parameters, Readable (parameter.nodes (depth + 1))) ∧ True ↔
      Readable (list.nodes depth) := by
    simp [ParameterList.nodes, Node.IsReadable]
  have each : ∀ parameter ∈ list.parameters, ∀ rest, Parts rest → rest.head? ≠ some '.' →
      Scans (Readable (parameter.nodes (depth + 1))) (plain [] parameter.format) rest
        fun taken => ∃ parameter', Spells parameter'.pieces taken ∧
          parameter.Reprints [] parameter' := by
    intro parameter member rest parts noPoint
    refine (canonical.parameters parameter member).scans (fun piece inside => ?_) (by simp)
      (depth + 1) parts noPoint
    exact wellParameters piece (subset_commaSeparated Parameter.pieces member inside)
  rw [text]
  refine Scans.iff ?_ readable
  refine Scans.mark (.bracket .openParen) rfl (by decide) fun opening kind well => ?_
  refine (scans_separated each (Parts.cons (by decide) (by decide) _) (by simp)).bind
    fun taken reread => ?_
  obtain ⟨parameters', spelled, same⟩ := reread
  refine Scans.mark (.bracket .closeParen) rfl (by decide) fun close kind' well' => ?_
  refine .nil ⟨⟨opening, parameters', close⟩,
    .cons rfl (spells_append.2 ⟨_, _, spelled, .cons rfl .nil, rfl⟩), ?_⟩
  have roles := commaSeparated_roles same fun _ _ same => same.toReprints
  have texts := separated_plain same (fun _ _ same => same.toReprints) ", "
  have wells := commaSeparated_well same fun _ _ same => same.toReprints
  exact
    { canonical := ⟨kind, forall₂_forall same fun _ _ same => same.canonical, kind'⟩
      well := List.forall_mem_cons.2 ⟨well.spelled, List.forall_mem_append.2
        ⟨wells, List.forall_mem_singleton.2 well'.spelled⟩⟩
      roles := by
        simp [ParameterList.pieces, roles, kind, kind', canonical.opening, canonical.close]
      text := by rw [text, text, texts]
      outline := by
        rintro ⟨_, faithful⟩
        have inside := faithful_flatMap.1 (faithful_cons.1 faithful).2
        have outlines := map_outline same (fun _ _ same => same.toReprints)
          fun parameter member => ⟨_, inside parameter member⟩
        have whole : parameters'.map Parameter.outline =
            list.parameters.map Parameter.outline := by
          rw [Parameter.outline_eq, ← List.map_map, outlines, List.map_map]
        simp [ParameterList.outline, whole] }

/-- The text of a function has the outline of the function. The lines of its body have a margin. -/
def FunctionDeclaration.KeepsOutline (declared : FunctionDeclaration) : Prop :=
  ∃ depth, Faithful [] (declared.nodes depth) ∧
    ∀ block ∈ declared.body, Faithful [' ', ' '] (block.nodes (depth + 1))

/-- A function that was read back ends before the same neighbours. -/
abbrev FunctionDeclaration.Reprints (declared declared' : FunctionDeclaration) : Prop :=
  ReprintsInPlace pieces text outline KeepsOutline Canonical EndsBefore declared declared'

/-- The text of a body gives a body of the same outline back. -/
theorem scans_body {body : Option Block} (canonical : ∀ block ∈ body, block.Canonical)
    (well : ∀ piece ∈ piecesOfBody body, piece.WellSpelled) (depth : Nat) (rest : List Char) :
    Scans (∀ block ∈ body, Readable (block.nodes depth)) (textOfBody body) rest fun taken =>
      ∃ body', Spells (piecesOfBody body') taken ∧
        Option.Rel Block.Reprints body body' := by
  refine scans_optional (fun scans => ?_) fun block same => ?_
  · exact Scans.between (.symbol .arrow) rfl fun token kind _ => scans token kind
  · have wellBlock : ∀ piece ∈ block.pieces, piece.WellSpelled := fun piece inside =>
      well piece (by
        rw [piecesOfBody, show body = some block from same]
        simp [inside])
    exact (canonical block same).scans wellBlock depth rest

/-- The pieces of a function are those of its parts in order. -/
theorem FunctionDeclaration.pieces_eq (declared : FunctionDeclaration) :
    declared.pieces = .stored declared.keyword :: (declared.name.pieces ++
      (declared.parameters.pieces ++ (piecesOfType declared.result ++
        piecesOfBody declared.body))) := by
  simp [FunctionDeclaration.pieces, piecesOfType, piecesOfBody]

/-- The text of a function is that of its parts in order. -/
theorem FunctionDeclaration.text_eq (declared : FunctionDeclaration) :
    declared.text = Keyword.funcWord.spelling.toList ++
      ' ' :: (declared.name.token.lexeme.toList ++ (plain [] declared.parameters.format ++
        (textOfType declared.result ++ textOfBody declared.body))) := by
  cases same : declared.result <;>
    simp [FunctionDeclaration.text, Identifier.format, textOfType, textOfBody, Keyword.spelling,
      same]

/-- The text of a function is read back. -/
theorem FunctionDeclaration.Canonical.scans {declared : FunctionDeclaration}
    (canonical : declared.Canonical) (well : ∀ piece ∈ declared.pieces, piece.WellSpelled)
    (depth : Nat) {rest : List Char} (parts : Parts rest) :
    Scans (Readable (declared.nodes depth)) declared.text rest fun taken =>
      ∃ declared', Spells declared'.pieces taken ∧ declared.Reprints declared' := by
  rw [FunctionDeclaration.pieces_eq] at well
  simp only [List.forall_mem_cons, List.forall_mem_append] at well
  obtain ⟨-, wellName, wellParameters, wellType, wellBody⟩ := well
  have beforeBody : Parts (textOfBody declared.body ++ rest) := by
    cases declared.body with
    | none => exact parts
    | some block => exact Parts.cons (by decide) (by decide) _
  have beforeParameters : Parts (plain [] declared.parameters.format ++
      (textOfType declared.result ++ textOfBody declared.body) ++ rest) :=
    Parts.cons (by decide) (by decide) _
  have readable : Readable (declared.parameters.nodes (depth + 1)) ∧ True ∧
      (∀ block ∈ declared.body, Readable (block.nodes (depth + 1))) ↔
      Readable (declared.nodes depth) := by
    cases same : declared.result <;>
      simp [FunctionDeclaration.nodes, Node.IsReadable, Identifier.nodes, Identifier.node, same]
  rw [FunctionDeclaration.text_eq]
  refine Scans.iff ?_ readable
  refine Scans.keyword .funcWord fun keyword' kind' well' => ?_
  refine Identifier.scans canonical.name (wellName _ List.mem_cons_self) beforeParameters
    fun name' sameName => ?_
  refine (canonical.parameters.scans wellParameters (depth + 1) _).bind
    fun taken reread => ?_
  obtain ⟨parameters', spelledParameters, sameParameters⟩ := reread
  refine (scans_type canonical.result wellType beforeBody).bind
    fun taken' reread => ?_
  obtain ⟨result', spelledResult, sameResult⟩ := reread
  refine (scans_body canonical.body wellBody (depth + 1) rest).mono
    fun taken'' reread => ?_
  obtain ⟨body', spelledBody, sameBody⟩ := reread
  refine ⟨⟨keyword', name', parameters', result', body'⟩, ?_, ?_⟩
  · rw [FunctionDeclaration.pieces_eq]
    exact .cons rfl (spells_append.2 ⟨[name'.token], _, .cons rfl .nil,
      spells_append.2 ⟨_, _, spelledParameters,
        spells_append.2 ⟨_, _, spelledResult, spelledBody, rfl⟩, rfl⟩, rfl⟩)
  have results : FrontEnd.Reprints piecesOfType textOfType _ _ _ declared.result result' :=
    optional_reprints sameResult fun _ _ same => same
  have bodies : FrontEnd.Reprints piecesOfBody textOfBody _ _ _ declared.body body' :=
    optional_reprints sameBody fun _ _ same => same
  exact
    { canonical := ⟨kind', sameName.canonical, sameParameters.canonical, results.canonical,
        bodies.canonical⟩
      well := by
        rw [FunctionDeclaration.pieces_eq]
        exact List.forall_mem_cons.2 ⟨well'.spelled, List.forall_mem_append.2 ⟨sameName.well,
          List.forall_mem_append.2 ⟨sameParameters.well,
            List.forall_mem_append.2 ⟨results.well, bodies.well⟩⟩⟩⟩
      roles := by
        simp [FunctionDeclaration.pieces_eq, sameName.roles, sameParameters.roles, results.roles,
          bodies.roles, kind', canonical.keyword]
      text := by
        simp only [FunctionDeclaration.text_eq, sameName.text, sameParameters.text, results.text,
          bodies.text]
      outline := by
        rintro ⟨depth, faithful, bodyKept⟩
        simp only [FunctionDeclaration.nodes, faithful_cons, faithful_append] at faithful
        obtain ⟨-, ⟨⟨nameFaithful, parametersFaithful⟩, resultFaithful⟩, -⟩ := faithful
        have nameKept : declared.name.token.error = false := (faithful_cons.1 nameFaithful).1
        have resultKept : ∀ typeName ∈ declared.result, typeName.token.error = false := by
          intro typeName isResult
          have each := faithful_flatMap.1 resultFaithful typeName (by simpa using isResult)
          exact (faithful_cons.1 each).1
        have parametersOutline := sameParameters.outline ⟨_, parametersFaithful⟩
        have bodyOutline := bodies.outline fun block isBody => ⟨_, bodyKept block isBody⟩
        simp only [FunctionDeclaration.outline, sameName.outline nameKept, parametersOutline,
          results.outline resultKept, bodyOutline]
      ends := fun ahead ends => ⟨fun none => ends.bodiless ((missing_iff sameBody).1 none),
        fun none untyped =>
          ends.untyped ((missing_iff sameBody).1 none) ((missing_iff sameResult).1 untyped)⟩ }

/-- The text of a declaration has the outline of the declaration. -/
def Declaration.KeepsOutline : Declaration → Prop
  | .function declared => declared.KeepsOutline
  | .variable definition => ∃ depth, Faithful [] (definition.nodes depth)

/-- A declaration that was read back ends before the same neighbours. -/
abbrev Declaration.Reprints (declaration declaration' : Declaration) : Prop :=
  ReprintsInPlace pieces text outline KeepsOutline Canonical EndsBefore declaration declaration'

/-- The text of a declaration is read back. -/
theorem Declaration.Canonical.scans {declaration : Declaration}
    (canonical : declaration.Canonical) (well : ∀ piece ∈ declaration.pieces, piece.WellSpelled)
    (depth : Nat) {rest : List Char} (parts : Parts rest) (noPoint : rest.head? ≠ some '.') :
    Scans (Readable (declaration.nodes depth)) declaration.text rest fun taken =>
      ∃ declaration', Spells declaration'.pieces taken ∧ declaration.Reprints declaration' := by
  cases declaration with
  | function declared =>
      refine (FunctionDeclaration.Canonical.scans canonical well depth parts).mono
        fun taken reread => ?_
      obtain ⟨declared', spelled, same⟩ := reread
      refine ⟨.function declared', spelled, ?_⟩
      exact
        { canonical := same.canonical
          well := same.well
          roles := same.roles
          text := same.text
          outline := same.outline
          ends := same.ends }
  | «variable» definition =>
      refine (Variable.Canonical.scans canonical well (by simp) depth parts noPoint).mono
        fun taken reread => ?_
      obtain ⟨definition', spelled, same⟩ := reread
      refine ⟨.variable definition', spelled, ?_⟩
      exact
        { canonical := same.canonical
          well := same.well
          roles := same.roles
          text := same.text
          outline := same.outline
          ends := same.ends }

/-- The declarations of a module are read back up to the end of its text. -/
theorem scans_declarations {declarations : List Declaration}
    (canonical : ∀ declaration ∈ declarations, declaration.Canonical)
    (well : ∀ declaration ∈ declarations, ∀ piece ∈ declaration.pieces, piece.WellSpelled)
    (depth : Nat) :
    Scans (∀ declaration ∈ declarations, Readable (declaration.nodes depth))
      ((declarations.map Declaration.text).intersperse ['\n']).flatten [] fun taken =>
        ∃ declarations', Spells (declarations'.flatMap Declaration.pieces) taken ∧
          List.Forall₂ Declaration.Reprints declarations declarations' := by
  induction declarations with
  | nil => exact (Scans.nil ⟨[], .nil, .nil⟩).iff (by simp)
  | cons first later inductionHypothesis =>
      obtain ⟨firstCanonical, laterCanonical⟩ := List.forall_mem_cons.1 canonical
      obtain ⟨firstWell, laterWell⟩ := List.forall_mem_cons.1 well
      refine Scans.iff ?_ List.forall_mem_cons.symm
      cases later with
      | nil =>
          have text : (([first].map Declaration.text).intersperse ['\n']).flatten =
              first.text ++ [] := by
            simp
          rw [text]
          refine Scans.iff ?_ (and_congr_right' (by simp : True ↔ _))
          refine (firstCanonical.scans firstWell depth Parts.nil (by simp)).bind
            fun taken reread => ?_
          obtain ⟨first', spelled, same⟩ := reread
          exact .nil ⟨[first'], by simpa using spelled, .cons same .nil⟩
      | cons second more =>
          have text : (((first :: second :: more).map Declaration.text).intersperse
              ['\n']).flatten = first.text ++
                ('\n' :: (((second :: more).map Declaration.text).intersperse ['\n']).flatten) := by
            simp
          rw [text]
          refine (firstCanonical.scans firstWell depth (Parts.cons (by decide) (by decide) _)
            (by simp)).bind fun taken reread => ?_
          obtain ⟨first', spelled, same⟩ := reread
          refine .blank (by decide) ?_
          refine (inductionHypothesis laterCanonical laterWell).mono
            fun taken' reread => ?_
          obtain ⟨later', spelledLater, sameLater⟩ := reread
          exact ⟨first' :: later', spells_append.2 ⟨_, _, spelled, spelledLater, rfl⟩,
            .cons same sameLater⟩

/-- A module that was read back. -/
abbrev Module.Reprints (body body' : Module) : Prop :=
  FrontEnd.Reprints pieces text outline
    (fun body => ∀ declaration ∈ body.declarations, declaration.KeepsOutline) Canonical body body'

/-- The text of a module is read back. The module that is read back may start at another token. -/
theorem Module.Canonical.scans {body : Module} (canonical : body.Canonical)
    (well : ∀ piece ∈ body.pieces, piece.WellSpelled) (depth : Nat) :
    Scans (Readable (body.nodes depth)) body.text [] fun taken =>
      ∃ body', Spells body'.pieces taken ∧ body.Reprints body' := by
  have readable : (∀ declaration ∈ body.declarations, Readable (declaration.nodes (depth + 1))) ↔
      Readable (body.nodes depth) := by
    simp [Module.nodes, Node.IsReadable]
  have wellEach : ∀ declaration ∈ body.declarations, ∀ piece ∈ declaration.pieces,
      piece.WellSpelled := fun declaration member piece inside =>
    well piece (List.mem_flatMap.2 ⟨declaration, member, inside⟩)
  refine ((scans_declarations canonical.declarations wellEach (depth + 1)).iff readable).mono
    fun taken reread => ?_
  obtain ⟨declarations', spelled, same⟩ := reread
  refine ⟨⟨declarations', body.boundary⟩, spelled, ?_⟩
  exact
    { canonical :=
        { declarations := forall₂_forall same fun _ _ same => same.canonical
          sequenced := canonical.sequenced.reprints same (fun _ _ same => same.roles)
            (fun _ _ same => same.ends) fun _ _ _ => Declaration.EndsBefore.alike }
      well := flatMap_well same fun _ _ same => same.well
      roles := flatMap_roles same fun _ _ same => same.roles
      text := by
        show ((declarations'.map Declaration.text).intersperse ['\n']).flatten = body.text
        rw [forall₂_map_eq same fun _ _ _ same => same.text]
        rfl
      outline := fun keeps => by
        have outlines : declarations'.map Declaration.outline =
            body.declarations.map Declaration.outline :=
          forall₂_map_eq same fun declaration member _ same =>
            same.outline (keeps declaration member)
        simp [Module.outline, outlines] }

end FrontEnd
