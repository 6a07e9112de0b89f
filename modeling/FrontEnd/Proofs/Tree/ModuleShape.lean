/-
This file describes the statements, declarations and modules that clean input gives, and what
cannot follow them without becoming a part of them.
-/

import FrontEnd.Proofs.Tree.Shape

namespace FrontEnd

/-- Kinds of one role cannot be told apart by what ends before them. -/
def TokenKind.role : TokenKind → TokenKind
  | .literal _ => .identifier
  | .symbol .comma => .bracket .closeParen
  | kind => kind

/-- Two places look alike when the next kinds have the same roles. The second one matters only
after an operator. -/
structure LookAlike (ahead ahead' : List TokenKind) : Prop where
  first : (ahead.headD .eof).role = (ahead'.headD .eof).role
  second : ∀ sign, ahead.headD .eof = .operator sign →
    (ahead.tail.headD .eof).role = (ahead'.tail.headD .eof).role

/-- A kind that shares its role with no other kind. -/
def TokenKind.IsDistinct (kind : TokenKind) : Prop :=
  ∀ other : TokenKind, other.role = kind ↔ other = kind

/-- A kind whose role is its own is told from all others by its role. -/
theorem TokenKind.isDistinct {kind : TokenKind} (own : kind.role = kind)
    (noOperand : kind ≠ .identifier) (noClose : kind ≠ .bracket .closeParen) :
    kind.IsDistinct := by
  intro other
  constructor
  · intro same
    unfold role at same
    split at same
    · exact absurd same.symm noOperand
    · exact absurd same.symm noClose
    · exact same
  · rintro rfl
    exact own

theorem TokenKind.isDistinct_operator (sign : Operator) : (operator sign).IsDistinct :=
  isDistinct rfl (by simp) (by simp)

/-- Tokens that look alike both begin with a distinct kind or neither does. -/
theorem LookAlike.head_eq_iff {ahead ahead' : List TokenKind} (alike : LookAlike ahead ahead')
    {kind : TokenKind} (distinct : kind.IsDistinct) :
    ahead.headD .eof = kind ↔ ahead'.headD .eof = kind := by
  rw [← distinct (ahead.headD .eof), alike.first, distinct]

theorem LookAlike.symm {ahead ahead' : List TokenKind} (alike : LookAlike ahead ahead') :
    LookAlike ahead' ahead := by
  refine ⟨alike.first.symm, fun sign kind => (alike.second sign ?_).symm⟩
  exact (alike.head_eq_iff (TokenKind.isDistinct_operator sign)).2 kind

/-- What looks alike still does with the same kinds in front of it. -/
theorem LookAlike.append {ahead ahead' : List TokenKind} (alike : LookAlike ahead ahead')
    (kinds : List TokenKind) : LookAlike (kinds ++ ahead) (kinds ++ ahead') := by
  match kinds with
  | [] => exact alike
  | [kind] => exact ⟨rfl, fun _ _ => alike.first⟩
  | first :: second :: later => exact ⟨rfl, fun _ _ => rfl⟩

/-- Kinds that end expressions hide what comes after them. -/
theorem LookAlike.ofEnd {kind : TokenKind} (later later' : List TokenKind)
    (ends : kind.endsExpression) : LookAlike (kind :: later) (kind :: later') := by
  refine ⟨rfl, fun sign same => ?_⟩
  obtain rfl : kind = .operator sign := same
  cases ends

/-- Kinds with the same roles look alike. -/
theorem LookAlike.ofRoles {kinds kinds' : List TokenKind}
    (same : kinds.map TokenKind.role = kinds'.map TokenKind.role) : LookAlike kinds kinds' := by
  have heads : ∀ kinds : List TokenKind,
      (kinds.headD .eof).role = (kinds.map TokenKind.role).headD .eof := by
    intro kinds
    cases kinds <;> rfl
  refine ⟨by rw [heads, heads, same], fun _ _ => ?_⟩
  rw [heads, heads, List.map_tail, List.map_tail, same]

/-- The role of a kind tells whether it begins an operand. -/
theorem Parser.beginsOperand_role (kind : TokenKind) :
    beginsOperand kind.role = beginsOperand kind := by
  unfold TokenKind.role
  split <;> rfl

/-- A sign that completes an operand in one place does so in a place that looks alike. -/
theorem LookAlike.closesAhead {ahead ahead' : List TokenKind} (alike : LookAlike ahead ahead')
    (closes : closesAhead ahead) : closesAhead ahead' := by
  obtain ⟨sign, member, kind, free⟩ := closesAhead_iff.1 closes
  refine closesAhead_iff.2 ⟨sign, member, ?_, ?_⟩
  · exact (alike.head_eq_iff (TokenKind.isDistinct_operator sign)).1 kind
  · rw [← Parser.beginsOperand_role, ← alike.second sign kind, Parser.beginsOperand_role]
    exact free

/-- An expression that ends before some tokens ends before those that look alike. -/
theorem Expression.EndsBefore.alike {rank : Nat} {value : Expression}
    {ahead ahead' : List TokenKind} (ends : value.EndsBefore rank ahead)
    (alike : LookAlike ahead ahead') : value.EndsBefore rank ahead' := by
  refine ⟨fun operation found => ?_, fun unclosed => ?_, fun closed => ?_⟩
  · obtain ⟨sign, kind, meaning⟩ := operationAhead?_eq_some.1 found
    have kind' := (alike.head_eq_iff (TokenKind.isDistinct_operator sign)).2 kind
    exact ends.looser operation (operationAhead?_eq_some.2 ⟨sign, kind', meaning⟩)
  · obtain ⟨noCall, noProperty, noSign⟩ := extendsOperand_eq_false.1 (ends.complete unclosed)
    have distinctCall : (TokenKind.bracket .openParen).IsDistinct :=
      TokenKind.isDistinct rfl (by simp) (by simp)
    have distinctProperty : (TokenKind.symbol .dot).IsDistinct :=
      TokenKind.isDistinct rfl (by simp) (by simp)
    refine extendsOperand_eq_false.2 ⟨?_, ?_, ?_⟩
    · exact fun kind => noCall ((alike.head_eq_iff distinctCall).2 kind)
    · exact fun kind => noProperty ((alike.head_eq_iff distinctProperty).2 kind)
    · rw [← Bool.not_eq_true] at noSign ⊢
      exact fun closes => noSign (alike.symm.closesAhead closes)
  · rw [← Parser.beginsOperand_role, ← alike.first, Parser.beginsOperand_role]
    exact ends.closed closed

/-- A name, its type and its value are made of the right tokens. -/
structure BindingCanonical (name : Identifier) (type : Option Identifier)
    (value : Option Expression) : Prop where
  named : name.token.kind = .identifier
  typed : ∀ annotation ∈ type, annotation.token.kind = .identifier
  assigned : ∀ given ∈ value, given.Canonical

/-- A name without a type or a value ends before anything that begins neither. -/
structure BindingEndsBefore (type : Option Identifier) (value : Option Expression)
    (ahead : List TokenKind) : Prop where
  assigned : ∀ given ∈ value, given.EndsBefore 0 ahead
  unassigned : value = none → ahead.headD .eof ≠ .operator .equals
  untyped : value = none → type = none → ahead.headD .eof ≠ .symbol .colon

/-- A variable or a parameter that ends before some tokens ends before those that look alike. -/
theorem BindingEndsBefore.alike {type : Option Identifier} {value : Option Expression}
    {ahead ahead' : List TokenKind} (ends : BindingEndsBefore type value ahead)
    (alike : LookAlike ahead ahead') : BindingEndsBefore type value ahead' := by
  have distinctColon : (TokenKind.symbol .colon).IsDistinct :=
    TokenKind.isDistinct rfl (by simp) (by simp)
  refine ⟨fun given same => (ends.assigned given same).alike alike, fun none kind => ?_,
    fun none untyped kind => ?_⟩
  · exact ends.unassigned none ((alike.head_eq_iff (TokenKind.isDistinct_operator _)).2 kind)
  · exact ends.untyped none untyped ((alike.head_eq_iff distinctColon).2 kind)

/-- Items in a sequence are whole when each ends before the pieces of the next ones. -/
def Sequenced {α : Type} (pieces : α → List Piece) (ends : α → List TokenKind → Prop)
    (ahead : List TokenKind) : List α → Prop
  | [] => True
  | first :: rest =>
      ends first ((rest.flatMap pieces).map Piece.kind ++ ahead) ∧
        Sequenced pieces ends ahead rest

/-- A canonical variable has a name, and a type and a value that are canonical. -/
def Variable.Canonical (definition : Variable) : Prop :=
  definition.keyword.kind = .keyword .letWord ∧
    BindingCanonical definition.name definition.type definition.value

/-- A variable ends where its last part does. -/
def Variable.EndsBefore (definition : Variable) (ahead : List TokenKind) : Prop :=
  BindingEndsBefore definition.type definition.value ahead

/-- A canonical statement is no token that was put aside. -/
def Statement.Canonical : Statement → Prop
  | .expression value => value.Canonical
  | .returned keyword value => keyword.kind = .keyword .returnWord ∧ value.Canonical
  | .variable definition => definition.Canonical
  | .recovery _ => False

/-- A statement ends where its expression or its variable does. -/
def Statement.EndsBefore : Statement → List TokenKind → Prop
  | .expression value, ahead => value.EndsBefore 0 ahead
  | .returned _ value, ahead => value.EndsBefore 0 ahead
  | .variable definition, ahead => definition.EndsBefore ahead
  | .recovery _, _ => True

/-- Every statement ends before a kind that ends expressions and begins no type. -/
theorem Statement.endsBefore_ofEnd {ahead : List TokenKind}
    (ends : (ahead.headD .eof).endsExpression) (untyped : ahead.headD .eof ≠ .symbol .colon)
    (statement : Statement) : statement.EndsBefore ahead := by
  have noSign : ahead.headD .eof ≠ .operator .equals := TokenKind.ne_of_endsExpression ends rfl
  cases statement with
  | expression value => exact Expression.endsBefore_ofEnd ends 0 value
  | returned keyword value => exact Expression.endsBefore_ofEnd ends 0 value
  | «variable» definition =>
      exact ⟨fun given _ => Expression.endsBefore_ofEnd ends 0 given, fun _ => noSign,
        fun _ _ => untyped⟩
  | recovery token => trivial

/-- A statement begins with no marker and no bracket that would close its block. -/
theorem Statement.Canonical.begins {statement : Statement} (canonical : statement.Canonical) :
    ∃ piece rest, statement.pieces = piece :: rest ∧ piece.kind ≠ .eof ∧
      piece.kind ≠ .bracket .closeCurly := by
  cases statement with
  | returned keyword value => exact ⟨_, _, rfl, by simp [Piece.kind, canonical.1]⟩
  | «variable» definition => exact ⟨_, _, rfl, by simp [Piece.kind, canonical.1]⟩
  | expression value =>
      obtain ⟨later, starts⟩ := value.pieces_eq_cons
      have begins := Expression.Canonical.begins canonical
      exact ⟨_, later, starts, TokenKind.ne_of_beginsExpression begins rfl,
        TokenKind.ne_of_beginsExpression begins rfl⟩
  | recovery token => exact canonical.elim

/-- A statement that ends before some tokens ends before those that look alike. -/
theorem Statement.EndsBefore.alike {statement : Statement} {ahead ahead' : List TokenKind}
    (ends : statement.EndsBefore ahead) (alike : LookAlike ahead ahead') :
    statement.EndsBefore ahead' := by
  cases statement with
  | expression value => exact Expression.EndsBefore.alike ends alike
  | returned keyword value => exact Expression.EndsBefore.alike ends alike
  | «variable» definition => exact BindingEndsBefore.alike ends alike
  | recovery token => trivial

/-- Every statement of a canonical block ends before the next one. -/
structure Block.Canonical (block : Block) : Prop where
  opening : block.opening.kind = .bracket .openCurly
  statements : ∀ statement ∈ block.statements, statement.Canonical
  sequenced : Sequenced Statement.pieces Statement.EndsBefore [.bracket .closeCurly]
    block.statements
  close : block.close.kind = .bracket .closeCurly

/-- A canonical parameter has a name, and a type and a default value that are canonical. -/
def Parameter.Canonical (parameter : Parameter) : Prop :=
  BindingCanonical parameter.name parameter.type parameter.default

structure ParameterList.Canonical (list : ParameterList) : Prop where
  opening : list.opening.kind = .bracket .openParen
  parameters : ∀ parameter ∈ list.parameters, parameter.Canonical
  close : list.close.kind = .bracket .closeParen

structure FunctionDeclaration.Canonical (declared : FunctionDeclaration) : Prop where
  keyword : declared.keyword.kind = .keyword .funcWord
  name : declared.name.token.kind = .identifier
  parameters : declared.parameters.Canonical
  result : ∀ annotation ∈ declared.result, annotation.token.kind = .identifier
  body : ∀ block ∈ declared.body, block.Canonical

/-- A function without a result or a body ends before anything that begins neither. -/
structure FunctionDeclaration.EndsBefore (declared : FunctionDeclaration)
    (ahead : List TokenKind) : Prop where
  bodiless : declared.body = none → ahead.headD .eof ≠ .symbol .arrow
  untyped : declared.body = none → declared.result = none → ahead.headD .eof ≠ .symbol .colon

def Declaration.Canonical : Declaration → Prop
  | .function declared => declared.Canonical
  | .variable definition => definition.Canonical

def Declaration.EndsBefore : Declaration → List TokenKind → Prop
  | .function declared, ahead => declared.EndsBefore ahead
  | .variable definition, ahead => definition.EndsBefore ahead

/-- A declaration that ends before some tokens ends before those that look alike. -/
theorem Declaration.EndsBefore.alike {declaration : Declaration} {ahead ahead' : List TokenKind}
    (ends : declaration.EndsBefore ahead) (alike : LookAlike ahead ahead') :
    declaration.EndsBefore ahead' := by
  cases declaration with
  | function declared =>
      have distinctColon : (TokenKind.symbol .colon).IsDistinct :=
        TokenKind.isDistinct rfl (by simp) (by simp)
      have distinctArrow : (TokenKind.symbol .arrow).IsDistinct :=
        TokenKind.isDistinct rfl (by simp) (by simp)
      refine ⟨fun none kind => ?_, fun none untyped kind => ?_⟩
      · exact ends.bodiless none ((alike.head_eq_iff distinctArrow).2 kind)
      · exact ends.untyped none untyped ((alike.head_eq_iff distinctColon).2 kind)
  | «variable» definition => exact BindingEndsBefore.alike ends alike

/-- Nothing stands after the last declaration of a module. -/
structure Module.Canonical (module : Module) : Prop where
  declarations : ∀ declaration ∈ module.declarations, declaration.Canonical
  sequenced : Sequenced Declaration.pieces Declaration.EndsBefore [] module.declarations

/-- A root holds one module. -/
def Root.Canonical (root : Root) : Prop := ∃ body, root.modules = [body] ∧ body.Canonical

end FrontEnd
