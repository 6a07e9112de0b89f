/-
This file describes the trees that clean input gives: which forms stand in which places, which
tokens spell them, and what cannot follow them without becoming a part of them.
-/

import FrontEnd.Parser.Module
import FrontEnd.Tree.Extent
import Mathlib.Data.List.Forall2
import Mathlib.Data.Fintype.Basic

namespace FrontEnd

/-- An operation between two operands binds tighter the higher its rank. -/
def Operation.rank : Operation → Nat
  | .assignment => 0
  | .or => 2
  | .and => 3
  | .equality | .inequality => 4
  | .lessThan | .lessThanOrEquals | .greaterThan | .greaterThanOrEquals => 5
  | .shiftLeft | .shiftRight => 6
  | .addition | .subtraction | .multiplication | .division | .remainder => 7
  | .negation | .unaryNegative | .unaryPositive | .preIncrement | .preDecrement => 8
  | .postIncrement | .postDecrement => 9
  | .invalid => 10

/-- The operators between operands that the rule of a rank takes. -/
def Parser.signs (rank : Nat) : List Operator := ([.equals] :: [] :: levels).getD rank []

/-- The operators of a rank are those with a meaning of this rank between operands. -/
theorem Parser.mem_signs {rank : Nat} (low : rank < 8) {sign : Operator} :
    sign ∈ signs rank ↔ ∃ operation, sign.operation? .between = some operation ∧
      operation.rank = rank := by
  have checked : ∀ rank : Fin 8,
      sign ∈ signs rank ↔ (sign.operation? .between).any (·.rank = rank.val) := by
    cases sign <;> decide
  rw [checked ⟨rank, low⟩, Option.any_eq_true]
  simp

/-- The signs before operands are those with a meaning there. -/
theorem Parser.mem_prefixSigns {sign : Operator} :
    sign ∈ prefixSigns ↔ ∃ operation, sign.operation? .before = some operation := by
  rw [← Option.isSome_iff_exists]
  cases sign <;> decide

/-- The signs after operands are those with a meaning there. -/
theorem Parser.mem_postfixSigns {sign : Operator} :
    sign ∈ postfixSigns ↔ ∃ operation, sign.operation? .after = some operation := by
  rw [← Option.isSome_iff_exists]
  cases sign <;> decide

/-- An operation between two operands has the rank of a rule with signs. -/
theorem Operator.rank_of_between {sign : Operator} {operation : Operation}
    (meaning : sign.operation? .between = some operation) :
    operation.rank < 8 ∧ operation.rank ≠ 1 := by
  cases sign <;> simp [Operator.operation?] at meaning <;> subst meaning <;> decide

/-- A token with a meaning is an operator with that meaning. -/
theorem Token.operation?_eq_some {token : Token} {fixity : Fixity} {operation : Operation} :
    token.operation? fixity = some operation ↔
      ∃ sign, token.kind = .operator sign ∧ sign.operation? fixity = some operation := by
  unfold Token.operation?
  constructor
  · intro meaning
    split at meaning
    · rename_i sign kind
      exact ⟨sign, kind, meaning⟩
    · simp at meaning
  · rintro ⟨sign, kind, meaning⟩
    rw [kind]
    exact meaning

namespace Expression

/-- The rank of a form is the number of the rule that makes it, from the loosest rule on. -/
def rank : Expression → Nat
  | .binary _ operation _ _ => operation.rank
  | .conditional .. => 1
  | .prefixed .. => 8
  | .postfixed .. => 9
  | .identifier _ | .boolean .. | .number .. | .string .. | .call .. | .property ..
  | .group .. => 10

/-- Whether the last part of an expression is a conditional, which takes all it can. -/
def endsInConditional : Expression → Bool
  | .binary _ _ _ right => right.endsInConditional
  | .prefixed _ _ operand => operand.endsInConditional
  | .conditional .. => true
  | _ => false

/-- Whether the last part of an expression is complete because of a sign after it. -/
def endsInPostfix : Expression → Bool
  | .binary _ _ _ right => right.endsInPostfix
  | .prefixed _ _ operand => operand.endsInPostfix
  | .postfixed .. => true
  | .conditional _ _ _ alternative => alternative.endsInPostfix
  | _ => false

/-- A canonical expression has the shape that the ranks of the grammar give: every token has the
kind that its place asks for, and the literals have the values that their tokens spell. -/
inductive Canonical : Expression → Prop
  | identifier {name : Identifier} (kind : name.token.kind = .identifier) :
      Canonical (.identifier name)
  | boolean {token : Token} {value : Bool} (kind : token.kind = .literal .boolean)
      (decoded : value = decide (token.lexeme = "true")) : Canonical (.boolean token value)
  | number {token : Token} {value : Binary64} (kind : token.kind = .literal .number)
      (decoded : Binary64.read? token.lexeme = some value) : Canonical (.number token value)
  | string {token : Token} {value : String} (kind : token.kind = .literal .string)
      (decoded : value = Parser.stringContents token.lexeme) : Canonical (.string token value)
  | binary {left right : Expression} {operation : Operation} {token : Token}
      (meaning : token.operation? .between = some operation)
      (leftCanonical : left.Canonical) (rightCanonical : right.Canonical)
      (leftRank : operation.rank ≤ left.rank) (rightRank : operation.rank < right.rank)
      (leftEnd : operation = .assignment → left.endsInConditional = false) :
      Canonical (.binary left operation token right)
  | prefixed {operand : Expression} {operation : Operation} {token : Token}
      (meaning : token.operation? .before = some operation)
      (operandCanonical : operand.Canonical) (operandRank : 8 ≤ operand.rank) :
      Canonical (.prefixed operation token operand)
  | postfixed {operand : Expression} {operation : Operation} {token : Token}
      (meaning : token.operation? .after = some operation)
      (operandCanonical : operand.Canonical) (operandRank : operand.rank = 10) :
      Canonical (.postfixed operand operation token)
  | call {receiver : Expression} {arguments : List Expression} {close : Token}
      (receiverCanonical : receiver.Canonical) (receiverRank : receiver.rank = 10)
      (argumentsCanonical : ∀ argument ∈ arguments, argument.Canonical)
      (closeKind : close.kind = .bracket .closeParen) :
      Canonical (.call receiver arguments close)
  | property {receiver : Expression} {name : Identifier}
      (receiverCanonical : receiver.Canonical) (receiverRank : receiver.rank = 10)
      (kind : name.token.kind = .identifier) : Canonical (.property receiver name)
  | group {opening close : Token} {content : Expression}
      (openingKind : opening.kind = .bracket .openParen)
      (contentCanonical : content.Canonical) (closeKind : close.kind = .bracket .closeParen) :
      Canonical (.group opening content close)
  | conditional {keyword : Token} {condition consequent alternative : Expression}
      (kind : keyword.kind = .keyword .ifWord) (conditionCanonical : condition.Canonical)
      (consequentCanonical : consequent.Canonical)
      (alternativeCanonical : alternative.Canonical) :
      Canonical (.conditional keyword condition consequent alternative)

end Expression

/-- The operation that the kinds ahead would start between two operands. -/
def operationAhead? (ahead : List TokenKind) : Option Operation :=
  match ahead.headD .eof with
  | .operator sign => sign.operation? .between
  | _ => none

/-- Whether the kinds ahead begin with a sign that completes the operand before it. -/
def closesAhead (ahead : List TokenKind) : Bool :=
  (Parser.postfixSigns.any fun sign => ahead.headD .eof = .operator sign) &&
    !Parser.beginsOperand (ahead.tail.headD .eof)

/-- Whether the kinds ahead would be taken as a part of the operand before them. -/
def extendsOperand (ahead : List TokenKind) : Bool :=
  ahead.headD .eof = .bracket .openParen || ahead.headD .eof = .symbol .dot || closesAhead ahead

/-- An operation is ahead when the next kind is an operator with this meaning. -/
theorem operationAhead?_eq_some {ahead : List TokenKind} {operation : Operation} :
    operationAhead? ahead = some operation ↔
      ∃ sign, ahead.headD .eof = .operator sign ∧ sign.operation? .between = some operation := by
  unfold operationAhead?
  constructor
  · intro found
    split at found
    · rename_i sign kind
      exact ⟨sign, kind, found⟩
    · cases found
  · rintro ⟨sign, kind, meaning⟩
    rw [kind]
    exact meaning

/-- An operation ahead has the rank of a rule with signs. -/
theorem rank_of_operationAhead? {ahead : List TokenKind} {operation : Operation}
    (found : operationAhead? ahead = some operation) : operation.rank < 8 ∧ operation.rank ≠ 1 := by
  obtain ⟨sign, -, meaning⟩ := operationAhead?_eq_some.1 found
  exact Operator.rank_of_between meaning

/-- A sign behind an operand is ahead when nothing follows it that it could stand before. -/
theorem closesAhead_iff {ahead : List TokenKind} :
    closesAhead ahead ↔ ∃ sign ∈ Parser.postfixSigns, ahead.headD .eof = .operator sign ∧
      Parser.beginsOperand (ahead.tail.headD .eof) = false := by
  simp only [closesAhead, Bool.and_eq_true, List.any_eq_true, decide_eq_true_eq,
    Bool.not_eq_true']
  constructor
  · rintro ⟨⟨sign, member, kind⟩, free⟩
    exact ⟨sign, member, kind, free⟩
  · rintro ⟨sign, member, kind, free⟩
    exact ⟨⟨sign, member, kind⟩, free⟩

/-- An operand goes on with a call, a property or a sign behind it. -/
theorem extendsOperand_iff {ahead : List TokenKind} :
    extendsOperand ahead ↔ ahead.headD .eof = .bracket .openParen ∨
      ahead.headD .eof = .symbol .dot ∨ closesAhead ahead := by
  simp [extendsOperand, or_assoc]

theorem extendsOperand_eq_false {ahead : List TokenKind} :
    extendsOperand ahead = false ↔ ahead.headD .eof ≠ .bracket .openParen ∧
      ahead.headD .eof ≠ .symbol .dot ∧ closesAhead ahead = false := by
  rw [← Bool.not_eq_true, extendsOperand_iff, not_or, not_or, Bool.not_eq_true]

/-- A cursor shows whether a sign completes the operand before it by the kinds ahead. -/
theorem Parser.closesOperand_eq {cursor : TokenCursor} (ends : cursor.marker.kind = .eof) :
    closesOperand cursor = closesAhead (cursor.rest.map Token.kind) := by
  obtain ⟨passed, rest, marker⟩ := cursor
  cases rest with
  | nil => rfl
  | cons token rest =>
      have next : (rest.headD marker).kind = (rest.map Token.kind).headD .eof := by
        cases rest with
        | nil => exact ends
        | cons token rest => rfl
      simp only [closesOperand, closesAhead, TokenCursor.following, TokenCursor.current,
        List.tail_cons, List.headD_cons, next, List.map_cons]
      by_cases ended : token.kind = .eof
      · simp [ended, TokenCursor.hasNext, TokenCursor.step?, Token.isEof, postfixSigns]
      · have goesOn : (⟨passed, token :: rest, marker⟩ : TokenCursor).hasNext := by
          simp [TokenCursor.hasNext, TokenCursor.step?, Token.isEof, ended]
        rw [goesOn, Bool.true_and]
        rfl

/-- An expression that a rule of some rank gives ends before the kinds ahead when none of the
rules that are still open would go on. -/
structure Expression.EndsBefore (rank : Nat) (value : Expression) (ahead : List TokenKind) :
    Prop where
  looser : ∀ operation, operationAhead? ahead = some operation →
    operation.rank < if value.endsInConditional then 0 else rank
  complete : value.endsInPostfix = false → extendsOperand ahead = false
  closed : value.endsInPostfix = true → Parser.beginsOperand (ahead.headD .eof) = false

/-- What ends at a rank ends at a higher one. -/
theorem Expression.EndsBefore.mono {rank rank' : Nat} {value : Expression}
    {ahead : List TokenKind} (ends : value.EndsBefore rank ahead) (le : rank ≤ rank') :
    value.EndsBefore rank' ahead := by
  refine ⟨fun operation found => ?_, ends.complete, ends.closed⟩
  have below := ends.looser operation found
  split at below <;> simp_all
  omega

/-- Kinds that neither go on with an operand nor begin another one. -/
def TokenKind.endsExpression : TokenKind → Bool
  | .eof | .bracket .closeParen | .bracket .openCurly | .bracket .closeCurly | .symbol .comma
  | .symbol .colon | .symbol .arrow | .keyword .thenWord | .keyword .elseWord
  | .keyword .funcWord | .keyword .letWord | .keyword .returnWord => true
  | _ => false

/-- A kind that ends every expression is none that lets one go on. -/
theorem TokenKind.ne_of_endsExpression {kind other : TokenKind} (ends : kind.endsExpression)
    (goesOn : other.endsExpression = false) : kind ≠ other := by
  rintro rfl
  exact Bool.eq_false_iff.1 goesOn ends

/-- What ends every expression begins no operand. -/
theorem TokenKind.beginsOperand_eq_false {kind : TokenKind} (ends : kind.endsExpression) :
    Parser.beginsOperand kind = false := by
  unfold endsExpression at ends
  split at ends
  all_goals first | rfl | cases ends

/-- Every expression ends before a kind that ends expressions. -/
theorem Expression.endsBefore_ofEnd {ahead : List TokenKind}
    (ends : (ahead.headD .eof).endsExpression) (rank : Nat) (value : Expression) :
    value.EndsBefore rank ahead := by
  have noSign : ∀ sign, ahead.headD .eof ≠ .operator sign :=
    fun sign => TokenKind.ne_of_endsExpression ends rfl
  refine ⟨fun operation found => ?_, fun _ => ?_, fun _ => TokenKind.beginsOperand_eq_false ends⟩
  · obtain ⟨sign, kind, -⟩ := operationAhead?_eq_some.1 found
    exact absurd kind (noSign sign)
  · refine extendsOperand_eq_false.2
      ⟨TokenKind.ne_of_endsExpression ends rfl, TokenKind.ne_of_endsExpression ends rfl, ?_⟩
    rw [← Bool.not_eq_true, closesAhead_iff]
    rintro ⟨sign, -, kind, -⟩
    exact noSign sign kind

/-- An expression ends before an operator between operands that binds looser than its rank. -/
theorem Expression.endsBefore_ofSign {token : Token} {operation : Operation}
    (meaning : token.operation? .between = some operation) {rank : Nat} {value : Expression}
    (loose : operation.rank < rank) (free : value.endsInConditional = false)
    (later : List TokenKind) : value.EndsBefore rank (token.kind :: later) := by
  obtain ⟨sign, kind, meaning⟩ := Token.operation?_eq_some.1 meaning
  rw [kind]
  refine ⟨fun operation' found => ?_, fun _ => ?_, fun _ => rfl⟩
  · obtain ⟨sign', same, meaning'⟩ := operationAhead?_eq_some.1 found
    obtain rfl : sign = sign' := by simpa using same
    obtain rfl := Option.some.inj (meaning.symm.trans meaning')
    simpa [free] using loose
  · cases sign <;> first | rfl | simp [Operator.operation?] at meaning

/-- A piece of a tree's spelling is a token that the tree stores, or a token of a fixed kind that
it does not store. -/
inductive Piece where
  | stored (token : Token)
  | mark (kind : TokenKind)
  deriving DecidableEq, Repr

namespace Piece

/-- The kind of token that a piece asks for. -/
def kind : Piece → TokenKind
  | .stored token => token.kind
  | .mark kind => kind

/-- A stored piece is the token itself, and a mark is any token of its kind. -/
def Fits : Piece → Token → Prop
  | .stored held, token => held = token
  | .mark kind, token => token.kind = kind

/-- A token that fits a piece has its kind. -/
theorem Fits.kind_eq {piece : Piece} {token : Token} (fits : piece.Fits token) :
    token.kind = piece.kind := by
  cases piece with
  | stored held => exact congrArg Token.kind (Eq.symm fits)
  | mark kind => exact fits

end Piece

/-- Tokens spell the pieces that they fit one by one. -/
abbrev Spells : List Piece → List Token → Prop := List.Forall₂ Piece.Fits

theorem spells_nil {tokens : List Token} : Spells [] tokens ↔ tokens = [] :=
  List.forall₂_nil_left_iff

/-- The first piece is spelled by the first token. -/
theorem spells_cons {piece : Piece} {pieces : List Piece} {tokens : List Token} :
    Spells (piece :: pieces) tokens ↔
      ∃ token rest, piece.Fits token ∧ Spells pieces rest ∧ tokens = token :: rest :=
  List.forall₂_cons_left_iff

/-- The tokens of two lists of pieces follow each other. -/
theorem spells_append {first second : List Piece} {tokens : List Token} :
    Spells (first ++ second) tokens ↔
      ∃ taken rest, Spells first taken ∧ Spells second rest ∧ tokens = taken ++ rest := by
  constructor
  · intro spelled
    have taken := List.forall₂_take first.length spelled
    have left := List.forall₂_drop first.length spelled
    rw [List.take_left] at taken
    rw [List.drop_left] at left
    exact ⟨_, _, taken, left, (List.take_append_drop _ tokens).symm⟩
  · rintro ⟨taken, rest, spelledFirst, spelledSecond, rfl⟩
    exact List.rel_append spelledFirst spelledSecond

/-- The kinds of the tokens are those of the pieces. -/
theorem Spells.kinds {pieces : List Piece} {tokens : List Token} (spelled : Spells pieces tokens) :
    tokens.map Token.kind = pieces.map Piece.kind := by
  induction spelled with
  | nil => rfl
  | cons fits _ inductionHypothesis =>
      rw [List.map_cons, List.map_cons, fits.kind_eq, inductionHypothesis]

/-- Items of a list stand with commas between them. -/
def commaSeparated (items : List (List Piece)) : List Piece :=
  (items.intersperse [.mark (.symbol .comma)]).flatten

@[simp] theorem commaSeparated_nil : commaSeparated [] = [] := rfl

@[simp] theorem commaSeparated_singleton (item : List Piece) : commaSeparated [item] = item := by
  simp [commaSeparated]

theorem commaSeparated_cons_cons (first second : List Piece) (rest : List (List Piece)) :
    commaSeparated (first :: second :: rest) =
      first ++ .mark (.symbol .comma) :: commaSeparated (second :: rest) := by
  simp [commaSeparated]

/-- Every item of a list keeps its pieces when commas stand between them. -/
theorem subset_commaSeparated {α : Type} (pieces : α → List Piece) {value : α} {values : List α}
    (member : value ∈ values) : pieces value ⊆ commaSeparated (values.map pieces) := by
  induction values with
  | nil => cases member
  | cons first rest inductionHypothesis =>
      cases rest with
      | nil =>
          obtain rfl := List.mem_singleton.1 member
          simp
      | cons second rest =>
          rw [List.map_cons, List.map_cons, commaSeparated_cons_cons]
          rcases List.mem_cons.1 member with rfl | later
          · exact List.subset_append_left _ _
          · have inRest := inductionHypothesis later
            exact fun piece inside =>
              List.mem_append_right _ (List.mem_cons_of_mem _ (inRest inside))

/-- What holds of commas and of the pieces of all items holds of the whole list. -/
theorem forall_mem_commaSeparated {α : Type} {pieces : α → List Piece} {items : List α}
    {property : Piece → Prop} (comma : property (.mark (.symbol .comma)))
    (each : ∀ item ∈ items, ∀ piece ∈ pieces item, property piece) :
    ∀ piece ∈ commaSeparated (items.map pieces), property piece := by
  induction items with
  | nil => simp
  | cons first rest inductionHypothesis =>
      obtain ⟨firstHolds, restHolds⟩ := List.forall_mem_cons.1 each
      cases rest with
      | nil => simpa using firstHolds
      | cons second later =>
          rw [List.map_cons, List.map_cons, commaSeparated_cons_cons]
          exact List.forall_mem_append.2
            ⟨firstHolds, List.forall_mem_cons.2 ⟨comma, inductionHypothesis restHolds⟩⟩

def Identifier.pieces (name : Identifier) : List Piece := [.stored name.token]

mutual

/-- The pieces of an expression in the order of its spelling. -/
def Expression.pieces : Expression → List Piece
  | .identifier name => name.pieces
  | .boolean token _ | .number token _ | .string token _ => [.stored token]
  | .binary left _ token right => left.pieces ++ .stored token :: right.pieces
  | .prefixed _ token operand => .stored token :: operand.pieces
  | .postfixed operand _ token => operand.pieces ++ [.stored token]
  | .call receiver arguments close =>
      receiver.pieces ++ .mark (.bracket .openParen) ::
        (commaSeparated (Expression.piecesOfAll arguments) ++ [.stored close])
  | .property receiver name => receiver.pieces ++ .mark (.symbol .dot) :: name.pieces
  | .group opening content close => .stored opening :: (content.pieces ++ [.stored close])
  | .conditional keyword condition consequent alternative =>
      .stored keyword :: (condition.pieces ++ .mark (.keyword .thenWord) ::
        (consequent.pieces ++ .mark (.keyword .elseWord) :: alternative.pieces))

def Expression.piecesOfAll : List Expression → List (List Piece)
  | [] => []
  | first :: rest => first.pieces :: Expression.piecesOfAll rest

end

@[simp] theorem Expression.piecesOfAll_eq_map (values : List Expression) :
    Expression.piecesOfAll values = values.map Expression.pieces := by
  induction values with
  | nil => rfl
  | cons first rest inductionHypothesis =>
      rw [Expression.piecesOfAll, inductionHypothesis, List.map_cons]

/-- The first piece of an expression is its first token. -/
theorem Expression.pieces_eq_cons (value : Expression) :
    ∃ rest, value.pieces = .stored value.first :: rest := by
  induction value with
  | binary left operation token right leftStarts _ =>
      obtain ⟨rest, starts⟩ := leftStarts
      exact ⟨_, by rw [pieces, starts, first, List.cons_append]⟩
  | postfixed operand operation token operandStarts =>
      obtain ⟨rest, starts⟩ := operandStarts
      exact ⟨_, by rw [pieces, starts, first, List.cons_append]⟩
  | call receiver arguments close receiverStarts _ =>
      obtain ⟨rest, starts⟩ := receiverStarts
      exact ⟨_, by rw [pieces, starts, first, List.cons_append]⟩
  | property receiver name receiverStarts =>
      obtain ⟨rest, starts⟩ := receiverStarts
      exact ⟨_, by rw [pieces, starts, first, List.cons_append]⟩
  | _ => exact ⟨_, rfl⟩

/-- The kinds that begin an operand without a sign before it. -/
def TokenKind.beginsPrimary : TokenKind → Bool
  | .identifier | .literal _ | .bracket .openParen => true
  | _ => false

/-- Whether a token of this kind can stand before an operand. -/
def TokenKind.isPrefixSign : TokenKind → Bool
  | .operator sign => Parser.prefixSigns.contains sign
  | _ => false

theorem TokenKind.isPrefixSign_iff {kind : TokenKind} :
    kind.isPrefixSign ↔ ∃ sign ∈ Parser.prefixSigns, kind = .operator sign := by
  cases kind <;> simp [isPrefixSign]

/-- A token with a meaning before an operand is a prefix sign. -/
theorem Token.isPrefixSign_of_operation? {token : Token} {operation : Operation}
    (meaning : token.operation? .before = some operation) : token.kind.isPrefixSign := by
  obtain ⟨sign, kind, meaning⟩ := Token.operation?_eq_some.1 meaning
  exact TokenKind.isPrefixSign_iff.2 ⟨sign, Parser.mem_prefixSigns.2 ⟨operation, meaning⟩, kind⟩

/-- An expression begins with an operand, or with a sign or an `if` when its rank allows it. -/
theorem Expression.Canonical.first_kind {value : Expression} (canonical : value.Canonical) :
    value.first.kind.beginsPrimary ∨ (value.rank ≤ 8 ∧ value.first.kind.isPrefixSign) ∨
      (value.rank ≤ 1 ∧ value.first.kind = .keyword .ifWord) := by
  induction canonical with
  | identifier kind | boolean kind _ | number kind _ | string kind _ =>
      exact .inl (by simp [first, kind, TokenKind.beginsPrimary])
  | group kind _ _ _ => exact .inl (by simp [first, kind, TokenKind.beginsPrimary])
  | prefixed meaning _ _ _ =>
      exact .inr (.inl ⟨by simp [rank], Token.isPrefixSign_of_operation? meaning⟩)
  | conditional kind _ _ _ _ _ _ => exact .inr (.inr ⟨by simp [rank], kind⟩)
  | binary _ _ _ leftRank _ _ leftStarts _ =>
      simp only [rank, first]
      rcases leftStarts with primary | ⟨low, sign⟩ | ⟨low, word⟩
      · exact .inl primary
      · exact .inr (.inl ⟨by omega, sign⟩)
      · exact .inr (.inr ⟨by omega, word⟩)
  | postfixed _ _ operandRank operandStarts =>
      simp only [operandRank] at operandStarts
      exact .inl (operandStarts.resolve_right (by omega))
  | call _ receiverRank _ _ receiverStarts _ =>
      simp only [receiverRank] at receiverStarts
      exact .inl (receiverStarts.resolve_right (by omega))
  | property _ receiverRank _ receiverStarts =>
      simp only [receiverRank] at receiverStarts
      exact .inl (receiverStarts.resolve_right (by omega))

namespace Expression.Canonical

/-- Nothing binds tighter than an operand. -/
theorem rank_le {value : Expression} (canonical : value.Canonical) : value.rank ≤ 10 := by
  cases canonical with
  | binary meaning _ _ _ _ _ =>
      obtain ⟨sign, -, meaning⟩ := Token.operation?_eq_some.1 meaning
      exact (Operator.rank_of_between meaning).1.le.trans (by decide)
  | _ => simp [rank]

/-- Only an assignment or a conditional ends in a conditional. -/
theorem endsInConditional_eq_false {value : Expression} (canonical : value.Canonical)
    (tight : 2 ≤ value.rank) : value.endsInConditional = false := by
  induction canonical with
  | binary _ _ _ _ rightRank _ _ rightFree =>
      simp only [rank] at tight
      exact rightFree (by omega)
  | prefixed _ _ operandRank operandFree => exact operandFree (by omega)
  | conditional => simp [rank] at tight
  | _ => rfl

/-- A call or a part of one does not end in a sign. -/
theorem endsInPostfix_eq_false {value : Expression} (canonical : value.Canonical)
    (tight : value.rank = 10) : value.endsInPostfix = false := by
  cases canonical with
  | binary meaning _ _ _ _ _ =>
      obtain ⟨sign, -, meaning⟩ := Token.operation?_eq_some.1 meaning
      have low := (Operator.rank_of_between meaning).1
      simp only [rank] at tight
      omega
  | prefixed | postfixed | conditional => simp [rank] at tight
  | _ => rfl

end Expression.Canonical

/-- The kinds that begin an expression. -/
def TokenKind.beginsExpression (kind : TokenKind) : Bool :=
  kind.beginsPrimary || kind.isPrefixSign || kind = .keyword .ifWord

/-- A kind that begins expressions is none that begins no expression. -/
theorem TokenKind.ne_of_beginsExpression {kind other : TokenKind}
    (begins : kind.beginsExpression) (apart : other.beginsExpression = false) : kind ≠ other := by
  rintro rfl
  exact Bool.eq_false_iff.1 apart begins

/-- A canonical expression begins with an operand or a sign before one. -/
theorem Expression.Canonical.begins {value : Expression} (canonical : value.Canonical) :
    value.first.kind.beginsExpression := by
  rcases canonical.first_kind with primary | ⟨_, sign⟩ | ⟨_, word⟩
  · simp [TokenKind.beginsExpression, primary]
  · simp [TokenKind.beginsExpression, sign]
  · simp [TokenKind.beginsExpression, word]

/-- A name, its type after a colon and its value after an equals sign. -/
def piecesOfBinding (name : Identifier) (type : Option Identifier) (value : Option Expression) :
    List Piece :=
  name.pieces ++
    (type.toList.flatMap fun type => .mark (.symbol .colon) :: type.pieces) ++
    (value.toList.flatMap fun value => .mark (.operator .equals) :: value.pieces)

def Variable.pieces (definition : Variable) : List Piece :=
  .stored definition.keyword ::
    piecesOfBinding definition.name definition.type definition.value

def Statement.pieces : Statement → List Piece
  | .expression value => value.pieces
  | .returned keyword value => .stored keyword :: value.pieces
  | .variable definition => definition.pieces
  | .recovery token => [.stored token]

def Block.pieces (block : Block) : List Piece :=
  .stored block.opening :: (block.statements.flatMap Statement.pieces ++ [.stored block.close])

def Parameter.pieces (parameter : Parameter) : List Piece :=
  piecesOfBinding parameter.name parameter.type parameter.default

def ParameterList.pieces (list : ParameterList) : List Piece :=
  .stored list.opening ::
    (commaSeparated (list.parameters.map Parameter.pieces) ++ [.stored list.close])

/-- The arrow is left out with the body that it leads to. -/
def FunctionDeclaration.pieces (declared : FunctionDeclaration) : List Piece :=
  .stored declared.keyword :: (declared.name.pieces ++ declared.parameters.pieces ++
    (declared.result.toList.flatMap fun result => .mark (.symbol .colon) :: result.pieces) ++
    (declared.body.toList.flatMap fun body => .mark (.symbol .arrow) :: body.pieces))

def Declaration.pieces : Declaration → List Piece
  | .function declared => declared.pieces
  | .variable definition => definition.pieces

/-- The boundary of a module is no piece of it. -/
def Module.pieces (module : Module) : List Piece :=
  module.declarations.flatMap Declaration.pieces

/-- The end marker is no piece of a root. -/
def Root.pieces (root : Root) : List Piece := root.modules.flatMap Module.pieces

end FrontEnd
