/-
This file shows that the bounds on the loops and on the depth of the grammar are never reached
early. With any bound from the number of tokens that remain on, a rule gives the same.
-/

import FrontEnd.Proofs.Parser.Forward
import FrontEnd.Proofs.Parser.RecoveringModules

namespace FrontEnd

namespace Parser

variable {σ ρ α β : Type}

section AtEnd

variable {state : State σ ρ}

/-- At the end no token is taken. -/
theorem eatWhere_atEnd {wanted : Token → Bool} {rest : Option Token → Parser σ ρ α}
    (atEnd : state.cursor.rest = []) : (eatWhere wanted >>= rest) state = rest none state :=
  bind_ok (eatWhere_eof (by rw [atEnd]; rfl))

/-- At the end a list has no more items, whatever its bound. -/
theorem itemsWithin_atEnd {close : Bracket} {item : Parser σ ρ α} (count : Nat)
    (atEnd : state.cursor.rest = []) : itemsWithin close item count state = .ok [] state := by
  cases count with
  | zero => rfl
  | succ count =>
      have closes : (beforeClose close : Parser σ ρ Bool) state = .ok false state := by
        simp [beforeClose, TokenCursor.hasNext, TokenCursor.step?, atEnd]
      exact bind_ok closes

variable [Observer σ] [Receiver ρ]

/-- At the end a chain stops, whatever its bound. -/
theorem binaryWithin_atEnd {operators : List Operator} {operand : Parser σ ρ Expression}
    (count : Nat) (left : Expression) (atEnd : state.cursor.rest = []) :
    binaryWithin operators operand count left state = .ok left state := by
  cases count with
  | zero => rfl
  | succ count => exact eatWhere_atEnd atEnd

/-- At the end no sign stands before an operand, whatever the bound. -/
theorem prefixedWithin_atEnd {operand : Parser σ ρ Expression} (count : Nat)
    (atEnd : state.cursor.rest = []) : prefixedWithin operand count state = operand state := by
  cases count with
  | zero => rfl
  | succ count => exact eatWhere_atEnd atEnd

/-- At the end nothing is called, whatever the bound. -/
theorem callWithin_atEnd {inner : Parser σ ρ Expression} (count : Nat) (receiver : Expression)
    (atEnd : state.cursor.rest = []) :
    callWithin inner count receiver state = .ok receiver state := by
  cases count with
  | zero => rfl
  | succ count => exact (eatWhere_atEnd atEnd).trans (eatWhere_atEnd atEnd)

/-- At the end no declaration follows, whatever the bound. -/
theorem declarationsWithin_atEnd (count : Nat) (atEnd : state.cursor.rest = []) :
    declarationsWithin count state = .ok [] state := by
  cases count with
  | zero => rfl
  | succ count =>
      have stops : (hasNext : Parser σ ρ Bool) state = .ok false state := by
        simp [hasNext, TokenCursor.hasNext, TokenCursor.step?, atEnd]
      exact bind_ok stops

/-- At the end a name fails, since the marker cannot be replaced. -/
theorem identifier_atEnd (atEnd : state.cursor.rest = []) :
    identifier state = .error .endOfFile state := by
  have fails : (advance : Parser σ ρ Token) state = .error .endOfFile state := by
    simp [advance, TokenCursor.step?, atEnd]
  exact (eatWhere_atEnd atEnd).trans (bind_error fails)

/-- At the end a literal fails as the name does that it is taken for. -/
theorem literal_atEnd (atEnd : state.cursor.rest = []) :
    literal state = .error .endOfFile state :=
  (eatWhere_atEnd atEnd).trans ((eatWhere_atEnd atEnd).trans
    ((eatWhere_atEnd atEnd).trans (bind_error (identifier_atEnd atEnd))))

/-- By induction on the ranks, each fails as its first operand does. -/
theorem tower_atEnd {operand : Parser σ ρ Expression}
    (fails : operand state = .error .endOfFile state) (operators : List (List Operator)) :
    tower operand operators state = .error .endOfFile state := by
  induction operators with
  | nil => exact fails
  | cons looser tighter inductionHypothesis => exact bind_error inductionHypothesis

/-- At the end an expression fails, whatever is inside expressions. -/
theorem assignment_atEnd (inner : Parser σ ρ Expression) (atEnd : state.cursor.rest = []) :
    assignment inner state = .error .endOfFile state := by
  have primaryFails : primary inner state = .error .endOfFile state :=
    (eatWhere_atEnd atEnd).trans (literal_atEnd atEnd)
  have callFails : call inner state = .error .endOfFile state := bind_error primaryFails
  have postfixedFails : postfixed (call inner) state = .error .endOfFile state :=
    bind_error callFails
  have prefixedFails : prefixed (postfixed (call inner)) state = .error .endOfFile state :=
    (prefixedWithin_atEnd _ atEnd).trans postfixedFails
  have conditionalFails : conditional inner state = .error .endOfFile state :=
    (eatWhere_atEnd atEnd).trans (tower_atEnd prefixedFails levels)
  exact bind_error conditionalFails

end AtEnd

/-- Parsers that agree wherever at most so many tokens remain before the end marker. -/
def AgreeWithin (bound : Nat) (first second : Parser σ ρ α) : Prop :=
  ∀ state : State σ ρ, state.cursor.marker.kind = .eof → state.cursor.remaining ≤ bound →
    first state = second state

/-- A parser that takes a token whenever it succeeds and at most so many remain. -/
def TakesWithin (bound : Nat) (parser : Parser σ ρ α) : Prop :=
  ∀ (state next : State σ ρ) (value : α), state.cursor.marker.kind = .eof →
    state.cursor.remaining ≤ bound → parser state = .ok value next →
      next.cursor.remaining < state.cursor.remaining

theorem AgreeWithin.refl (bound : Nat) (parser : Parser σ ρ α) : AgreeWithin bound parser parser :=
  fun _ _ _ => rfl

/-- Parsers that agree on many tokens agree on fewer. -/
theorem AgreeWithin.mono {bound less : Nat} {first second : Parser σ ρ α}
    (agree : AgreeWithin bound first second) (within : less ≤ bound) :
    AgreeWithin less first second :=
  fun state ended few => agree state ended (few.trans within)

/-- A parser that takes one of many tokens takes one of fewer. -/
theorem TakesWithin.mono {bound less : Nat} {parser : Parser σ ρ α}
    (takes : TakesWithin bound parser) (within : less ≤ bound) : TakesWithin less parser :=
  fun state next value ended few => takes state next value ended (few.trans within)

section Combining

variable {bound : Nat} {first first' : Parser σ ρ α} {rest rest' : α → Parser σ ρ β}

/-- Sequences agree when their first parts do and, from where these lead, their second parts. -/
theorem AgreeWithin.bindOf (agree : AgreeWithin bound first first')
    (restAgree : ∀ (state next : State σ ρ) (value : α), state.cursor.marker.kind = .eof →
      state.cursor.remaining ≤ bound → first state = .ok value next →
        rest value next = rest' value next) :
    AgreeWithin bound (first >>= rest) (first' >>= rest') := by
  intro state ended few
  have same := agree state ended few
  cases ran : first state with
  | ok value next =>
      rw [bind_ok ran, bind_ok (same ▸ ran)]
      exact restAgree state next value ended few ran
  | error error next => rw [bind_error ran, bind_error (same ▸ ran)]

theorem Forward.reaches (forward : Forward first) {state next : State σ ρ} {value : α}
    (ran : first state = .ok value next) : state.cursor.Reaches next.cursor := by
  have reaches := forward state
  rw [ran] at reaches
  exact reaches

/-- Sequences agree when their first parts move forward and agree, and their rests agree on what is
left. -/
theorem AgreeWithin.bind (forward : Forward first) (agree : AgreeWithin bound first first')
    (restAgree : ∀ value, AgreeWithin bound (rest value) (rest' value)) :
    AgreeWithin bound (first >>= rest) (first' >>= rest') := by
  refine agree.bindOf fun state next value ended few ran => ?_
  have reaches := forward.reaches ran
  exact restAgree value next (reaches.marker ▸ ended) (reaches.remaining_le.trans few)

/-- After a part that takes a token, fewer tokens remain. -/
theorem AgreeWithin.bindTaking (forward : Forward first) (takes : TakesWithin (bound + 1) first)
    (agree : AgreeWithin (bound + 1) first first')
    (restAgree : ∀ value, AgreeWithin bound (rest value) (rest' value)) :
    AgreeWithin (bound + 1) (first >>= rest) (first' >>= rest') := by
  refine agree.bindOf fun state next value ended few ran => ?_
  have reaches := forward.reaches ran
  have fewer := takes state next value ended few ran
  exact restAgree value next (reaches.marker ▸ ended) (by omega)

/-- After a token that was wanted, fewer tokens remain. -/
theorem AgreeWithin.eatWhere {wanted : Token → Bool} {rest rest' : Option Token → Parser σ ρ β}
    (missed : AgreeWithin (bound + 1) (rest none) (rest' none))
    (took : ∀ token, AgreeWithin bound (rest (some token)) (rest' (some token))) :
    AgreeWithin (bound + 1) (Parser.eatWhere wanted >>= rest)
      (Parser.eatWhere wanted >>= rest') := by
  refine (AgreeWithin.refl _ _).bindOf fun state next found ended few ran => ?_
  have reaches := (forward_eatWhere wanted).reaches ran
  have marker : next.cursor.marker.kind = .eof := reaches.marker ▸ ended
  cases found with
  | none => exact missed next marker (reaches.remaining_le.trans few)
  | some token =>
      obtain ⟨⟨-, -, split⟩, -⟩ := quiet_eatWhere wanted _ state next _ ended rfl ran
      have fewer : next.cursor.remaining + 1 = state.cursor.remaining := by
        simp only [TokenCursor.remaining, split, List.length_cons]
      exact took token next marker (by omega)

/-- Loops that take the number of tokens that remain for their bound agree when they do so with
every such bound. -/
theorem AgreeWithin.remaining {rest rest' : Nat → Parser σ ρ β}
    (agree : ∀ count ≤ bound, AgreeWithin count (rest count) (rest' count)) :
    AgreeWithin bound (Parser.remaining >>= rest) (Parser.remaining >>= rest') :=
  fun state ended few => agree state.cursor.remaining few state ended le_rfl

end Combining

/-- A sequence takes a token when its first part does and its rest does not move back. -/
theorem TakesWithin.bind {bound : Nat} {first : Parser σ ρ α} {rest : α → Parser σ ρ β}
    (takes : TakesWithin bound first) (restForward : ∀ value, Forward (rest value)) :
    TakesWithin bound (first >>= rest) := by
  intro state next value ended few ran
  obtain ⟨middle, between, ranFirst, ranRest⟩ := bind_eq_ok.1 ran
  have fewer := takes state between middle ended few ranFirst
  have noMore := ((restForward middle).reaches ranRest).remaining_le
  omega

/-- A parser that leaves fewer tokens whenever it gives something takes one. -/
theorem Gives.takesWithin [Receiver ρ] {bound : Nat} {parser : Parser σ ρ α}
    {condition : List Token → α → List Token → List Diagnostic → Prop}
    (gives : ∀ before, before.length ≤ bound → Gives parser before (condition before))
    (shorter : ∀ before value after added, condition before value after added →
      after.length < before.length) : TakesWithin bound parser := by
  intro state next value ended few ran
  obtain ⟨added, meets, -⟩ := gives _ few state next value ended rfl ran
  exact shorter _ value _ added meets

variable [Observer σ] [Receiver ρ]

theorem takesWithin_identifier (bound : Nat) :
    TakesWithin bound (identifier : Parser σ ρ Identifier) :=
  Gives.takesWithin (fun before _ => gives_identifier before) fun _ _ _ _ given => given.2

/-- An expression takes a token when its bound is not below the tokens that remain. -/
theorem takesWithin_expressionWithin {bound count : Nat} (enough : bound ≤ count) :
    TakesWithin bound (expressionWithin count : Parser σ ρ Expression) :=
  Gives.takesWithin (fun before few => gives_expressionWithin count before (few.trans enough))
    fun _ _ _ _ recovered => recovered.shorter

theorem takesWithin_expression (bound : Nat) :
    TakesWithin bound (expression : Parser σ ρ Expression) :=
  Gives.takesWithin (fun before _ => gives_expression before)
    fun _ _ _ _ recovered => recovered.shorter

/-- A statement takes a token, also one that starts none. -/
theorem takesWithin_statement (bound : Nat) :
    TakesWithin bound (statement : Parser σ ρ Statement) :=
  Gives.takesWithin (fun before _ => gives_statement before)
    fun _ _ _ _ recovered => recovered.shorter

theorem takesWithin_parameter (bound : Nat) :
    TakesWithin bound (parameter : Parser σ ρ Parameter) := by
  let forward := forwardSimulation σ ρ
  apply (takesWithin_identifier bound).bind
  intro name
  apply Forward.bind forward.typeName
  intro type
  apply Forward.bind forward.assigned
  intro default
  exact fun _ => .refl

section Loops

variable {bound count count' : Nat}

/-- By induction on the tokens that remain, since each item takes one of them. -/
theorem itemsWithin_agree {close : Bracket} {item item' : Parser σ ρ α} (forward : Forward item)
    (takes : TakesWithin bound item) (agree : AgreeWithin bound item item')
    (enough : bound ≤ count) (enough' : bound ≤ count') :
    AgreeWithin bound (itemsWithin close item count) (itemsWithin close item' count') := by
  induction bound generalizing count count' with
  | zero =>
      intro state _ few
      have atEnd := List.eq_nil_of_length_eq_zero (Nat.le_zero.1 few)
      rw [itemsWithin_atEnd count atEnd, itemsWithin_atEnd count' atEnd]
  | succ bound inductionHypothesis =>
      obtain ⟨count, rfl⟩ := Nat.exists_eq_add_of_lt enough
      obtain ⟨count', rfl⟩ := Nat.exists_eq_add_of_lt enough'
      have fewer := Nat.le_succ bound
      apply AgreeWithin.bind ((forwardSimulation σ ρ).beforeClose close) (.refl _ _)
      intro more
      cases more with
      | false => exact .refl _ _
      | true =>
          apply AgreeWithin.bindTaking forward takes agree
          intro first
          apply AgreeWithin.bind ((forwardSimulation σ ρ).itemsWithin close (forward.related id) _)
            (inductionHypothesis (takes.mono fewer) (agree.mono fewer) (by omega) (by omega))
          intro rest
          exact .refl _ _

theorem listItems_agree {item item' : Parser σ ρ α} (forward : Forward item)
    (takes : TakesWithin bound item) (agree : AgreeWithin bound item item') :
    AgreeWithin bound (listItems item) (listItems item') := by
  let simulation := forwardSimulation σ ρ
  apply AgreeWithin.remaining
  intro count few
  have restForward : ∀ value : α,
      Forward (separator .closeParen >>= fun _ => pure value : Parser σ ρ α) :=
    fun value => Forward.bind (simulation.separator _) fun _ _ => .refl
  apply itemsWithin_agree (forward.bind restForward) ((takes.mono few).bind restForward) _
    le_rfl le_rfl
  exact AgreeWithin.bind forward (agree.mono few) fun value => .refl _ _

variable {operand operand' : Parser σ ρ Expression} (forward : Forward operand)

include forward

/-- By induction on the tokens that remain, since each operator is one of them. -/
theorem binaryWithin_agree {operators : List Operator} {left : Expression}
    (agree : AgreeWithin bound operand operand') (enough : bound ≤ count)
    (enough' : bound ≤ count') :
    AgreeWithin bound (binaryWithin operators operand count left)
      (binaryWithin operators operand' count' left) := by
  induction bound generalizing count count' left with
  | zero =>
      intro state _ few
      have atEnd := List.eq_nil_of_length_eq_zero (Nat.le_zero.1 few)
      rw [binaryWithin_atEnd count left atEnd, binaryWithin_atEnd count' left atEnd]
  | succ bound inductionHypothesis =>
      obtain ⟨count, rfl⟩ := Nat.exists_eq_add_of_lt enough
      obtain ⟨count', rfl⟩ := Nat.exists_eq_add_of_lt enough'
      have fewer := agree.mono (Nat.le_succ bound)
      apply AgreeWithin.eatWhere
      · exact .refl _ _
      · intro token
        apply AgreeWithin.bind ((forwardSimulation σ ρ).operation _ token) (.refl _ _)
        intro meaning
        apply AgreeWithin.bind forward fewer
        intro right
        apply AgreeWithin.bind ((forwardSimulation σ ρ).makeExpression _) (.refl _ _)
        intro node
        exact inductionHypothesis fewer (by omega) (by omega)

theorem binary_agree {operators : List Operator} (agree : AgreeWithin bound operand operand') :
    AgreeWithin bound (binary operators operand) (binary operators operand') := by
  apply AgreeWithin.bind forward agree
  intro left
  apply AgreeWithin.remaining
  intro count few
  exact binaryWithin_agree forward (agree.mono few) le_rfl le_rfl

/-- By induction on the ranks, each agrees since the tighter ones do. -/
theorem tower_agree {operators : List (List Operator)}
    (agree : AgreeWithin bound operand operand') :
    AgreeWithin bound (tower operand operators) (tower operand' operators) := by
  induction operators with
  | nil => exact agree
  | cons looser tighter inductionHypothesis =>
      have related := forward.related (Expression.relocate id)
      exact binary_agree ((forwardSimulation σ ρ).tower related tighter) inductionHypothesis

/-- By induction on the tokens that remain, since each sign is one of them. -/
theorem prefixedWithin_agree (agree : AgreeWithin bound operand operand') (enough : bound ≤ count)
    (enough' : bound ≤ count') :
    AgreeWithin bound (prefixedWithin operand count) (prefixedWithin operand' count') := by
  induction bound generalizing count count' with
  | zero =>
      intro state ended few
      have atEnd := List.eq_nil_of_length_eq_zero (Nat.le_zero.1 few)
      rw [prefixedWithin_atEnd count atEnd, prefixedWithin_atEnd count' atEnd]
      exact agree state ended few
  | succ bound inductionHypothesis =>
      obtain ⟨count, rfl⟩ := Nat.exists_eq_add_of_lt enough
      obtain ⟨count', rfl⟩ := Nat.exists_eq_add_of_lt enough'
      have related := forward.related (Expression.relocate id)
      apply AgreeWithin.eatWhere agree
      intro token
      apply AgreeWithin.bind ((forwardSimulation σ ρ).operation _ token) (.refl _ _)
      intro meaning
      apply AgreeWithin.bind ((forwardSimulation σ ρ).prefixedWithin related _)
        (inductionHypothesis (agree.mono (Nat.le_succ bound)) (by omega) (by omega))
      intro inner
      exact .refl _ _

theorem prefixed_agree (agree : AgreeWithin bound operand operand') :
    AgreeWithin bound (prefixed operand) (prefixed operand') := by
  apply AgreeWithin.remaining
  intro count few
  exact prefixedWithin_agree forward (agree.mono few) le_rfl le_rfl

end Loops

section Rules

variable {bound : Nat} {inner inner' : Parser σ ρ Expression} (forward : Forward inner)
variable (takes : TakesWithin bound inner) (agree : AgreeWithin bound inner inner')

include forward takes agree

/-- By induction on the tokens that remain, since each call takes at least a bracket and each
property a point. -/
theorem callWithin_agree {limit count count' : Nat} {receiver : Expression}
    (within : limit ≤ bound + 1) (enough : limit ≤ count) (enough' : limit ≤ count') :
    AgreeWithin limit (callWithin inner count receiver) (callWithin inner' count' receiver) := by
  let simulation := forwardSimulation σ ρ
  induction limit generalizing count count' receiver with
  | zero =>
      intro state _ few
      have atEnd := List.eq_nil_of_length_eq_zero (Nat.le_zero.1 few)
      rw [callWithin_atEnd count receiver atEnd, callWithin_atEnd count' receiver atEnd]
  | succ limit inductionHypothesis =>
      obtain ⟨count, rfl⟩ := Nat.exists_eq_add_of_lt enough
      obtain ⟨count', rfl⟩ := Nat.exists_eq_add_of_lt enough'
      have few : limit ≤ bound := by omega
      apply AgreeWithin.eatWhere
      · apply AgreeWithin.eatWhere
        · exact .refl _ _
        · intro dot
          apply AgreeWithin.bind simulation.identifier (.refl _ _)
          intro name
          apply AgreeWithin.bind (simulation.makeExpression _) (.refl _ _)
          intro node
          exact inductionHypothesis (by omega) (by omega) (by omega)
      · intro opening
        apply AgreeWithin.bind (simulation.listItems (forward.related id))
          (listItems_agree forward (takes.mono few) (agree.mono few))
        intro arguments
        apply AgreeWithin.bind (simulation.expectBracket _) (.refl _ _)
        intro close
        apply AgreeWithin.bind (simulation.makeExpression _) (.refl _ _)
        intro node
        exact inductionHypothesis (by omega) (by omega) (by omega)

theorem call_agree : AgreeWithin (bound + 1) (call inner) (call inner') := by
  have primaries : AgreeWithin (bound + 1) (primary inner) (primary inner') :=
    AgreeWithin.eatWhere (.refl _ _) fun opening =>
      AgreeWithin.bind forward agree fun content => .refl _ _
  have related := forward.related (Expression.relocate id)
  apply AgreeWithin.bind ((forwardSimulation σ ρ).primary related) primaries
  intro receiver
  apply AgreeWithin.remaining
  intro count few
  exact callWithin_agree forward takes agree few le_rfl le_rfl

/-- Behind its keyword a conditional has one token less for the expressions inside it. -/
theorem conditional_agree :
    AgreeWithin (bound + 1) (conditional inner) (conditional inner') := by
  let simulation := forwardSimulation σ ρ
  have related := simulation.call (forward.related (Expression.relocate id))
  have postfixes : AgreeWithin (bound + 1) (postfixed (call inner)) (postfixed (call inner')) :=
    AgreeWithin.bind related (call_agree forward takes agree) fun value => .refl _ _
  have postfixedForward := simulation.postfixed related
  apply AgreeWithin.eatWhere
  · exact tower_agree (simulation.prefixed postfixedForward)
      (prefixed_agree postfixedForward postfixes)
  · intro keyword
    apply AgreeWithin.bind forward agree
    intro condition
    apply AgreeWithin.bind (simulation.passKeyword _ _) (.refl _ _)
    intro _
    apply AgreeWithin.bind forward agree
    intro consequent
    apply AgreeWithin.bind (simulation.passKeyword _ _) (.refl _ _)
    intro _
    apply AgreeWithin.bind forward agree
    intro alternative
    exact .refl _ _

theorem assignment_agree : AgreeWithin (bound + 1) (assignment inner) (assignment inner') :=
  binary_agree ((forwardSimulation σ ρ).conditional (forward.related (Expression.relocate id)))
    (conditional_agree forward takes agree)

end Rules

/-- At the end an expression fails, whatever its bound. -/
theorem expressionWithin_atEnd {state : State σ ρ} (count : Nat) (atEnd : state.cursor.rest = []) :
    expressionWithin count state = .error .endOfFile state := by
  cases count with
  | zero => exact bind_error (identifier_atEnd atEnd)
  | succ count => exact assignment_atEnd _ atEnd

/-- By induction on the tokens that remain, since an expression inside another one has fewer of
them. -/
theorem expressionWithin_agree {bound count count' : Nat} (enough : bound ≤ count)
    (enough' : bound ≤ count') :
    AgreeWithin bound (expressionWithin count : Parser σ ρ Expression)
      (expressionWithin count') := by
  induction bound generalizing count count' with
  | zero =>
      intro state _ few
      have atEnd := List.eq_nil_of_length_eq_zero (Nat.le_zero.1 few)
      rw [expressionWithin_atEnd count atEnd, expressionWithin_atEnd count' atEnd]
  | succ bound inductionHypothesis =>
      obtain ⟨count, rfl⟩ := Nat.exists_eq_add_of_lt enough
      obtain ⟨count', rfl⟩ := Nat.exists_eq_add_of_lt enough'
      exact assignment_agree ((forwardSimulation σ ρ).expressionWithin _)
        (takesWithin_expressionWithin (by omega)) (inductionHypothesis (by omega) (by omega))

/-- By induction on the tokens that remain, since each declaration takes its keyword. -/
theorem declarationsWithin_agree {bound count count' : Nat} (enough : bound ≤ count)
    (enough' : bound ≤ count') :
    AgreeWithin bound (declarationsWithin count : Parser σ ρ (List Declaration))
      (declarationsWithin count') := by
  let simulation := forwardSimulation σ ρ
  induction bound generalizing count count' with
  | zero =>
      intro state _ few
      have atEnd := List.eq_nil_of_length_eq_zero (Nat.le_zero.1 few)
      rw [declarationsWithin_atEnd count atEnd, declarationsWithin_atEnd count' atEnd]
  | succ bound inductionHypothesis =>
      obtain ⟨count, rfl⟩ := Nat.exists_eq_add_of_lt enough
      obtain ⟨count', rfl⟩ := Nat.exists_eq_add_of_lt enough'
      have later : AgreeWithin bound
          (declarationsWithin (bound + count) : Parser σ ρ (List Declaration))
          (declarationsWithin (bound + count')) := inductionHypothesis (by omega) (by omega)
      apply AgreeWithin.bind simulation.hasNext (.refl _ _)
      intro more
      cases more with
      | false => exact .refl _ _
      | true =>
          apply AgreeWithin.eatWhere
          · apply AgreeWithin.eatWhere
            · exact .refl _ _
            · intro keyword
              apply AgreeWithin.bind (simulation.binding keyword) (.refl _ _)
              intro first
              exact AgreeWithin.bind (simulation.declarationsWithin _) later
                fun rest => .refl _ _
          · intro keyword
            apply AgreeWithin.bind (simulation.function keyword) (.refl _ _)
            intro first
            exact AgreeWithin.bind (simulation.declarationsWithin _) later fun rest => .refl _ _

end Parser

end FrontEnd
