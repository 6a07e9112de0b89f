/-
This file follows the cursor of a parse. It moves forward one token at a time, whether the parse
succeeds or fails, and never passes an end marker.
-/

import FrontEnd.Parser.Session
import FrontEnd.Proofs.Parser.Sinks
import Mathlib.Logic.Relation

namespace FrontEnd

/-- Tokens with an end marker after the last of them, unless there is one. -/
def withMarker (tokens : List Token) : List Token :=
  if tokens.getLast?.any Token.isEof then tokens
  else tokens ++ [Token.eof ((tokens.getLast?.map Token.stop).getD 0)]

namespace TokenCursor

variable {tokens : List Token} {cursor next : TokenCursor} {token : Token}

/-- A step moves one token from what is left to what was passed, and no marker is stepped over. -/
theorem step?_eq_some : cursor.step? = some (token, next) ↔
    ∃ rest, cursor.rest = token :: rest ∧ token.isEof = false ∧
      next = ⟨token :: cursor.passed, rest, cursor.marker⟩ := by
  obtain ⟨passed, rest, marker⟩ := cursor
  cases rest with
  | nil => simp [step?]
  | cons first rest =>
      by_cases ends : first.isEof = true
      · simp only [step?, ends, if_true, reduceCtorEq, false_iff]
        rintro ⟨_, same, goesOn, -⟩
        obtain ⟨rfl, -⟩ := List.cons.inj same
        simp [ends] at goesOn
      · simp only [step?, ends, Bool.false_eq_true, if_false, Option.some.injEq, Prod.mk.injEq,
          List.cons.injEq]
        constructor
        · rintro ⟨rfl, rfl⟩
          exact ⟨rest, ⟨rfl, rfl⟩, by simpa using ends, rfl⟩
        · rintro ⟨_, ⟨rfl, rfl⟩, -, rfl⟩
          exact ⟨rfl, rfl⟩

/-- A cursor precedes the one behind its current token. -/
def Precedes (cursor next : TokenCursor) : Prop := ∃ token, cursor.step? = some (token, next)

/-- A cursor reaches another one by steps. -/
def Reaches : TokenCursor → TokenCursor → Prop := Relation.ReflTransGen Precedes

/-- A step moves the cursor by one place. -/
theorem Precedes.position (step : Precedes cursor next) : next.position = cursor.position + 1 := by
  obtain ⟨token, stepped⟩ := step
  exact (step?_sound stepped).2.1

/-- A step leaves one token less. -/
theorem Precedes.remaining (step : Precedes cursor next) :
    next.remaining + 1 = cursor.remaining := by
  obtain ⟨token, stepped⟩ := step
  exact (step?_sound stepped).2.2.1

/-- A cursor that is reached stands behind or at the same place. -/
theorem Reaches.position_le (reaches : Reaches cursor next) : cursor.position ≤ next.position := by
  induction reaches with
  | refl => exact Nat.le_refl _
  | tail _ step inductionHypothesis =>
      rw [step.position]
      omega

/-- As many tokens remain behind the way as before it, or fewer. -/
theorem Reaches.remaining_le (reaches : Reaches cursor next) :
    next.remaining ≤ cursor.remaining := by
  induction reaches with
  | refl => exact Nat.le_refl _
  | tail _ step inductionHypothesis =>
      have left := step.remaining
      omega

/-- What was passed and what remains is the same number of tokens all the time. -/
theorem Reaches.position_add (reaches : Reaches cursor next) :
    next.position + next.remaining = cursor.position + cursor.remaining := by
  induction reaches with
  | refl => rfl
  | tail _ step inductionHypothesis =>
      have moved := step.position
      have left := step.remaining
      omega

/-- On its way a cursor keeps its marker. -/
theorem Reaches.marker (reaches : Reaches cursor next) : next.marker = cursor.marker := by
  induction reaches with
  | refl => rfl
  | tail _ step inductionHypothesis =>
      obtain ⟨token, stepped⟩ := step
      obtain ⟨rest, -, -, rfl⟩ := step?_eq_some.1 stepped
      exact inductionHypothesis

/-- What is true of a cursor over tokens at any time. -/
structure Sound (tokens : List Token) (cursor : TokenCursor) : Prop where
  tokens : cursor.tokens = tokens
  marker : cursor.marker.isEof = true
  passed : ∀ token ∈ cursor.passed, token.isEof = false

/-- A step keeps a cursor sound, since the tokens stay and no marker is passed. -/
theorem Sound.step (sound : Sound tokens cursor) (step : Precedes cursor next) :
    Sound tokens next := by
  obtain ⟨token, stepped⟩ := step
  have kept := (step?_sound stepped).1
  obtain ⟨rest, -, goesOn, rfl⟩ := step?_eq_some.1 stepped
  exact ⟨kept.trans sound.tokens, sound.marker, List.forall_mem_cons.2 ⟨goesOn, sound.passed⟩⟩

/-- Every cursor on the way of a sound one is sound. -/
theorem Sound.reaches (sound : Sound tokens cursor) (reaches : Reaches cursor next) :
    Sound tokens next := by
  induction reaches with
  | refl => exact sound
  | tail _ step inductionHypothesis => exact inductionHypothesis.step step

/-- A fresh cursor is sound. -/
theorem sound_ofTokens (tokens : List Token) : Sound (withMarker tokens) (ofTokens tokens) := by
  cases found : tokens.getLast? with
  | none =>
      obtain rfl := List.getLast?_eq_none_iff.1 found
      exact ⟨rfl, rfl, by simp [ofTokens]⟩
  | some last =>
      obtain ⟨body, rfl⟩ := List.getLast?_eq_some_iff.1 found
      by_cases ends : last.isEof = true
      · simp only [ofTokens, withMarker, found, ends, if_true, Option.any_some]
        exact ⟨by simp [TokenCursor.tokens], ends, by simp⟩
      · simp only [ofTokens, withMarker, found, ends, Option.any_some]
        exact ⟨rfl, rfl, by simp⟩

/-- The tokens of a sound cursor end in a marker. -/
theorem Sound.ended (sound : Sound tokens cursor) : tokens.getLast?.any Token.isEof = true := by
  rw [← sound.tokens, TokenCursor.tokens, List.getLast?_concat]
  exact sound.marker

/-- The cursor never passes the first end marker. -/
theorem Sound.position_le (sound : Sound tokens cursor) :
    cursor.position ≤ tokens.findIdx Token.isEof := by
  have split : tokens = cursor.passed.reverse ++ (cursor.rest ++ [cursor.marker]) := by
    rw [← sound.tokens, TokenCursor.tokens, List.append_assoc]
  have none : cursor.passed.reverse.findIdx Token.isEof = cursor.position := by
    rw [List.findIdx_eq_length_of_false, List.length_reverse, TokenCursor.position]
    intro token member
    exact sound.passed token (List.mem_reverse.1 member)
  rw [split, List.findIdx_append, none]
  split <;> simp [TokenCursor.position]

/-- A sound cursor stands at one of its tokens. -/
theorem Sound.position_lt (sound : Sound tokens cursor) : cursor.position < tokens.length := by
  rw [← sound.tokens]
  simp [TokenCursor.tokens, TokenCursor.position]

/-- There is always a current token. -/
theorem peekAt?_current (cursor : TokenCursor) : cursor.peekAt? 0 = some cursor.current := by
  obtain ⟨passed, rest, marker⟩ := cursor
  have here : (⟨passed, rest, marker⟩ : TokenCursor).peekAt? 0 =
      (passed.reverse ++ rest ++ [marker])[passed.length]? := rfl
  rw [here, List.append_assoc, List.getElem?_append_right (by simp)]
  cases rest <;> simp [current]

/-- There is a token after a current token that is no end marker. -/
theorem peekAt?_following (goesOn : cursor.hasNext = true) :
    cursor.peekAt? 1 = some cursor.following := by
  obtain ⟨passed, rest, marker⟩ := cursor
  cases rest with
  | nil => simp [hasNext, step?] at goesOn
  | cons first rest =>
      have after : (⟨passed, first :: rest, marker⟩ : TokenCursor).peekAt? 1 =
          (passed.reverse ++ (first :: rest) ++ [marker])[passed.length + 1]? := rfl
      rw [after, List.append_assoc, List.getElem?_append_right (by simp)]
      cases rest <;> simp [following]

end TokenCursor

namespace Parser

variable {σ ρ α β : Type}

/-- What a caller relies on at any time: the tokens end in a marker, the cursor is not behind the
first marker, and there is a current token. -/
structure Placed (tokens : List Token) (state : State σ ρ) : Prop where
  kept : state.cursor.tokens = tokens
  ended : tokens.getLast?.any Token.isEof = true
  first : state.position ≤ tokens.findIdx Token.isEof
  inside : state.position < tokens.length
  current : state.cursor.peekAt? 0 = some state.cursor.current

/-- A state with a sound cursor is in its place. -/
theorem placed_of_sound {tokens : List Token} {state : State σ ρ}
    (sound : state.cursor.Sound tokens) : Placed tokens state :=
  ⟨sound.tokens, sound.ended, sound.position_le, sound.position_lt,
    TokenCursor.peekAt?_current state.cursor⟩

/-- A parser that only moves forward, whether it succeeds or fails. -/
def Forward (parser : Parser σ ρ α) : Prop :=
  ∀ state : State σ ρ, state.cursor.Reaches (Outcome.state (parser state)).cursor

/-- A sequence moves forward as its parts do. -/
theorem Forward.bind {first : Parser σ ρ α} {rest : α → Parser σ ρ β} (firstForward : Forward first)
    (restForward : ∀ value, Forward (rest value)) : Forward (first >>= rest) := by
  intro state
  have reaches := firstForward state
  cases ran : first state with
  | ok value next =>
      rw [ran] at reaches
      rw [bind_ok ran]
      exact reaches.trans (restForward value next)
  | error error next =>
      rw [ran] at reaches
      rw [bind_error ran]
      exact reaches

theorem forward_advance : Forward (advance : Parser σ ρ Token) := by
  intro state
  unfold advance
  cases stepped : state.cursor.step? with
  | none => exact .refl
  | some step => exact .single ⟨step.1, stepped⟩

theorem forward_eatWhere (wanted : Token → Bool) :
    Forward (eatWhere wanted : Parser σ ρ (Option Token)) := by
  intro state
  unfold eatWhere
  cases stepped : state.cursor.step? with
  | none => exact .refl
  | some step =>
      by_cases fits : wanted step.1 = true
      · simp only [fits, if_true]
        exact .single ⟨step.1, stepped⟩
      · simp only [fits]
        exact .refl

/-- A token that is eaten moves the cursor by one. -/
theorem eatWhere_moves (wanted : Token → Bool) (state : State σ ρ) :
    ∃ found next, (eatWhere wanted : Parser σ ρ (Option Token)) state = .ok found next ∧
      next.position = state.position + found.isSome.toNat := by
  unfold eatWhere
  cases stepped : state.cursor.step? with
  | none => exact ⟨none, state, rfl, rfl⟩
  | some step =>
      obtain ⟨token, next⟩ := step
      by_cases fits : wanted token = true
      · simp only [fits, if_true]
        exact ⟨some token, _, rfl, (TokenCursor.step?_sound stepped).2.1⟩
      · simp only [fits, Bool.false_eq_true, if_false]
        exact ⟨none, state, rfl, rfl⟩

variable [Receiver ρ]

/-- A report moves no cursor, whether it is taken or not. -/
theorem report_cursor (diagnostic : Diagnostic) (state : State σ ρ) :
    (Outcome.state ((report diagnostic : Parser σ ρ Unit) state)).cursor = state.cursor := by
  unfold report
  cases Receiver.accept diagnostic state.sink <;> rfl

/-- A report moves nothing, whatever the receiver answers. -/
theorem forward_report (diagnostic : Diagnostic) :
    Forward (report diagnostic : Parser σ ρ Unit) := by
  intro state
  rw [report_cursor]
  exact .refl

/-- The meaning of a sign is found without a move. -/
theorem operation_stays (fixity : Fixity) (token : Token) (state : State σ ρ) :
    (Outcome.state ((operation fixity token : Parser σ ρ Operation) state)).position =
      state.position := by
  unfold operation
  cases token.operation? fixity with
  | some meaning => rfl
  | none =>
      let diagnostic : Diagnostic := .atToken token .invalidOperator
      have stays := report_cursor diagnostic state
      show
        (Outcome.state ((report diagnostic >>= fun _ => pure Operation.invalid) state)).position =
        _
      cases ran : (report diagnostic : Parser σ ρ Unit) state with
      | ok _ next =>
          rw [ran] at stays
          rw [bind_ok ran]
          exact congrArg TokenCursor.position stays
      | error error next =>
          rw [ran] at stays
          rw [bind_error ran]
          exact congrArg TokenCursor.position stays

/-- Every rule of the grammar moves forward, since the primitive steps do. -/
def forwardSimulation (σ ρ : Type) [Observer σ] [Receiver ρ] : Simulation id σ σ ρ where
  Rel _ parser _ := Forward parser
  pure _ _ := fun _ => .refl
  bind := Forward.bind
  look _ := fun _ => .refl
  advance := forward_advance
  eatWhere _ := forward_eatWhere _
  note _ := fun _ => .refl
  report := forward_report
  make _ _ := fun _ => .refl

/-- A parser that moves forward is related to itself under any view of its values. -/
theorem Forward.related [Observer σ] {parser : Parser σ ρ α} (forward : Forward parser)
    (image : α → α) : (forwardSimulation σ ρ).Rel image parser parser := forward

end Parser

end FrontEnd
