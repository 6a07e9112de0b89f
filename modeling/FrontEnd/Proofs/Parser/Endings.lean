/-
This file shows how a parse fails. It runs out of tokens at the first end marker, or its
receiver refuses a report, and nothing else ever stops it.
-/

import FrontEnd.Proofs.Parser.Filling
import FrontEnd.Proofs.Parser.Progress

namespace FrontEnd

/-- A cursor that stops stands at the first end marker. -/
theorem TokenCursor.Sound.position_eq {tokens : List Token} {cursor : TokenCursor}
    (sound : cursor.Sound tokens) (stops : cursor.hasNext = false) :
    cursor.position = tokens.findIdx Token.isEof := by
  have split : tokens = cursor.passed.reverse ++ (cursor.rest ++ [cursor.marker]) := by
    rw [← sound.tokens, TokenCursor.tokens, List.append_assoc]
  have ends : (cursor.rest ++ [cursor.marker])[0]?.any Token.isEof = true := by
    obtain ⟨passed, rest, marker⟩ := cursor
    cases rest with
    | nil => exact sound.marker
    | cons first rest =>
        by_contra goesOn
        simp_all [hasNext, step?]
  have here : (cursor.rest ++ [cursor.marker]).findIdx Token.isEof = 0 := by
    cases after : cursor.rest ++ [cursor.marker] with
    | nil => simp at after
    | cons first rest =>
        rw [after] at ends
        rw [List.findIdx_cons, show first.isEof = true from ends]
        rfl
  refine le_antisymm sound.position_le ?_
  rw [split, List.findIdx_append, here]
  split <;> rename_i found
  · rw [position, ← List.length_reverse]
    exact found.le
  · simp [position]

namespace Parser

variable {σ ρ α : Type} [Receiver ρ]

/-- Why a run from a fresh start failed. It ran out of tokens at the first end marker while its
receiver took every report, or the receiver refused the latest one and raised the error. -/
inductive Failure (tokens : List Token) (sink : ρ) (last : State σ ρ) : ParseError → Prop
  | endOfFile (taken : Receiver.acceptAll? sink last.reports = some last.sink)
      (stops : last.cursor.hasNext = false)
      (place : last.position = (withMarker tokens).findIdx Token.isEof) :
      Failure tokens sink last .endOfFile
  | reported {earlier : List Diagnostic} {diagnostic raised : Diagnostic} {between : ρ}
      (reports : last.reports = earlier ++ [diagnostic])
      (latest : last.log.getLast? = some (.reported diagnostic))
      (taken : Receiver.acceptAll? sink earlier = some between)
      (refuses : Receiver.accept diagnostic between = .error raised last.sink) :
      Failure tokens sink last (.reported raised)

variable {tokens : List Token} {sink : ρ} {observed : σ}

/-- The ways to end give the ways to fail. -/
theorem Ends.failure {condition : α → TokenCursor → Prop} {error : ParseError} {last : State σ ρ}
    (ends : Ends (TokenCursor.ofTokens tokens) (State.start tokens sink observed) condition
      (.error error last)) : Failure tokens sink last error := by
  cases ends with
  | ended ran taken stops =>
      have sound := (TokenCursor.sound_ofTokens tokens).reaches ran.reports.reaches
      exact .endOfFile (ran.noted ▸ taken) stops (sound.position_eq stops)
  | refused ran taken refuses latest => exact .reported ran.noted latest taken refuses

/-- After a success the receiver took every report. -/
theorem Ends.taken {condition : α → TokenCursor → Prop} {outcome : Outcome σ ρ α}
    (ends : Ends (TokenCursor.ofTokens tokens) (State.start tokens sink observed) condition
      outcome) (succeeds : (Outcome.result outcome).isOk) :
    Receiver.acceptAll? sink (Outcome.state outcome).reports =
      some (Outcome.state outcome).sink := by
  cases ends with
  | ok ran taken => exact ran.noted ▸ taken
  | ended => cases succeeds
  | refused => cases succeeds

/-- The end of a file is never reported. -/
theorem Ends.codes {condition : α → TokenCursor → Prop} {outcome : Outcome σ ρ α}
    (ends : Ends (TokenCursor.ofTokens tokens) (State.start tokens sink observed) condition
      outcome) : ∀ diagnostic ∈ (Outcome.state outcome).reports, diagnostic.code ≠ .endOfFile := by
  obtain ⟨added, ran⟩ := ends.ran
  rw [ran.noted]
  exact fun diagnostic member => (ran.reports.code_ne diagnostic member).2

section Failing

variable {last : State σ ρ} {error : ParseError} (failure : Failure tokens sink last error)

include failure

/-- A run with a patient receiver fails only when it runs out of tokens. -/
theorem Failure.eq_endOfFile (patient : Receiver.Patient sink) : error = .endOfFile := by
  cases failure with
  | endOfFile => rfl
  | reported _ _ taken refuses => exact absurd refuses (patient.accept_ne_error taken)

/-- A run with a candid receiver fails with the diagnostic that it was just handed. -/
theorem Failure.eq_latest (candid : Receiver.Candid sink) :
    error = .endOfFile ∨ ∃ diagnostic, error = .reported diagnostic ∧
      last.log.getLast? = some (.reported diagnostic) := by
  cases failure with
  | endOfFile => exact .inl rfl
  | reported _ latest taken refuses =>
      obtain rfl := candid taken refuses
      exact .inr ⟨_, rfl, latest⟩

end Failing

end Parser

/-- A fresh parse from any entry point fails only when it runs out of tokens at the first end marker
or when its receiver refuses the report just made. A receiver that takes whatever it is handed never
fails it, and one that raises what it is handed fails it with this report. The end of a file is
never reported, but diagnosed at the end of the source. The looks at tokens, which all could fail,
never do. -/
theorem Entry.parse_fails {σ ρ : Type} [Observer σ] [Receiver ρ] (entry : Entry)
    (tokens : List Token) (source : Source) (sink : ρ) (observed : σ) :
    let outcome := entry.parse tokens sink observed
    (∀ error, outcome.result = .error error →
      Parser.Failure tokens sink outcome.state error ∧
      (Receiver.Patient sink → error = .endOfFile) ∧
      (Receiver.Candid sink → error = .endOfFile ∨ ∃ diagnostic, error = .reported diagnostic ∧
        outcome.state.log.getLast? = some (.reported diagnostic))) ∧
    ParseError.endOfFile.diagnostic source = ⟨source.length, 0, .endOfFile⟩ ∧
    (∀ diagnostic ∈ outcome.state.reports, diagnostic.code ≠ .endOfFile) ∧
    (outcome.result.isOk →
      Receiver.acceptAll? sink outcome.state.reports = some outcome.state.sink) ∧
    (Receiver.Patient sink → outcome.state.position < (withMarker tokens).findIdx Token.isEof →
      outcome.result.isOk) ∧
    (∀ cursor : TokenCursor, cursor.peekAt? 0 = some cursor.current) ∧
    ∀ operand : Parser σ ρ Expression,
      Parser.postfixed operand = Parser.peekingPostfixed operand := by
  intro outcome
  have ends : Parser.Ends _ _ _ outcome := entry.parse_ends tokens sink observed
  have fails : ∀ error, outcome.result = .error error →
      Parser.Failure tokens sink outcome.state error := by
    intro error failed
    cases found : outcome with
    | ok node last =>
        rw [found] at failed
        cases failed
    | error other last =>
        rw [found] at failed ends
        cases failed
        exact ends.failure
  refine ⟨fun error failed => ⟨fails error failed, (fails error failed).eq_endOfFile,
    (fails error failed).eq_latest⟩, rfl, ends.codes, ends.taken, ?_, TokenCursor.peekAt?_current,
    Parser.postfixed_eq_peeking⟩
  intro patient early
  cases found : outcome.result with
  | ok node => rfl
  | error error =>
      obtain rfl := (fails error found).eq_endOfFile patient
      cases fails .endOfFile found with
      | endOfFile _ _ place =>
          rw [place] at early
          exact absurd early (lt_irrefl _)

/-- A declaration without a name ends at a marker in the middle of the tokens. A receiver with room
for one diagnostic takes the first report on an empty group and raises the second. -/
theorem Entry.parse_fails_atMarker :
    let unnamed := [⟨0, .keyword .letWord, "let", false⟩, Token.eof 3, ⟨3, .identifier, "a", false⟩]
    let group := [⟨0, .bracket .openParen, "(", false⟩, ⟨1, .bracket .closeParen, ")", false⟩]
    let ended := Entry.file.parse unnamed (.collect []) ()
    let refused := Entry.expression.parse group (Receiver.Limited.mk 1) ()
    (ended.result = .error .endOfFile ∧ ended.state.position = 1 ∧
      Parser.Failure unnamed (.collect []) ended.state .endOfFile ∧
      ∀ error, ended.result = .error error → error = .endOfFile) ∧
    refused.result = .error (.reported ⟨2, 0, .expectedParentheses⟩) ∧
      refused.state.reports = [⟨1, 1, .expectedIdentifier⟩, ⟨2, 0, .expectedParentheses⟩] ∧
      ∀ error, refused.result = .error error → Parser.Failure group ⟨1⟩ refused.state error ∧
        (error = .endOfFile ∨ ∃ diagnostic, error = .reported diagnostic ∧
          refused.state.log.getLast? = some (.reported diagnostic)) := by
  intro unnamed group ended refused
  have endedFails : ended.result = .error .endOfFile := by rfl
  have patient : Receiver.Patient (Sink.collect []) := Sink.patient_iff.2 Sink.noConfusion
  obtain ⟨ends, -⟩ := Entry.file.parse_fails unnamed ⟨"let", none⟩ (Sink.collect []) ()
  obtain ⟨refuses, -⟩ :=
    Entry.expression.parse_fails group ⟨"()", none⟩ (Receiver.Limited.mk 1) ()
  refine ⟨⟨endedFails, rfl, (ends _ endedFails).1, fun error failed => ?_⟩, rfl, rfl,
    fun error failed => ?_⟩
  · exact (ends error failed).2.1 patient
  · exact ⟨(refuses error failed).1, (refuses error failed).2.2 (Receiver.Limited.candid _)⟩

end FrontEnd
