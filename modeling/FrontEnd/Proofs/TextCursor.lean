/-
This file drives a cursor over a text by any requests. The answers are told by the text and the
offset of the cursor alone, and the cursor never stands inside a character.
-/

import FrontEnd.Proofs.Source
import FrontEnd.TextCursor

namespace FrontEnd

namespace Text

/-- A piece of a text stands between two offsets. -/
def Between (start stop : Nat) (piece chars : List Char) : Prop :=
  ∃ before after, chars = before ++ (piece ++ after) ∧ byteSize before = start ∧
    start + byteSize piece = stop

section Between

variable {start stop : Nat} {piece chars : List Char}

/-- The piece between two offsets is what is cut out there. -/
theorem slice?_eq_some_iff :
    slice? start stop chars = some piece ↔ Between start stop piece chars := by
  refine ⟨slice?_sound, ?_⟩
  rintro ⟨before, after, rfl, rfl, rfl⟩
  exact slice?_append before piece after

/-- A piece does not end before it starts. -/
theorem Between.le (between : Between start stop piece chars) : start ≤ stop := by
  obtain ⟨-, -, -, -, size⟩ := between
  omega

theorem Between.starts (between : Between start stop piece chars) : isBoundary start chars := by
  obtain ⟨before, after, whole, size, -⟩ := between
  exact isBoundary_iff.2 ⟨before, _, whole, size⟩

theorem Between.stops (between : Between start stop piece chars) : isBoundary stop chars := by
  obtain ⟨before, after, rfl, rfl, rfl⟩ := between
  exact isBoundary_iff.2 ⟨before ++ piece, after, by simp, by simp⟩

end Between

end Text

namespace TextCursor

open Text (Between)

/-- What a cursor can be asked. -/
inductive Request where
  | advance
  | peek (distance : Nat)
  | eat (pattern : Pattern)
  | eatWhile (accepts : Char → Bool)
  | substring (start stop : Nat)

/-- What a cursor can answer. -/
inductive Reply where
  | char (found : Option Char)
  | truth (value : Bool)
  | text (found : String)
  | silence
  deriving DecidableEq, Repr

/-- A request is answered with a reply and the next cursor. -/
def Request.perform (cursor : TextCursor) : Request → Reply × TextCursor
  | .advance => (.char cursor.advance.1, cursor.advance.2)
  | .peek distance => (.char (cursor.peek? distance), cursor)
  | .eat pattern => (.truth (cursor.eat pattern).1, (cursor.eat pattern).2)
  | .eatWhile accepts => (.silence, cursor.eatWhile accepts)
  | .substring start stop => (.text (cursor.substring start stop), cursor)

/-- The cursor behind some requests. -/
def run (cursor : TextCursor) (requests : List Request) : TextCursor :=
  requests.foldl (fun cursor request => (request.perform cursor).2) cursor

/-- The texts that fit a pattern. -/
inductive Pattern.Takes : Pattern → List Char → Prop
  | single (wanted : Char) : Takes (.single wanted) [wanted]
  | word (wanted : List Char) : Takes (.word wanted) wanted
  | satisfying {accepts : Char → Bool} {char : Char} (accepted : accepts char) :
      Takes (.satisfying accepts) [char]

/-- How a request is answered at an offset of a text, and the offset behind it. -/
inductive Answers (chars : List Char) (position : Nat) : Request → Reply → Nat → Prop
  | advanced {char : Char} {next : Nat} (between : Between position next [char] chars) :
      Answers chars position .advance (.char (some char)) next
  | ended (ends : position = Text.byteSize chars) :
      Answers chars position .advance (.char none) position
  | peeked {ahead : List Char} (distance : Nat)
      (between : Between position (Text.byteSize chars) ahead chars) :
      Answers chars position (.peek distance) (.char ahead[distance]?) position
  | ate {pattern : Pattern} {taken : List Char} {next : Nat} (takes : pattern.Takes taken)
      (between : Between position next taken chars) :
      Answers chars position (.eat pattern) (.truth true) next
  | refused {pattern : Pattern}
      (none : ∀ taken next, pattern.Takes taken → ¬Between position next taken chars) :
      Answers chars position (.eat pattern) (.truth false) position
  | passed {accepts : Char → Bool} {skipped : List Char} {next : Nat}
      (between : Between position next skipped chars) (all : ∀ char ∈ skipped, accepts char)
      (stops : next = Text.byteSize chars ∨
        ∃ char stop, Between next stop [char] chars ∧ accepts char = false) :
      Answers chars position (.eatWhile accepts) .silence next
  | cut {start stop : Nat} {piece : List Char}
      (between : Between (min start (min stop (Text.byteSize chars)))
        (min stop (Text.byteSize chars)) piece chars) :
      Answers chars position (.substring start stop) (.text (String.ofList piece)) position
  | uncut {start stop : Nat}
      (inside : ¬(Text.isBoundary (min start (min stop (Text.byteSize chars))) chars ∧
        Text.isBoundary (min stop (Text.byteSize chars)) chars)) :
      Answers chars position (.substring start stop) (.text "") position

/-- No answer takes the cursor back. -/
theorem Answers.le {chars : List Char} {position next : Nat} {request : Request} {reply : Reply}
    (answers : Answers chars position request reply next) : position ≤ next := by
  cases answers with
  | advanced between => exact between.le
  | ate _ between => exact between.le
  | passed between => exact between.le
  | ended | peeked | refused | cut | uncut => exact le_rfl

variable (cursor : TextCursor)

/-- What is ahead of a cursor stands between its position and the end of the text. -/
theorem between_rest :
    Between cursor.position (Text.byteSize cursor.text) cursor.rest cursor.text := by
  refine ⟨cursor.passed.reverse, [], ?_, ?_, ?_⟩
  · rw [text, List.append_nil]
  · rw [position, Text.byteSize_reverse]
  · rw [text, position, Text.byteSize_append, Text.byteSize_reverse]

/-- A cursor with nothing ahead stands at the end of its text. -/
theorem position_eq_of_rest_nil (none : cursor.rest = []) :
    cursor.position = Text.byteSize cursor.text := by
  obtain ⟨-, -, -, -, size⟩ := cursor.between_rest
  simpa [none] using size

/-- A cursor passes what stands between its old and its new position. -/
theorem between_skip (count : Nat) :
    Between cursor.position (cursor.skip count).position (cursor.rest.take count)
      cursor.text := by
  refine ⟨cursor.passed.reverse, cursor.rest.drop count, ?_, ?_, ?_⟩
  · rw [text, List.take_append_drop]
  · rw [position, Text.byteSize_reverse]
  · rw [position_skip]

/-- What stands at the position of a cursor is at the front of what is ahead of it. -/
theorem prefix_rest_iff {taken : List Char} :
    taken <+: cursor.rest ↔ ∃ next, Between cursor.position next taken cursor.text := by
  constructor
  · rintro ⟨after, ahead⟩
    refine ⟨_, cursor.passed.reverse, after, ?_, ?_, rfl⟩
    · rw [text, ahead]
    · rw [position, Text.byteSize_reverse]
  · rintro ⟨next, before, after, whole, size, -⟩
    exact ⟨after, (rest_eq whole size.symm).symm⟩

/-- A pattern takes a beginning of a text that fits it. -/
theorem Pattern.match?_eq_some_iff {pattern : Pattern} {chars taken : List Char} :
    pattern.match? chars = some taken ↔ pattern.Takes taken ∧ taken <+: chars := by
  constructor
  · intro found
    unfold match? at found
    split at found
    · next wanted first later =>
      split at found
      · next same =>
        cases found
        subst same
        exact ⟨.single _, List.prefix_append [_] later⟩
      · cases found
    · next accepts first later =>
      split at found
      · next accepted =>
        cases found
        exact ⟨.satisfying accepted, List.prefix_append [_] later⟩
      · cases found
    · next wanted =>
      split at found
      · next fits =>
        cases found
        exact ⟨.word _, List.isPrefixOf_iff_prefix.1 fits⟩
      · cases found
    · cases found
  · rintro ⟨takes, later, rfl⟩
    cases takes with
    | single wanted => simp [match?]
    | word => simp [match?]
    | satisfying accepted => simp [match?, accepted]

/-- The length of what is passed is that of what fits the pattern. -/
theorem skip_prefix {taken : List Char} (ahead : taken <+: cursor.rest) :
    Between cursor.position (cursor.skip taken.length).position taken cursor.text := by
  have between := cursor.between_skip taken.length
  rwa [← List.prefix_iff_eq_take.1 ahead] at between

/-- What fits is skipped. -/
theorem eat_of_match? {pattern : Pattern} {taken : List Char}
    (found : pattern.match? cursor.rest = some taken) :
    cursor.eat pattern = (true, cursor.skip taken.length) := by
  rw [eat, found]

/-- Where nothing fits, the cursor stays. -/
theorem eat_of_no_match? {pattern : Pattern} (found : pattern.match? cursor.rest = none) :
    cursor.eat pattern = (false, cursor) := by
  rw [eat, found]

/-- Eating answers whether the pattern fits, and skips just what fits. -/
theorem eat_answers (pattern : Pattern) :
    Answers cursor.text cursor.position (.eat pattern) (.truth (cursor.eat pattern).1)
      (cursor.eat pattern).2.position := by
  cases found : pattern.match? cursor.rest with
  | some taken =>
      obtain ⟨takes, ahead⟩ := Pattern.match?_eq_some_iff.1 found
      rw [eat_of_match? _ found]
      exact .ate takes (cursor.skip_prefix ahead)
  | none =>
      rw [eat_of_no_match? _ found]
      refine .refused fun taken next takes between => ?_
      have ahead := cursor.prefix_rest_iff.2 ⟨next, between⟩
      rw [Pattern.match?_eq_some_iff.2 ⟨takes, ahead⟩] at found
      cases found

/-- Advancing answers with the next character, and skips just that. -/
theorem advance_answers :
    Answers cursor.text cursor.position .advance (.char cursor.advance.1)
      cursor.advance.2.position := by
  cases ahead : cursor.rest with
  | nil =>
      have stands : cursor.advance = (none, cursor) := by rw [advance, ahead]
      rw [stands]
      exact .ended (cursor.position_eq_of_rest_nil ahead)
  | cons first later =>
      have moves : cursor.advance = (some first, cursor.skip 1) := by rw [advance, ahead]
      rw [moves]
      exact .advanced (cursor.skip_prefix (ahead ▸ List.prefix_append [first] later))

/-- What is left begins with a character that is not accepted. -/
theorem eatWhile_rest (accepts : Char → Bool) :
    (cursor.eatWhile accepts).rest = cursor.rest.dropWhile accepts := by
  have whole := cursor.rest.takeWhile_append_dropWhile (p := accepts)
  calc cursor.rest.drop (cursor.rest.takeWhile accepts).length
    _ = (cursor.rest.takeWhile accepts ++ cursor.rest.dropWhile accepts).drop
          (cursor.rest.takeWhile accepts).length := by rw [whole]
    _ = cursor.rest.dropWhile accepts := List.drop_left

/-- The first character that is not skipped fails, or there is none. -/
theorem eatWhile_answers (accepts : Char → Bool) :
    Answers cursor.text cursor.position (.eatWhile accepts) .silence
      (cursor.eatWhile accepts).position := by
  let next := cursor.eatWhile accepts
  have text : next.text = cursor.text := text_skip _ _
  refine .passed (cursor.skip_prefix (List.takeWhile_prefix accepts))
    (fun char member => List.mem_takeWhile_imp member) ?_
  cases left : next.rest with
  | nil =>
      left
      rw [← text]
      exact next.position_eq_of_rest_nil left
  | cons char later =>
      right
      have ahead : [char] <+: next.rest := ⟨later, left.symm⟩
      obtain ⟨stop, between⟩ := next.prefix_rest_iff.1 ahead
      have stops := List.head?_dropWhile_not accepts cursor.rest
      rw [← cursor.eatWhile_rest, left] at stops
      exact ⟨char, stop, text ▸ between, by simpa using stops⟩

/-- Skipping is eating one character after the other, until none is eaten. -/
theorem eatWhile_eq (accepts : Char → Bool) :
    cursor.eatWhile accepts =
      match cursor.eat (.satisfying accepts) with
      | (true, next) => next.eatWhile accepts
      | (false, _) => cursor := by
  obtain ⟨passed, rest⟩ := cursor
  cases rest with
  | nil => rfl
  | cons first later =>
      by_cases accepted : accepts first
      · simp [eat, Pattern.match?, eatWhile, skip, accepted]
      · simp [eat, Pattern.match?, eatWhile, skip, accepted]

/-- A range is answered with the piece between two boundaries, and the cursor stays. -/
theorem substring_answers (start stop : Nat) :
    Answers cursor.text cursor.position (.substring start stop)
      (.text (cursor.substring start stop)) cursor.position := by
  let limit := min stop (Text.byteSize cursor.text)
  by_cases outside : Text.isBoundary (min start limit) cursor.text ∧
      Text.isBoundary limit cursor.text
  · obtain ⟨piece, found⟩ := Text.exists_slice outside.1 outside.2 (min_le_right start limit)
    have shown : cursor.substring start stop = String.ofList piece := by
      rw [substring, found]
      rfl
    rw [shown]
    exact .cut (Text.slice?_eq_some_iff.1 found)
  · have none : Text.slice? (min start limit) limit cursor.text = none := by
      rw [Option.eq_none_iff_forall_ne_some]
      intro piece found
      have between := Text.slice?_eq_some_iff.1 found
      exact outside ⟨between.starts, between.stops⟩
    have shown : cursor.substring start stop = "" := by
      rw [substring, none]
      rfl
    rw [shown]
    exact .uncut outside

/-- Every request is answered as the text demands. -/
theorem perform_answers (request : Request) :
    Answers cursor.text cursor.position request (request.perform cursor).1
      (request.perform cursor).2.position := by
  cases request with
  | advance => exact cursor.advance_answers
  | peek distance => exact .peeked distance cursor.between_rest
  | eat pattern => exact cursor.eat_answers pattern
  | eatWhile accepts => exact cursor.eatWhile_answers accepts
  | substring start stop => exact cursor.substring_answers start stop

theorem perform_text (request : Request) : (request.perform cursor).2.text = cursor.text := by
  cases request with
  | advance =>
      change cursor.advance.2.text = _
      unfold advance
      split
      · rfl
      · exact text_skip _ _
  | peek distance => rfl
  | eat pattern =>
      change (cursor.eat pattern).2.text = _
      unfold eat
      split
      · exact text_skip _ _
      · rfl
  | eatWhile accepts => exact text_skip _ _
  | substring start stop => rfl

/-- No request changes the text. -/
theorem run_text (requests : List Request) : (cursor.run requests).text = cursor.text := by
  induction requests generalizing cursor with
  | nil => rfl
  | cons request requests inductionHypothesis =>
      exact (inductionHypothesis _).trans (cursor.perform_text request)

/-- After any requests a cursor stands on a boundary of its text, and the text from there on can be
cut out. It answers the next request as the text demands at this offset, and does not go back. To
skip characters is to eat them one after the other. -/
theorem run_answers (text : String) (requests : List Request) :
    let cursor := (ofText text).run requests
    let chars := text.toList
    (Text.isBoundary cursor.position chars ∧ cursor.position ≤ Text.byteSize chars ∧
      Text.slice? cursor.position (Text.byteSize chars) chars = some cursor.rest) ∧
    (∀ request : Request,
      Answers chars cursor.position request (request.perform cursor).1
        (request.perform cursor).2.position ∧
      cursor.position ≤ (request.perform cursor).2.position) ∧
    ∀ accepts, cursor.eatWhile accepts =
      match cursor.eat (.satisfying accepts) with
      | (true, next) => next.eatWhile accepts
      | (false, _) => cursor := by
  intro cursor chars
  have text : cursor.text = chars := (ofText text).run_text requests
  have rest := cursor.between_rest
  rw [text] at rest
  refine ⟨⟨rest.starts, rest.le, Text.slice?_eq_some_iff.2 rest⟩, fun request => ?_,
    cursor.eatWhile_eq⟩
  have answers := cursor.perform_answers request
  rw [text] at answers
  exact ⟨answers, answers.le⟩

/-- Offsets inside a character and past the end. -/
example :
    let cursor := (ofText "é->a").run [.eat (.single 'é'), .eat (.word "->b".toList)]
    cursor.position = 2 ∧ cursor.substring 0 9 = "é->a" ∧ cursor.substring 1 3 = "" ∧
      cursor.substring 4 2 = "" := by
  decide

end TextCursor

end FrontEnd
