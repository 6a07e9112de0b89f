/-
This file cuts a text into lines. The line table of a source holds the places of the cuts, so the
text of a line is what stands between two line breaks.
-/

import FrontEnd.Proofs.Lines
import FrontEnd.Proofs.Source

namespace FrontEnd

namespace Text

/-- No character ends the line. -/
def Unbroken (chars : List Char) : Prop := ∀ char ∈ chars, char ≠ '\n' ∧ char ≠ '\r'

/-- What breaks a line before the rest of a text. -/
inductive Break (rest : List Char) : List Char → Prop
  | lineFeed : Break rest ['\n']
  | carriageReturn (alone : rest.head? ≠ some '\n') : Break rest ['\r']
  | both : Break rest ['\r', '\n']

/-- The number of line breaks in a text. -/
def breaks : List Char → Nat
  | [] => 0
  | char :: rest => (if Source.endsLine char rest then 1 else 0) + breaks rest

/-- A line stands between two line breaks, or between a line break and an end of the text, and has
no line break inside. -/
structure LineIn (chars before line ending after : List Char) : Prop where
  whole : chars = before ++ (line ++ (ending ++ after))
  opens : before = [] ∨
    ∃ front last, before = front ++ last ∧ Break (line ++ (ending ++ after)) last
  unbroken : Unbroken line
  closes : (ending = [] ∧ after = []) ∨ Break after ending

variable {char : Char} {chars line ending rest : List Char}

/-- What ends a line is made of line feeds and carriage returns. -/
theorem Break.mem (breaks : Break rest ending) : ∀ char ∈ ending, char = '\n' ∨ char = '\r' := by
  cases breaks <;> simp

/-- A line break stays one before the front of what follows it. -/
theorem Break.front {first second : List Char} (breaks : Break (first ++ second) ending) :
    Break first ending := by
  cases breaks with
  | lineFeed => exact .lineFeed
  | both => exact .both
  | carriageReturn alone =>
      refine .carriageReturn fun feed => alone ?_
      rw [List.head?_append, feed, Option.some_or]

theorem endsLine_of_plain (feed : char ≠ '\n') (carriage : char ≠ '\r') :
    Source.endsLine char rest = false := by
  simp [Source.endsLine, feed, carriage]

/-- A line and its end add one break to those behind them. -/
theorem breaks_append_break (unbroken : Unbroken line) (breaks : Break rest ending) :
    Text.breaks (line ++ (ending ++ rest)) = Text.breaks rest + 1 := by
  induction line with
  | nil =>
      cases breaks with
      | lineFeed => exact Nat.add_comm _ _
      | both =>
          simp only [List.nil_append, List.cons_append, Text.breaks]
          simp [Source.endsLine, Nat.add_comm]
      | carriageReturn alone =>
          simp only [List.nil_append, List.cons_append, Text.breaks]
          simp [Source.endsLine, alone, Nat.add_comm]
  | cons char others inductionHypothesis =>
      obtain ⟨⟨feed, carriage⟩, later⟩ := List.forall_mem_cons.1 unbroken
      rw [List.cons_append, Text.breaks, endsLine_of_plain feed carriage,
        inductionHypothesis later]
      exact Nat.zero_add _

/-- The first line of a text is all of it, or it ends where the line table begins. -/
theorem first_line (offset : Nat) (chars : List Char) :
    (Unbroken chars ∧ Source.lineStartsFrom offset chars = []) ∨
    ∃ line ending rest, chars = line ++ (ending ++ rest) ∧ Unbroken line ∧ Break rest ending ∧
      let next := offset + byteSize (line ++ ending)
      Source.lineStartsFrom offset chars = next :: Source.lineStartsFrom next rest := by
  induction chars generalizing offset with
  | nil => exact .inl ⟨nofun, rfl⟩
  | cons char rest inductionHypothesis =>
      by_cases feed : char = '\n'
      · subst feed
        exact .inr ⟨[], ['\n'], rest, rfl, nofun, .lineFeed, rfl⟩
      by_cases carriage : char = '\r'
      · subst carriage
        by_cases alone : rest.head? = some '\n'
        · obtain ⟨others, rfl⟩ := List.head?_eq_some_iff.1 alone
          exact .inr ⟨[], ['\r', '\n'], others, rfl, nofun, .both, rfl⟩
        · refine .inr ⟨[], ['\r'], rest, rfl, nofun, .carriageReturn alone, ?_⟩
          exact if_pos (by simp [Source.endsLine, alone])
      · have goesOn : Source.lineStartsFrom offset (char :: rest) =
            Source.lineStartsFrom (offset + char.utf8Size) rest :=
          if_neg (by rw [endsLine_of_plain feed carriage]; decide)
        rw [goesOn]
        rcases inductionHypothesis (offset + char.utf8Size) with
          ⟨unbroken, none⟩ | ⟨line, ending, others, rfl, unbroken, breaks, starts⟩
        · exact .inl ⟨List.forall_mem_cons.2 ⟨⟨feed, carriage⟩, unbroken⟩, none⟩
        · refine .inr ⟨char :: line, ending, others, rfl,
            List.forall_mem_cons.2 ⟨⟨feed, carriage⟩, unbroken⟩, breaks, ?_⟩
          rw [starts, List.cons_append, byteSize_cons, Nat.add_assoc]

/-- Every entry of the line table starts a line, whose number is that of the line breaks before it.
The next entry is where this line ends, if it ends with a line break. -/
theorem exists_lineIn {offset number start : Nat} {chars : List Char}
    (starts : (offset :: Source.lineStartsFrom offset chars)[number]? = some start) :
    ∃ before line ending after, LineIn chars before line ending after ∧
      breaks before = number ∧ offset + byteSize before = start ∧
      ((ending = [] ∧ (Source.lineStartsFrom offset chars)[number]? = none) ∨
        (Source.lineStartsFrom offset chars)[number]? =
          some (start + byteSize (line ++ ending))) := by
  induction number generalizing offset chars with
  | zero =>
      obtain rfl : offset = start := Option.some.inj starts
      rcases first_line offset chars with
        ⟨unbroken, none⟩ | ⟨line, ending, rest, rfl, unbroken, breaks, next⟩
      · refine ⟨[], chars, [], [], ⟨?_, .inl rfl, unbroken, .inl ⟨rfl, rfl⟩⟩, rfl, rfl,
          .inl ⟨rfl, ?_⟩⟩
        · simp
        · rw [none]
          rfl
      · refine ⟨[], line, ending, rest, ⟨rfl, .inl rfl, unbroken, .inr breaks⟩, rfl, rfl, .inr ?_⟩
        rw [next]
        rfl
  | succ number inductionHypothesis =>
      rcases first_line offset chars with
        ⟨-, none⟩ | ⟨line, ending, rest, rfl, unbroken, isBreak, next⟩
      · rw [none] at starts
        cases starts
      · rw [next, List.getElem?_cons_succ] at starts
        obtain ⟨before, shown, ending', after, inside, count, place, stop⟩ :=
          inductionHypothesis starts
        have whole := inside.whole
        refine ⟨line ++ (ending ++ before), shown, ending', after,
          ⟨?_, .inr ?_, inside.unbroken, inside.closes⟩, ?_, ?_, ?_⟩
        · rw [whole]
          simp
        · rcases inside.opens with rfl | ⟨front, last, rfl, opens⟩
          · rw [List.nil_append] at whole
            exact ⟨line, ending, by simp, whole ▸ isBreak⟩
          · exact ⟨line ++ (ending ++ front), last, by simp, opens⟩
        · rw [breaks_append_break unbroken (whole ▸ isBreak).front, count]
        · rw [← place]
          simp only [byteSize_append]
          omega
        · rw [next, List.getElem?_cons_succ]
          exact stop

end Text

namespace Source

variable {source : Source} {offset : Nat}

/-- A location where the line must be in the table and start no later than the offset. -/
def locate? (source : Source) (offset : Nat) : Option Location := do
  let line := source.lineStarts.countP (· ≤ offset)
  let start ← (0 :: source.lineStarts)[line]?
  if start ≤ offset then return ⟨line, offset - start⟩ else none

/-- The text of a line that must be in the table and start and end between two characters. -/
def lineText? (source : Source) (line : Nat) : Option (List Char) := do
  let start ← (0 :: source.lineStarts)[line]?
  let stop := source.lineStarts[line]?.getD source.length
  let piece ← Text.slice? start stop source.chars
  return (piece.reverse.dropWhile fun char => char = '\n' || char = '\r').reverse

theorem locate?_eq {location : Location} (located : source.locate offset = .ok location) :
    source.locate? offset = some location := by
  obtain ⟨line, start, starts, stands⟩ := locate_table located
  have distance : offset - start = location.column := by omega
  rw [locate?, ← line, starts, Option.bind_eq_bind, Option.bind_some, if_pos (by omega), distance]
  rfl

/-- Only the line break at the end of a line is left out of its text. -/
theorem trim_line {line ending : List Char} (unbroken : Text.Unbroken line)
    (plain : ∀ char ∈ ending, char = '\n' ∨ char = '\r') :
    ((line ++ ending).reverse.dropWhile fun char => char = '\n' || char = '\r').reverse =
      line := by
  have dropped : ∀ char ∈ ending.reverse, (char = '\n' || char = '\r') = true := by
    simpa using plain
  have stays : line.reverse.dropWhile (fun char => char = '\n' || char = '\r') = line.reverse := by
    rw [List.dropWhile_eq_self_iff]
    intro filled
    have member := List.mem_reverse.1 (List.getElem_mem filled)
    simpa using unbroken _ member
  rw [List.reverse_append, List.dropWhile_append_of_pos dropped, stays, List.reverse_reverse]

/-- The last number of a list stands for all that are missing behind it. -/
theorem getD_concat (numbers : List Nat) (last index : Nat) :
    (numbers ++ [last]).getD index last = numbers.getD index last := by
  induction numbers generalizing index with
  | nil => cases index <;> rfl
  | cons first rest inductionHypothesis =>
      cases index with
      | zero => rfl
      | succ index => exact inductionHypothesis index

/-- The text that is cut out for a line of the table is the line. -/
theorem lineText_lineIn {number start : Nat}
    (starts : (0 :: source.lineStarts)[number]? = some start) :
    source.lineText? number = some (source.lineText number) ∧
    ∃ before ending after, Text.LineIn source.chars before (source.lineText number) ending after ∧
      Text.breaks before = number ∧ Text.byteSize before = start ∧
      (ending = [] ∨ source.lineStarts[number]? =
        some (start + Text.byteSize (source.lineText number ++ ending))) := by
  obtain ⟨before, line, ending, after, inside, count, place, stop⟩ := Text.exists_lineIn starts
  rw [Nat.zero_add] at place
  have ends : source.lineStarts[number]?.getD source.length =
      start + Text.byteSize (line ++ ending) := by
    rcases stop with ⟨rfl, none⟩ | found
    · have last : after = [] := by
        rcases inside.closes with ⟨-, last⟩ | isBreak
        · exact last
        · cases isBreak
      have none' : source.lineStarts[number]? = Option.none := none
      rw [none', Option.getD_none, length, inside.whole, last, ← place]
      simp
    · exact congrArg (Option.getD · source.length) found
  have cut : Text.slice? start (start + Text.byteSize (line ++ ending)) source.chars =
      some (line ++ ending) := by
    rw [inside.whole, ← place, ← List.append_assoc line]
    exact Text.slice?_append before (line ++ ending) after
  have plain : ∀ char ∈ ending, char = '\n' ∨ char = '\r' := by
    rcases inside.closes with ⟨rfl, -⟩ | isBreak
    · simp
    · exact isBreak.mem
  have trimmed := trim_line inside.unbroken plain
  have checked : source.lineText? number = some line := by
    simp only [lineText?, starts, ends, cut, Option.bind_eq_bind, Option.bind_some, trimmed]
    rfl
  have shown : source.lineText number = line := by
    have startIndex : (0 :: source.lineStarts).getD number source.length = start := by
      rw [List.getD_eq_getElem?_getD, starts, Option.getD_some]
    have stopIndex : (0 :: source.lineStarts).getD (number + 1) source.length =
        start + Text.byteSize (line ++ ending) := by
      rw [List.getD_eq_getElem?_getD, List.getElem?_cons_succ, ends]
    rw [lineText, getD_concat, getD_concat, startIndex, stopIndex, cut, Option.getD_some, trimmed]
  rw [shown]
  refine ⟨checked, before, ending, after, inside, count, place, ?_⟩
  exact stop.imp And.left id

/-- The number behind the front of a list that is up to a bound is above the bound. -/
theorem lt_of_getElem?_takeWhile {numbers : List Nat} {bound stop : Nat}
    (behind : numbers[(numbers.takeWhile (· ≤ bound)).length]? = some stop) : bound < stop := by
  induction numbers with
  | nil => cases behind
  | cons first rest inductionHypothesis =>
      by_cases within : first ≤ bound
      · rw [List.takeWhile_cons_of_pos (by simpa using within)] at behind
        exact inductionHypothesis behind
      · rw [List.takeWhile_cons_of_neg (by simpa using within)] at behind
        obtain rfl := Option.some.inj behind
        exact Nat.lt_of_not_le within

/-- Around an offset stands the line of its location. -/
theorem lineText_around {location : Location} (located : source.locate offset = .ok location) :
    source.locate? offset = some location ∧
    source.lineText? location.line = some (source.lineText location.line) ∧
    ∃ before ending after,
      Text.LineIn source.chars before (source.lineText location.line) ending after ∧
      Text.breaks before = location.line ∧ Text.byteSize before + location.column = offset ∧
      (ending = [] ∨
        offset < Text.byteSize (before ++ (source.lineText location.line ++ ending))) := by
  obtain ⟨line, start, starts, stands⟩ := locate_table located
  obtain ⟨checked, before, ending, after, inside, count, rfl, stop⟩ := lineText_lineIn starts
  refine ⟨locate?_eq located, checked, before, ending, after, inside, count, stands, ?_⟩
  refine stop.imp_right fun found => ?_
  rw [line, ← length_takeWhile_sorted source.lineStarts_sorted offset] at found
  rw [Text.byteSize_append, line, ← length_takeWhile_sorted source.lineStarts_sorted offset]
  exact lt_of_getElem?_takeWhile found

end Source

end FrontEnd
