/-
This file compares the line table of a source with a scan of its bytes, one after the other. Both
give the same line and column to every offset, and later offsets come later in the text.
-/

import FrontEnd.Source
import Mathlib.Data.List.Basic
import Mathlib.Data.List.TakeWhile

namespace FrontEnd

namespace Source

/-- The UTF-8 form of a source. -/
def bytes (source : Source) : List UInt8 := source.text.toUTF8.data.toList

theorem bytes_eq (source : Source) :
    source.bytes = source.chars.flatMap String.utf8EncodeChar := by
  have encoded : source.text.toUTF8 = source.chars.utf8Encode := String.utf8Encode_toList.symm
  rw [bytes, encoded]
  exact List.toList_data_toByteArray

end Source

/-- A text has as many bytes as its size says. -/
theorem length_flatMap_utf8EncodeChar (chars : List Char) :
    (chars.flatMap String.utf8EncodeChar).length = Text.byteSize chars := by
  induction chars with
  | nil => rfl
  | cons char rest inductionHypothesis =>
      rw [List.flatMap_cons, List.length_append, String.length_utf8EncodeChar, inductionHypothesis,
        Text.byteSize_cons]

/-- A source has as many bytes as its length says. -/
theorem Source.length_bytes (source : Source) : source.bytes.length = source.length := by
  rw [bytes_eq, length_flatMap_utf8EncodeChar, length]

/-- A byte below 128 is the code of its character. The bytes of wider characters are above. -/
theorem toNat_of_mem_utf8EncodeChar {char : Char} {byte : UInt8}
    (member : byte ∈ String.utf8EncodeChar char) (low : byte.toNat < 128) :
    char.toNat = byte.toNat := by
  have code : char.toNat = char.val.toNat := rfl
  rw [code]
  simp only [String.utf8EncodeChar] at member
  split at member
  · obtain rfl := List.mem_singleton.1 member
    rw [UInt8.toNat_ofNat']
    omega
  · split_ifs at member <;>
      simp only [List.mem_cons, List.not_mem_nil, or_false] at member <;>
      rcases member with rfl | rfl | rfl | rfl <;>
      rw [UInt8.toNat_ofNat'] at low <;>
      omega

/-- The byte of a narrow character stands in no other character. -/
theorem eq_of_mem_utf8EncodeChar {char narrow : Char} {byte : UInt8}
    (code : narrow.toNat = byte.toNat) (low : byte.toNat < 128)
    (member : byte ∈ String.utf8EncodeChar char) : char = narrow :=
  Char.toNat_inj.1 ((toNat_of_mem_utf8EncodeChar member low).trans code.symm)

theorem head?_flatMap_utf8EncodeChar (chars : List Char) :
    (chars.flatMap String.utf8EncodeChar).head? = some 10 ↔ chars.head? = some '\n' := by
  cases chars with
  | nil => simp
  | cons char rest =>
      have filled : String.utf8EncodeChar char ≠ [] := by
        rw [← List.length_pos_iff, String.length_utf8EncodeChar]
        exact char.utf8Size_pos
      rw [List.head?_cons, Option.some_inj, List.flatMap_cons,
        List.head?_append_of_ne_nil _ filled]
      constructor
      · intro head
        exact eq_of_mem_utf8EncodeChar rfl (by decide) (List.mem_of_mem_head? head)
      · rintro rfl
        rfl

/-- A line feed ends a line, and so does a carriage return that no line feed follows. -/
def breaksLine (byte : UInt8) (rest : List UInt8) : Bool :=
  byte = 10 || (byte = 13 && rest.head? != some 10)

/-- The offsets just after the line ends of some bytes that start at an offset. -/
def breaksFrom : Nat → List UInt8 → List Nat
  | _, [] => []
  | offset, byte :: rest =>
      if breaksLine byte rest then (offset + 1) :: breaksFrom (offset + 1) rest
      else breaksFrom (offset + 1) rest

/-- Bytes that are no line ends are passed over. -/
theorem breaksFrom_append {offset : Nat} {front : List UInt8}
    (none : ∀ byte ∈ front, byte ≠ 10 ∧ byte ≠ 13) (rest : List UInt8) :
    breaksFrom offset (front ++ rest) = breaksFrom (offset + front.length) rest := by
  induction front generalizing offset with
  | nil => rfl
  | cons byte front inductionHypothesis =>
      obtain ⟨⟨feed, carriage⟩, others⟩ := List.forall_mem_cons.1 none
      have goesOn : breaksLine byte (front ++ rest) = false := by simp [breaksLine, feed, carriage]
      rw [List.cons_append, breaksFrom, goesOn, if_neg (by decide), inductionHypothesis others,
        List.length_cons, Nat.add_right_comm, Nat.add_assoc]

/-- Line ends stand among the bytes, so the offsets after them come behind the first one. -/
theorem breaksFrom_bounds (offset : Nat) (bytes : List UInt8) :
    ∀ start ∈ breaksFrom offset bytes, offset < start ∧ start ≤ offset + bytes.length := by
  induction bytes generalizing offset with
  | nil => simp [breaksFrom]
  | cons byte rest inductionHypothesis =>
      intro start member
      rw [List.length_cons]
      have later : start ∈ breaksFrom (offset + 1) rest →
          offset < start ∧ start ≤ offset + (rest.length + 1) := by
        intro inside
        obtain ⟨low, high⟩ := inductionHypothesis (offset + 1) start inside
        omega
      rw [breaksFrom] at member
      split at member
      · rcases List.mem_cons.1 member with rfl | inside
        · omega
        · exact later inside
      · exact later member

/-- The line ends are found in order. -/
theorem breaksFrom_sorted (offset : Nat) (bytes : List UInt8) :
    (breaksFrom offset bytes).Pairwise (· < ·) := by
  induction bytes generalizing offset with
  | nil => exact .nil
  | cons byte rest inductionHypothesis =>
      rw [breaksFrom]
      split
      · exact .cons (fun start inside => (breaksFrom_bounds _ _ start inside).1)
          (inductionHypothesis _)
      · exact inductionHypothesis _

/-- The line table of a text can be made from its bytes. -/
theorem lineStartsFrom_eq (offset : Nat) (chars : List Char) :
    Source.lineStartsFrom offset chars =
      breaksFrom offset (chars.flatMap String.utf8EncodeChar) := by
  induction chars generalizing offset with
  | nil => rfl
  | cons char rest inductionHypothesis =>
      rw [Source.lineStartsFrom, List.flatMap_cons]
      have next := inductionHypothesis (offset + char.utf8Size)
      by_cases feed : char = '\n'
      · subst feed
        exact congrArg (_ :: ·) next
      by_cases carriage : char = '\r'
      · subst carriage
        have same : breaksLine 13 (rest.flatMap String.utf8EncodeChar) =
            Source.endsLine '\r' rest := by
          rw [Bool.eq_iff_iff]
          simp [breaksLine, Source.endsLine, head?_flatMap_utf8EncodeChar]
        rw [next, ← same]
        rfl
      · have none : ∀ byte ∈ String.utf8EncodeChar char, byte ≠ 10 ∧ byte ≠ 13 := by
          refine fun byte member => ⟨?_, ?_⟩
          · rintro rfl
            exact feed (eq_of_mem_utf8EncodeChar rfl (by decide) member)
          · rintro rfl
            exact carriage (eq_of_mem_utf8EncodeChar rfl (by decide) member)
        rw [breaksFrom_append none, String.length_utf8EncodeChar, ← next]
        exact if_neg (by simp [Source.endsLine, feed, carriage])

namespace Location

/-- The place after a byte. -/
def past (place : Location) (byte : UInt8) (rest : List UInt8) : Location :=
  if breaksLine byte rest then ⟨place.line + 1, 0⟩ else ⟨place.line, place.column + 1⟩

/-- The place that a scan of some bytes comes to from another place. -/
def scan : Nat → Location → List UInt8 → Location
  | 0, place, _ | _, place, [] => place
  | count + 1, place, byte :: rest => scan count (place.past byte rest) rest

/-- A place comes before another one on an earlier line, or on the same line further left. -/
def Before (place later : Location) : Prop :=
  place.line < later.line ∨ (place.line = later.line ∧ place.column < later.column)

variable {first second third : Location}

/-- A place before another one is before all behind that. -/
theorem Before.trans (start : first.Before second) (finish : second.Before third) :
    first.Before third := by
  unfold Before at *
  omega

theorem Before.ne (before : first.Before second) : first ≠ second := by
  rintro rfl
  unfold Before at before
  omega

/-- Every byte moves the place on. -/
theorem before_past (place : Location) (byte : UInt8) (rest : List UInt8) :
    place.Before (place.past byte rest) := by
  unfold past
  split
  · exact .inl (Nat.lt_succ_self _)
  · exact .inr ⟨rfl, Nat.lt_succ_self _⟩

/-- A scan goes on from the place that it came to. -/
theorem scan_add (count more : Nat) (place : Location) (bytes : List UInt8) :
    scan (count + more) place bytes = scan more (scan count place bytes) (bytes.drop count) := by
  induction count generalizing place bytes with
  | zero => simp [scan]
  | succ count inductionHypothesis =>
      cases bytes with
      | nil => cases more <;> rfl
      | cons byte rest =>
          rw [Nat.add_right_comm, scan, scan, List.drop_succ_cons]
          exact inductionHypothesis _ _

/-- A scan of more bytes comes to a later place. -/
theorem before_scan {count : Nat} {bytes : List UInt8} (positive : 0 < count)
    (fits : count ≤ bytes.length) (place : Location) : place.Before (scan count place bytes) := by
  induction count generalizing place bytes with
  | zero => omega
  | succ count inductionHypothesis =>
      cases bytes with
      | nil => simp at fits
      | cons byte rest =>
          have step := place.before_past byte rest
          rcases Nat.eq_zero_or_pos count with rfl | more
          · simpa [scan] using step
          · exact step.trans (inductionHypothesis more (by simpa using fits) _)

/-- A scan that starts on a line counts the line ends that it passes. Its column is the distance
from the last of them, or from the start of the line. -/
theorem scan_eq {offset start : Nat} (within : start ≤ offset) (line count : Nat)
    {bytes : List UInt8} (fits : count ≤ bytes.length) :
    let passed := (breaksFrom offset bytes).takeWhile (· ≤ offset + count)
    scan count ⟨line, offset - start⟩ bytes =
      ⟨line + passed.length, offset + count - passed.getLast?.getD start⟩ := by
  intro passed
  induction count generalizing offset start line bytes with
  | zero =>
      have none : passed = [] := by
        unfold passed
        cases found : breaksFrom offset bytes with
        | nil => rfl
        | cons first later =>
            have low := (breaksFrom_bounds offset bytes first (by simp [found])).1
            exact List.takeWhile_cons_of_neg (by simpa using low)
      rw [none]
      rfl
  | succ count inductionHypothesis =>
      cases bytes with
      | nil => simp at fits
      | cons byte rest =>
          have fitsRest : count ≤ rest.length := Nat.le_of_succ_le_succ fits
          have place : offset + (count + 1) = offset + 1 + count := by omega
          unfold passed
          rw [scan, past, breaksFrom, place]
          by_cases breaks : breaksLine byte rest
          · -- The new line starts behind the byte, where its column is zero.
            have inner := inductionHypothesis (Nat.le_refl (offset + 1)) (line + 1) fitsRest
            rw [Nat.sub_self] at inner
            rw [if_pos breaks, if_pos breaks, inner,
              List.takeWhile_cons_of_pos (by simp), List.getLast?_cons, List.length_cons]
            simp only [Option.getD_some, Nat.add_assoc, Nat.add_comm 1]
          · have inner := inductionHypothesis (Nat.le_succ_of_le within) line fitsRest
            rw [Nat.succ_sub within] at inner
            rw [if_neg breaks, if_neg breaks, inner]

end Location

/-- The numbers of a sorted list up to a bound stand at its front. -/
theorem length_takeWhile_sorted {numbers : List Nat} (sorted : numbers.Pairwise (· < ·))
    (bound : Nat) : (numbers.takeWhile (· ≤ bound)).length = numbers.countP (· ≤ bound) := by
  induction sorted with
  | nil => rfl
  | @cons first rest above _ inductionHypothesis =>
      by_cases within : first ≤ bound
      · rw [List.takeWhile_cons_of_pos (by simpa using within),
          List.countP_cons_of_pos (by simpa using within), List.length_cons, inductionHypothesis]
      · rw [List.takeWhile_cons_of_neg (by simpa using within), List.length_nil, eq_comm,
          List.countP_eq_zero]
        intro number member
        rcases List.mem_cons.1 member with rfl | later
        · simpa using within
        · have behind := above number later
          simp only [decide_eq_true_eq]
          omega

/-- When a number is put before a list, the last number up to a bound has the count of the numbers
up to the bound for its index. -/
theorem getElem?_length_takeWhile (first : Nat) (numbers : List Nat) (bound : Nat) :
    let front := numbers.takeWhile (· ≤ bound)
    (first :: numbers)[front.length]? = some (front.getLast?.getD first) := by
  intro front
  obtain ⟨rest, whole⟩ : front <+: numbers := List.takeWhile_prefix _
  rw [← whole]
  rcases List.eq_nil_or_concat front with none | ⟨inner, last, same⟩
  · rw [none]
    rfl
  · rw [same]
    simp

namespace Source

variable {source : Source} {offset : Nat}

/-- The line starts of the table are those behind the line ends that the bytes have. -/
theorem lineStarts_eq (source : Source) : source.lineStarts = breaksFrom 0 source.bytes := by
  rw [lineStarts, lineStartsFrom_eq, bytes_eq]

/-- The line table gives the place that a scan of the bytes comes to. -/
theorem locate_eq (source : Source) (offset : Nat) :
    source.locate offset =
      if offset ≤ source.length then .ok (Location.scan offset ⟨0, 0⟩ source.bytes)
      else .error (.outOfRange offset source.length) := by
  rw [locate, checkOffset]
  split
  · next within =>
    have scanned := Location.scan_eq (le_refl 0) 0 offset (source.length_bytes.symm ▸ within)
    simp only [Nat.zero_add, Nat.sub_self] at scanned
    rw [scanned, ← lineStarts_eq]
    rfl
  · rfl

/-- The line starts of the table are in order. -/
theorem lineStarts_sorted (source : Source) : source.lineStarts.Pairwise (· < ·) := by
  rw [lineStarts_eq]
  exact breaksFrom_sorted _ _

/-- No line starts at the front or beyond the end of a source. -/
theorem lineStarts_bounds (source : Source) :
    ∀ start ∈ source.lineStarts, 1 ≤ start ∧ start ≤ source.length := by
  intro start member
  rw [lineStarts_eq] at member
  obtain ⟨low, high⟩ := breaksFrom_bounds _ _ start member
  rw [length_bytes, Nat.zero_add] at high
  exact ⟨low, high⟩

variable {location location' : Location} {offset' : Nat}

/-- A location is the number of line starts up to an offset and the distance from the last one. -/
theorem locate_table (located : source.locate offset = .ok location) :
    location.line = source.lineStarts.countP (· ≤ offset) ∧
      ∃ start, (0 :: source.lineStarts)[location.line]? = some start ∧
        start + location.column = offset := by
  let passed := source.lineStarts.takeWhile (· ≤ offset)
  have found : location = ⟨passed.length, offset - passed.getLast?.getD 0⟩ := by
    rw [locate, checkOffset] at located
    split at located
    · exact (Except.ok.inj located).symm
    · cases located
  have reached : passed.getLast?.getD 0 ≤ offset := by
    cases last : passed.getLast? with
    | none => exact Nat.zero_le offset
    | some start =>
        have member : start ∈ passed := List.mem_of_getLast? last
        simpa using List.mem_takeWhile_imp member
  rw [found]
  refine ⟨length_takeWhile_sorted source.lineStarts_sorted offset, _,
    getElem?_length_takeWhile 0 source.lineStarts offset, ?_⟩
  exact Nat.add_sub_cancel' reached

/-- A later offset is located at a later place. -/
theorem locate_before (located : source.locate offset = .ok location)
    (located' : source.locate offset' = .ok location') (later : offset < offset') :
    location.Before location' := by
  rw [locate_eq] at located located'
  split at located'
  · next within' =>
    rw [if_pos (later.le.trans within')] at located
    obtain rfl := Except.ok.inj located
    obtain rfl := Except.ok.inj located'
    obtain ⟨distance, rfl⟩ := Nat.exists_eq_add_of_lt later
    rw [Nat.add_assoc, Location.scan_add]
    refine Location.before_scan (Nat.succ_pos _) ?_ _
    rw [List.length_drop, length_bytes]
    omega
  · cases located'

/-- The line and the column of an offset are those of a scan of the bytes before it. The line is
the number of line starts up to the offset, and the column is its distance from the start of the
line. Offsets are located in their order. -/
theorem locate_scanned (source : Source) :
    (∀ offset, source.locate offset =
      if offset ≤ source.length then .ok (Location.scan offset ⟨0, 0⟩ source.bytes)
      else .error (.outOfRange offset source.length)) ∧
    source.lineStarts.Pairwise (· < ·) ∧
    (∀ start ∈ source.lineStarts, 1 ≤ start ∧ start ≤ source.length) ∧
    (∀ offset location, source.locate offset = .ok location →
      location.line = source.lineStarts.countP (· ≤ offset) ∧
        ∃ start, (0 :: source.lineStarts)[location.line]? = some start ∧
          start + location.column = offset) ∧
    ∀ offset offset' location location', source.locate offset = .ok location →
      source.locate offset' = .ok location' →
      (offset < offset' ↔ location.Before location') ∧
        (offset = offset' ↔ location = location') := by
  refine ⟨source.locate_eq, source.lineStarts_sorted, source.lineStarts_bounds,
    fun _ _ => locate_table, fun offset offset' location location' located located' => ?_⟩
  rcases Nat.lt_trichotomy offset offset' with earlier | rfl | later
  · have before := locate_before located located' earlier
    exact ⟨iff_of_true earlier before, iff_of_false earlier.ne before.ne⟩
  · obtain rfl := Except.ok.inj (located.symm.trans located')
    exact ⟨iff_of_false (lt_irrefl _) fun before => before.ne rfl, iff_of_true rfl rfl⟩
  · have before := locate_before located' located later
    refine ⟨iff_of_false later.not_gt fun other => ?_, iff_of_false later.ne' before.ne.symm⟩
    exact (before.trans other).ne rfl

/-- A wide character, a carriage return with its line feed and one without: the last place is the
start of the third line. -/
theorem locate_scanned_breaks :
    let source : Source := ⟨"é\r\n\r", none⟩
    source.length = 5 ∧ source.lineStarts = [4, 5] ∧ source.locate 3 = .ok ⟨0, 3⟩ ∧
      source.locate 5 = .ok ⟨2, 0⟩ ∧ (⟨0, 3⟩ : Location).Before ⟨2, 0⟩ ∧
      source.locate 6 = .error (.outOfRange 6 5) := by
  intro source
  obtain ⟨scanned, -, -, -, order⟩ := source.locate_scanned
  have between : source.locate 3 = .ok ⟨0, 3⟩ := by decide +kernel
  have last : source.locate 5 = .ok ⟨2, 0⟩ := by decide +kernel
  refine ⟨by decide +kernel, by decide +kernel, between, last, ?_, ?_⟩
  · exact (order 3 5 _ _ between last).1.1 (by decide)
  · exact (scanned 6).trans (by decide +kernel)

end Source

end FrontEnd
