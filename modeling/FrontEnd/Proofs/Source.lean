/-
This file cuts spans out of a source. There is one between any two boundaries in order, and a
diagnostic that ends on a boundary covers it.
-/

import FrontEnd.Proofs.Token.Lossless
import FrontEnd.Diagnostic.Basic

namespace FrontEnd

namespace Text

variable {start stop offset : Nat} {chars : List Char}

/-- A boundary is the size of some front of a text. -/
theorem isBoundary_iff : isBoundary offset chars ↔
    ∃ before after, chars = before ++ after ∧ byteSize before = offset := by
  constructor
  · intro boundary
    obtain ⟨⟨before, after⟩, cut⟩ := Option.isSome_iff_exists.1 boundary
    exact ⟨before, after, splitBytes?_sound cut⟩
  · rintro ⟨before, after, rfl, rfl⟩
    rw [isBoundary, splitBytes?_append]
    rfl

/-- No boundary lies beyond the end of a text. -/
theorem isBoundary_le (boundary : isBoundary offset chars) : offset ≤ byteSize chars := by
  obtain ⟨before, after, rfl, rfl⟩ := isBoundary_iff.1 boundary
  rw [byteSize_append]
  omega

/-- A boundary is the greatest one that does not pass itself. -/
theorem floorBoundary_eq (boundary : isBoundary offset chars) :
    floorBoundary offset chars = offset := by
  obtain ⟨before, after, rfl, rfl⟩ := isBoundary_iff.1 boundary
  induction before with
  | nil =>
      cases after with
      | nil => rfl
      | cons char rest =>
          have positive := char.utf8Size_pos
          exact if_neg (by rw [byteSize_nil]; omega)
  | cons char rest inductionHypothesis =>
      have inner := inductionHypothesis (isBoundary_iff.2 ⟨rest, after, rfl, rfl⟩)
      rw [List.cons_append, byteSize_cons, floorBoundary, if_pos (Nat.le_add_right _ _),
        Nat.add_sub_cancel_left, inner]

/-- Between two boundaries in order there is a slice. -/
theorem exists_slice (starts : isBoundary start chars) (stops : isBoundary stop chars)
    (ordered : start ≤ stop) : ∃ middle, slice? start stop chars = some middle := by
  obtain ⟨before, after, rfl, rfl⟩ := isBoundary_iff.1 starts
  obtain ⟨before', after', same, rfl⟩ := isBoundary_iff.1 stops
  rcases List.append_eq_append_iff.1 same with ⟨middle, rfl, rfl⟩ | ⟨middle, rfl, rfl⟩
  · rw [byteSize_append]
    exact ⟨middle, slice?_append before middle after'⟩
  · rw [byteSize_append] at ordered ⊢
    have none : middle = [] := by
      by_contra filled
      have positive := byteSize_pos filled
      omega
    subst none
    have empty := slice?_append before' [] after
    simp only [byteSize_nil, Nat.add_zero, List.nil_append] at empty
    exact ⟨[], by simpa using empty⟩

/-- A slice stands in the text between its two ends. -/
theorem slice?_sound {middle : List Char} (cut : slice? start stop chars = some middle) :
    ∃ before after, chars = before ++ (middle ++ after) ∧ byteSize before = start ∧
      start + byteSize middle = stop := by
  unfold slice? at cut
  split at cut
  · rename_i ordered
    simp only [Option.bind_eq_bind, Option.bind_eq_some_iff, Prod.exists, pure] at cut
    obtain ⟨before, rest, first, inside, after, second, same⟩ := cut
    obtain ⟨rfl, size⟩ := splitBytes?_sound first
    obtain ⟨rfl, length⟩ := splitBytes?_sound second
    obtain rfl := Option.some.inj same
    exact ⟨before, after, rfl, size, by omega⟩
  · cases cut

/-- Nothing stands between a boundary and itself. -/
theorem slice?_self (boundary : isBoundary offset chars) :
    slice? offset offset chars = some [] := by
  obtain ⟨before, after, rfl, rfl⟩ := isBoundary_iff.1 boundary
  exact slice?_append before [] after

end Text

namespace Source

variable {source : Source} {start stop offset : Nat}

/-- Every offset within a source has a line and a column. -/
theorem exists_locate (within : offset ≤ source.length) :
    ∃ location, source.locate offset = .ok location := by
  have checked : source.checkOffset offset = .ok () := if_pos within
  rw [locate, checked]
  exact ⟨_, rfl⟩

/-- The span of a slice shows the slice and is located at its start. -/
theorem span_of_located {middle : List Char} {location : Location}
    (cut : Text.slice? start stop source.chars = some middle) (within : stop ≤ source.length)
    (located : source.locate start = .ok location) :
    source.span start stop = .ok ⟨start, String.ofList middle, location⟩ := by
  obtain ⟨-, -, -, -, stands⟩ := Text.slice?_sound cut
  have ordered : start ≤ stop := by omega
  have startChecked : source.checkOffset start = .ok () := if_pos (ordered.trans within)
  have stopChecked : source.checkOffset stop = .ok () := if_pos within
  rw [span, startChecked, stopChecked]
  simp [bind, Except.bind, pure, Except.pure, Nat.not_lt.2 ordered, cut, located]

/-- A range that can be cut out of a source has a span there. -/
theorem span_eq_ok {middle : List Char} (cut : Text.slice? start stop source.chars = some middle)
    (within : stop ≤ source.length) :
    ∃ location, source.span start stop = .ok ⟨start, String.ofList middle, location⟩ := by
  obtain ⟨-, -, -, -, stands⟩ := Text.slice?_sound cut
  obtain ⟨location, located⟩ := exists_locate (show start ≤ source.length by omega)
  exact ⟨location, span_of_located cut within located⟩

end Source

/-- A diagnostic that ends on a boundary of the text is cut nowhere. -/
theorem Diagnostic.span_eq {diagnostic : Diagnostic} {source : Source}
    (stops : Text.isBoundary (diagnostic.offset + diagnostic.length) source.chars) :
    diagnostic.span source =
      source.span diagnostic.offset (diagnostic.offset + diagnostic.length) := by
  have within : diagnostic.offset + diagnostic.length ≤ source.length := Text.isBoundary_le stops
  have startWithin : diagnostic.offset ≤ source.length := by omega
  rw [span, min_eq_left within, min_eq_left startWithin, Text.floorBoundary_eq stops,
    max_eq_left (Nat.le_add_right _ _)]

/-- A token lies in a text with its lexeme at its offset. The marker at the end lies there too. -/
structure Token.LiesIn (token : Token) (chars : List Char) : Prop where
  genuine : token.error = false
  stands : ∃ before after, chars = before ++ (token.lexeme.toList ++ after) ∧
    Text.byteSize before = token.offset

/-- Every token of a text lies in it. -/
theorem tokenize_liesIn {text : String} {tokens : List Token}
    (lexed : tokenize text = .ok tokens) : ∀ token ∈ tokens, token.LiesIn text.toList := by
  obtain ⟨⟨body, rfl, parts⟩, -⟩ := tokenize_parts lexed
  intro token member
  rcases List.mem_append.1 member with inside | last
  · have part := parts token inside
    obtain ⟨before, after, whole, size, -⟩ := Text.slice?_sound part.sliced
    exact ⟨part.genuine, before, after, whole, size⟩
  · rw [List.mem_singleton.1 last]
    exact ⟨rfl, text.toList, [], by simp [Token.eof], rfl⟩

namespace Token.LiesIn

variable {token : Token} {chars : List Char}

theorem stop_eq (lies : token.LiesIn chars) : token.stop = token.offset + token.length := by
  rw [stop, lies.genuine, if_neg (by decide)]

theorem starts (lies : token.LiesIn chars) : Text.isBoundary token.offset chars := by
  obtain ⟨before, after, whole, size⟩ := lies.stands
  exact Text.isBoundary_iff.2 ⟨before, _, whole, size⟩

theorem stops (lies : token.LiesIn chars) : Text.isBoundary token.stop chars := by
  obtain ⟨before, after, whole, size⟩ := lies.stands
  refine Text.isBoundary_iff.2 ⟨before ++ token.lexeme.toList, after, by simp [whole], ?_⟩
  rw [Text.byteSize_append, size, lies.stop_eq, length]

/-- A diagnostic on the front of a token shows this front. -/
theorem shows {source : Source} (lies : token.LiesIn source.chars) {front rest : List Char}
    (parts : token.lexeme.toList = front ++ rest) {diagnostic : Diagnostic}
    (offset : diagnostic.offset = token.offset) (length : diagnostic.length = Text.byteSize front) :
    diagnostic.offset + diagnostic.length ≤ source.length ∧
      ∃ location, diagnostic.span source =
        .ok ⟨diagnostic.offset, String.ofList front, location⟩ := by
  obtain ⟨before, after, whole, size⟩ := lies.stands
  rw [parts, List.append_assoc] at whole
  rw [← offset] at size
  have stops : Text.isBoundary (diagnostic.offset + diagnostic.length) source.chars :=
    Text.isBoundary_iff.2 ⟨before ++ front, rest ++ after, by simp [whole], by
      rw [Text.byteSize_append, size, length]⟩
  have within : diagnostic.offset + diagnostic.length ≤ source.length := Text.isBoundary_le stops
  rw [Diagnostic.span_eq stops]
  refine ⟨within, Source.span_eq_ok ?_ within⟩
  rw [length, ← size, whole]
  exact Text.slice?_append before front (rest ++ after)

end Token.LiesIn

end FrontEnd
