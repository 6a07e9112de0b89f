/-
This file compares the tokens of a text with the longest spellings. Looking at one or two characters
ahead finds the longest spelling at every place.
-/

import FrontEnd.Proofs.Token.Lossless
import Mathlib.Data.Nat.Find

namespace FrontEnd

/-- A word can be longer by any character that goes on with words. -/
theorem IsWord.append {word : List Char} (isWord : IsWord word) {char : Char}
    (continues : Lexer.continuesWord char) : IsWord (word ++ [char]) := by
  obtain ⟨first, more, rfl, starts, others⟩ := isWord_iff.1 isWord
  exact isWord_iff.2 ⟨first, more ++ [char], rfl, starts,
    List.forall_mem_append.2 ⟨others, List.forall_mem_singleton.2 continues⟩⟩

theorem IsDigits.append {digits : List Char} (isDigits : IsDigits digits) {char : Char}
    (digit : char.isDigit) : IsDigits (digits ++ [char]) :=
  ⟨by simp, List.forall_mem_append.2 ⟨isDigits.2, List.forall_mem_singleton.2 digit⟩⟩

/-- A number can be longer by any digit. -/
theorem IsNumeral.append {numeral : List Char} (isNumeral : IsNumeral numeral) {char : Char}
    (digit : char.isDigit) : IsNumeral (numeral ++ [char]) := by
  rcases isNumeral with digits | ⟨whole, fraction, rfl, wholeDigits, fractionDigits⟩
  · exact .inl (digits.append digit)
  · exact .inr ⟨whole, fraction ++ [char], by simp, wholeDigits, fractionDigits.append digit⟩

namespace Lexer

/-- A spelling is the longest one of a text when the text begins with no longer one of any kind. -/
structure IsLongest (text : List Char) (kind : TokenKind) (spelling : List Char) : Prop where
  spelled : kind.HasLexeme (String.ofList spelling)
  begins : spelling <+: text
  longest : ∀ (kind' : TokenKind) (spelling' : List Char),
    kind'.HasLexeme (String.ofList spelling') → spelling' <+: text →
      spelling'.length ≤ spelling.length

/-- A spelling may stand before the rest of a text unless it is a number with a fraction and the
rest begins with a point. -/
def IsFree (kind : TokenKind) (spelling rest : List Char) : Prop :=
  kind = .literal .number → '.' ∈ spelling → rest.head? ≠ some '.'

/-- A spelling stands before a rest when the first characters of the rest do not show that the
spelling goes on. -/
structure Stands (kind : TokenKind) (spelling rest : List Char) : Prop where
  alone : ∀ first, spelling = [first] → ∀ next ∈ rest.head?, pairKind? first next = none
  word : IsWord spelling → ∀ char ∈ rest.head?, continuesWord char = false
  digits : IsNumeral spelling → ∀ char ∈ rest.head?, char.isDigit = false
  whole : IsNumeral spelling → '.' ∉ spelling → rest.head? = some '.' →
    ∀ char ∈ rest.tail.head?, char.isDigit = false
  free : IsFree kind spelling rest

/-- A spelling that stands before a rest is split off from it. -/
theorem Stands.cuts {kind : TokenKind} {spelling rest : List Char}
    (stands : Stands kind spelling rest) (spelled : kind.IsSpelledBy (String.ofList spelling)) :
    Cuts kind spelling rest := by
  have cutsFixed : kind.spelling? = some (String.ofList spelling) → Cuts kind spelling rest := by
    intro fixed
    have apart : ∀ first, (String.ofList spelling).toList = [first] →
        ∀ next ∈ rest.head?, pairKind? first next = none := by
      rw [String.toList_ofList]
      exact stands.alone
    have cuts := cuts_fixed fixed apart
    rwa [String.toList_ofList] at cuts
  unfold TokenKind.IsSpelledBy at spelled
  rw [String.toList_ofList] at spelled
  have cutsWord : IsWord spelling ∧ wordKind (String.ofList spelling) = kind →
      Cuts kind spelling rest := by
    rintro ⟨isWord, rfl⟩
    exact cuts_word isWord (stands.word isWord)
  cases kind with
  | eof => exact spelled.elim
  | identifier => exact cutsWord spelled
  | keyword => exact cutsWord spelled
  | operator => exact cutsFixed spelled
  | bracket => exact cutsFixed spelled
  | symbol => exact cutsFixed spelled
  | literal sort =>
      cases sort with
      | boolean => exact cutsWord spelled
      | number =>
          exact cuts_numeral spelled (stands.digits spelled) (stands.whole spelled)
            (stands.free rfl)
      | string =>
          obtain ⟨contents, quotation⟩ := spelled
          exact cuts_quotation quotation rest

/-- The tokens that a text has when blanks are skipped and the longest spelling is taken at every
other place. A text has none when there is no spelling at some place, or none that is free. -/
inductive Munches : Nat → List Char → List Token → Prop
  | done (offset : Nat) : Munches offset [] [Token.eof offset]
  | blank {offset : Nat} {char : Char} {rest : List Char} {tokens : List Token}
      (isBlank : char ∈ [' ', '\t', '\n', '\r'])
      (later : Munches (offset + char.utf8Size) rest tokens) :
      Munches offset (char :: rest) tokens
  | token {offset : Nat} {kind : TokenKind} {spelling rest : List Char} {tokens : List Token}
      (longest : IsLongest (spelling ++ rest) kind spelling) (free : IsFree kind spelling rest)
      (later : Munches (offset + Text.byteSize spelling) rest tokens) :
      Munches offset (spelling ++ rest) (⟨offset, kind, String.ofList spelling, false⟩ :: tokens)

/-- Where a text begins with a spelling, it begins with a longest one. -/
theorem exists_longest {text : List Char} {kind : TokenKind} {spelling : List Char}
    (spelled : kind.HasLexeme (String.ofList spelling)) (begins : spelling <+: text) :
    ∃ kind' spelling', IsLongest text kind' spelling' := by
  classical
  let reaches (size : Nat) : Prop := ∃ (kind : TokenKind) (spelling : List Char),
    kind.HasLexeme (String.ofList spelling) ∧ spelling <+: text ∧ spelling.length = size
  have reached : reaches spelling.length := ⟨kind, spelling, spelled, begins, rfl⟩
  obtain ⟨kind', spelling', spelled', begins', size⟩ :=
    Nat.findGreatest_spec begins.length_le reached
  refine ⟨kind', spelling', spelled', begins', fun other long spelledOther beginsOther => ?_⟩
  rw [size]
  exact Nat.le_findGreatest beginsOther.length_le ⟨other, long, spelledOther, beginsOther, rfl⟩

section Longest

variable {kind : TokenKind} {spelling rest : List Char}
variable (longest : IsLongest (spelling ++ rest) kind spelling)

include longest

/-- A longest spelling and some characters after it are no spelling. -/
theorem IsLongest.not_spelled (kind' : TokenKind) {more : List Char} (some : more ≠ [])
    (begins : more <+: rest) : ¬kind'.HasLexeme (String.ofList (spelling ++ more)) := by
  intro spelled
  have long := longest.longest kind' _ spelled ((List.prefix_append_right_inj _).2 begins)
  have positive := List.length_pos_iff.2 some
  rw [List.length_append] at long
  omega

/-- A longest spelling and the character after it are no spelling. -/
theorem IsLongest.not_spelled_head (kind' : TokenKind) {char : Char}
    (next : char ∈ rest.head?) : ¬kind'.HasLexeme (String.ofList (spelling ++ [char])) := by
  obtain ⟨later, rfl⟩ := List.head?_eq_some_iff.1 next
  exact longest.not_spelled kind' (List.cons_ne_nil _ _) (List.prefix_append [char] later)

/-- No character that would go on with it follows a longest word. -/
theorem IsLongest.stopsWord (isWord : IsWord spelling) :
    ∀ char ∈ rest.head?, continuesWord char = false := by
  intro char next
  by_contra continues
  rw [Bool.not_eq_false] at continues
  have longer : IsWord (String.ofList (spelling ++ [char])).toList := by
    rw [String.toList_ofList]
    exact isWord.append continues
  exact longest.not_spelled_head _ next (hasLexeme_wordKind longer)

/-- No digit follows a longest number. -/
theorem IsLongest.stopsDigits (numeral : IsNumeral spelling) :
    ∀ char ∈ rest.head?, char.isDigit = false := by
  intro char next
  by_contra digit
  rw [Bool.not_eq_false] at digit
  have longer : IsNumeral (String.ofList (spelling ++ [char])).toList := by
    rw [String.toList_ofList]
    exact numeral.append digit
  exact longest.not_spelled_head (.literal .number) next (.number longer)

/-- No fraction follows a longest number without one. -/
theorem IsLongest.noFraction (numeral : IsNumeral spelling) (noPoint : '.' ∉ spelling)
    (point : rest.head? = some '.') : ∀ char ∈ rest.tail.head?, char.isDigit = false := by
  intro char next
  by_contra digit
  rw [Bool.not_eq_false] at digit
  obtain ⟨tail, rfl⟩ := List.head?_eq_some_iff.1 point
  obtain ⟨later, rfl⟩ := List.head?_eq_some_iff.1 next
  have whole : IsDigits spelling := by
    rcases numeral with digits | ⟨whole, fraction, rfl, -⟩
    · exact digits
    · simp at noPoint
  have fraction : IsDigits [char] := ⟨List.cons_ne_nil _ _, List.forall_mem_singleton.2 digit⟩
  have longer : IsNumeral (String.ofList (spelling ++ ['.', char])).toList := by
    rw [String.toList_ofList]
    exact .inr ⟨spelling, [char], rfl, whole, fraction⟩
  exact longest.not_spelled (.literal .number) (List.cons_ne_nil _ _)
    (List.prefix_append ['.', char] later) (.number longer)

/-- No fixed spelling of two characters begins where the longest one is a single character. -/
theorem IsLongest.apart {first : Char} (single : spelling = [first]) :
    ∀ next ∈ rest.head?, pairKind? first next = none := by
  intro next ahead
  refine Option.eq_none_iff_forall_ne_some.2 fun pair found => ?_
  have spelled := TokenKind.hasLexeme_iff.2 (isSpelledBy_of_spelling? (pairKind?_spelling found))
  refine longest.not_spelled_head pair ahead ?_
  rw [single]
  exact spelled

/-- No character after a longest spelling shows that it goes on, unless it is not free. -/
theorem IsLongest.stands (free : IsFree kind spelling rest) : Stands kind spelling rest where
  alone _ := longest.apart
  word := longest.stopsWord
  digits := longest.stopsDigits
  whole := longest.noFraction
  free := free

/-- A longest spelling is split off from the text, unless it is not free. -/
theorem IsLongest.cuts (free : IsFree kind spelling rest) : Cuts kind spelling rest :=
  (longest.stands free).cuts (TokenKind.hasLexeme_iff.1 longest.spelled)

/-- A text is rejected where its longest spelling is not free. -/
theorem IsLongest.rejected (blocked : ¬IsFree kind spelling rest) :
    ∃ first more distance, spelling = first :: more ∧
      front first (more ++ rest) = .unexpected '.' distance := by
  simp only [IsFree, Classical.not_imp, not_not] at blocked
  obtain ⟨rfl, point, again⟩ := blocked
  have numeral : IsNumeral spelling := by
    have spelled : IsNumeral (String.ofList spelling).toList :=
      TokenKind.hasLexeme_iff.1 longest.spelled
    rwa [String.toList_ofList] at spelled
  obtain ⟨first, more, same, shown⟩ :=
    front_numeral_unexpected numeral (longest.stopsDigits numeral) point again
  exact ⟨first, more, _, same, shown⟩

end Longest

/-- A token stands at the front of a text exactly when it has the longest spelling there and is
free. -/
theorem front_eq_token_iff {first : Char} {text spelling rest : List Char} {kind : TokenKind} :
    front first text = .token kind spelling rest ↔ first :: text = spelling ++ rest ∧
      IsLongest (spelling ++ rest) kind spelling ∧ IsFree kind spelling rest := by
  constructor
  · intro found
    have whole := front_sound found
    obtain ⟨kind', spelling', longest⟩ :=
      exists_longest (TokenKind.hasLexeme_iff.2 (front_isSpelledBy found))
        (List.prefix_append spelling rest)
    obtain ⟨rest', parts⟩ := longest.begins
    rw [← parts] at longest whole ⊢
    by_cases free : IsFree kind' spelling' rest'
    · obtain ⟨first', more, rfl, shown⟩ := longest.cuts free
      rw [List.cons_append] at whole
      obtain ⟨rfl, rfl⟩ := List.cons.inj whole
      rw [found] at shown
      injection shown with sameKind sameSpelling sameRest
      rw [sameKind, sameSpelling, sameRest]
      exact ⟨rfl, longest, free⟩
    · obtain ⟨first', more, distance, rfl, shown⟩ := longest.rejected free
      rw [List.cons_append] at whole
      obtain ⟨rfl, rfl⟩ := List.cons.inj whole
      rw [found] at shown
      cases shown
  · rintro ⟨whole, longest, free⟩
    obtain ⟨first', more, rfl, shown⟩ := longest.cuts free
    rw [List.cons_append] at whole
    obtain ⟨rfl, rfl⟩ := List.cons.inj whole
    exact shown

/-- By induction on what is munched, the lexer finds the same tokens. -/
theorem munches_tokensFrom {offset : Nat} {chars : List Char} {tokens : List Token}
    (munches : Munches offset chars tokens) : tokensFrom offset chars = .ok tokens := by
  induction munches with
  | done => rfl
  | blank isBlank _ inductionHypothesis =>
      rw [tokensFrom_blank (front_blank (isBlank_iff.2 isBlank) _), inductionHypothesis]
  | @token offset kind spelling rest tokens longest free _ inductionHypothesis =>
      obtain ⟨first, more, rfl, shown⟩ := longest.cuts free
      rw [List.cons_append, tokensFrom_token shown, inductionHypothesis]
      rfl

/-- By induction on the length of the text, whatever the lexer finds is munched. -/
theorem tokensFrom_munches {offset : Nat} {chars : List Char} {tokens : List Token}
    (found : tokensFrom offset chars = .ok tokens) : Munches offset chars tokens := by
  induction size : chars.length using Nat.strong_induction_on
    generalizing offset chars tokens with
  | _ size inductionHypothesis =>
      subst size
      cases chars with
      | nil =>
          cases found
          exact .done offset
      | cons first rest =>
          cases shown : front first rest with
          | blank =>
              rw [tokensFrom_blank shown] at found
              exact .blank (isBlank_iff.1 (isBlank_of_front shown))
                (inductionHypothesis _ (by simp) found rfl)
          | token kind spelling after =>
              rw [tokensFrom_token shown] at found
              cases ahead : tokensFrom (offset + Text.byteSize spelling) after with
              | error error =>
                  rw [ahead] at found
                  cases found
              | ok following =>
                  rw [ahead] at found
                  cases found
                  obtain ⟨whole, longest, free⟩ := front_eq_token_iff.1 shown
                  have shorter : after.length < (first :: rest).length :=
                    Nat.lt_succ_of_le (front_shortens shown)
                  rw [whole]
                  exact .token longest free (inductionHypothesis _ shorter ahead rfl)
          | unexpected char distance =>
              rw [tokensFrom_unexpected shown] at found
              cases found
          | unterminated =>
              rw [tokensFrom_unterminated shown] at found
              cases found

end Lexer

/-- The tokens of a text are those of the longest spellings, with a marker after them, and a text
has none exactly when taking the longest spellings gets stuck. -/
theorem tokenize_eq_ok_iff {text : String} {tokens : List Token} :
    tokenize text = .ok tokens ↔ Lexer.Munches 0 text.toList tokens :=
  ⟨Lexer.tokensFrom_munches, Lexer.munches_tokensFrom⟩

example : (tokenize "a--->=b<<=").map (·.map Token.lexeme) =
    .ok ["a", "--", "->", "=", "b", "<<", "=", ""] := by rfl

end FrontEnd
