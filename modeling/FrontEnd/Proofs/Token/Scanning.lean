/-
This file splits texts that are written piece by piece. A piece is split on its own when what
follows it cannot become a part of its last token.
-/

import FrontEnd.Proofs.Binary64.RoundTrip

namespace FrontEnd

namespace Lexer

/-- The kind of a mark by its one or two characters. -/
def markKind? : List Char → Option TokenKind
  | [first] => singleKind? first
  | [first, second] => pairKind? first second
  | _ => none

/-- A fixed spelling has one or two characters. -/
theorem spelling?_cases {kind : TokenKind} {spelling : String}
    (fixed : kind.spelling? = some spelling) :
    (∃ first, spelling.toList = [first] ∧ singleKind? first = some kind) ∨
      ∃ first second, spelling.toList = [first, second] ∧ pairKind? first second = some kind := by
  have checked : markKind? spelling.toList = some kind := by
    unfold TokenKind.spelling? at fixed
    split at fixed
    · rename_i sign
      cases fixed
      cases sign <;> rfl
    · rename_i side
      cases fixed
      cases side <;> rfl
    · rename_i mark
      cases fixed
      cases mark <;> rfl
    all_goals cases fixed
  unfold markKind? at checked
  split at checked
  · rename_i first same
    exact .inl ⟨first, same, checked⟩
  · rename_i first second same
    exact .inr ⟨first, second, same, checked⟩
  · cases checked

/-- No token has an empty spelling. -/
theorem isSpelledBy_ne_nil {kind : TokenKind} {lexeme : String}
    (spelled : kind.IsSpelledBy lexeme) : lexeme.toList ≠ [] := by
  unfold TokenKind.IsSpelledBy at spelled
  split at spelled
  · exact spelled.elim
  · obtain ⟨⟨first, rest, whole, -⟩, -⟩ := spelled
    simp [whole]
  · obtain ⟨⟨first, rest, whole, -⟩, -⟩ := spelled
    simp [whole]
  · obtain ⟨⟨first, rest, whole, -⟩, -⟩ := spelled
    simp [whole]
  · rcases spelled with digits | ⟨whole, fraction, same, -⟩
    · exact digits.1
    · simp [same]
  · obtain ⟨contents, quote, -, -, whole⟩ := spelled
    simp [whole]
  · rcases spelling?_cases spelled with ⟨first, same, -⟩ | ⟨first, second, same, -⟩
    all_goals simp [same]

/-- The characters that begin the fixed spellings. -/
def fixedStarts : List Char :=
  [':', ',', '.', '(', ')', '\x7b', '\x7d', '*', '/', '%', '+', '-', '=', '!', '&', '|', '<', '>']

/-- The characters that begin a fixed spelling of two. -/
def pairStarts : List Char := ['+', '-', '=', '!', '&', '|', '<', '>']

/-- The characters that end a fixed spelling of two. -/
def pairEnds : List Char := ['+', '>', '-', '=', '&', '|', '<']

/-- Only the characters of a list stand for themselves. -/
theorem singleKind?_mem {char : Char} {kind : TokenKind} (found : singleKind? char = some kind) :
    char ∈ fixedStarts := by
  unfold singleKind? at found
  split at found
  all_goals first | decide | cases found

/-- Only certain characters begin and end the fixed spellings of two. -/
theorem pairKind?_mem {first second : Char} {kind : TokenKind}
    (found : pairKind? first second = some kind) : first ∈ pairStarts ∧ second ∈ pairEnds := by
  unfold pairKind? at found
  split at found
  all_goals first | decide | cases found

/-- A character that ends no pair leaves the one before it on its own. -/
theorem pairKind?_eq_none {first second : Char} (apart : second ∉ pairEnds) :
    pairKind? first second = none :=
  Option.eq_none_iff_forall_ne_some.2 fun _ found => apart (pairKind?_mem found).2

/-- What begins a fixed spelling of two begins one of a single character too. -/
theorem pairStarts_subset : pairStarts ⊆ fixedStarts := by
  simp [pairStarts, fixedStarts]

/-- No fixed spelling begins with any other character. -/
theorem fixedFront?_eq_none {first : Char} (free : first ∉ fixedStarts) (rest : List Char) :
    fixedFront? first rest = none := by
  have single : singleKind? first = none :=
    Option.eq_none_iff_forall_ne_some.2 fun _ found => free (singleKind?_mem found)
  cases rest with
  | nil => simp [fixedFront?, single]
  | cons second later =>
      have pair : pairKind? first second = none :=
        Option.eq_none_iff_forall_ne_some.2 fun _ found =>
          free (pairStarts_subset (pairKind?_mem found).1)
      simp [fixedFront?, single, pair]

/-- No character of a word begins a fixed spelling. -/
theorem not_mem_fixedStarts {char : Char} (word : continuesWord char) : char ∉ fixedStarts := by
  intro member
  have none : fixedStarts.all (!continuesWord ·) := by decide
  simpa [word] using List.all_eq_true.1 none char member

/-- No character of a word is a quote. -/
theorem isQuote_eq_false {char : Char} (word : continuesWord char) : isQuote char = false := by
  rw [← Bool.not_eq_true]
  intro quote
  rcases Bool.or_eq_true_iff.1 quote with same | same
  all_goals
    rw [of_decide_eq_true same] at word
    cases word

/-- No character of a word is a blank. -/
theorem isBlank_eq_false {char : Char} (word : continuesWord char) : isBlank char = false := by
  rw [← Bool.not_eq_true]
  intro blank
  simp only [isBlank, Bool.or_eq_true, decide_eq_true_eq] at blank
  rcases blank with ((rfl | rfl) | rfl) | rfl <;> cases word

/-- No digit begins a word. -/
theorem isDigit_eq_false {char : Char} (starts : startsWord char) : char.isDigit = false := by
  rw [← Bool.not_eq_true]
  intro digit
  have high : char.toNat ≤ 57 := (Char.isDigit_iff_toNat.1 digit).2
  simp only [startsWord, Char.isAlpha, Char.isUpper, Char.isLower, Bool.or_eq_true,
    Bool.and_eq_true, decide_eq_true_eq] at starts
  rcases starts with (upper | lower) | rfl
  · have low : 65 ≤ char.toNat := upper.1
    omega
  · have low : 97 ≤ char.toNat := lower.1
    omega
  · cases digit

/-- What follows a piece cannot become a part of a word or a number at the end of the piece. -/
structure Parts (rest : List Char) : Prop where
  word : ∀ char ∈ rest.head?, continuesWord char = false
  point : rest.head? = some '.' → ∀ char ∈ rest.tail.head?, char.isDigit = false

/-- A spelling is a token on its own before a rest. -/
def Cuts (kind : TokenKind) (spelling rest : List Char) : Prop :=
  ∃ first more, spelling = first :: more ∧ front first (more ++ rest) = .token kind spelling rest

/-- A fixed spelling is split off unless its single character begins one of two. -/
theorem cuts_fixed {kind : TokenKind} {spelling : String}
    (fixed : kind.spelling? = some spelling) {rest : List Char}
    (apart : ∀ first, spelling.toList = [first] →
      ∀ next ∈ rest.head?, pairKind? first next = none) :
    Cuts kind spelling.toList rest := by
  rcases spelling?_cases fixed with ⟨first, same, single⟩ | ⟨first, second, same, pair⟩
  · refine ⟨first, [], same, ?_⟩
    rw [same]
    cases rest with
    | nil => simp [front, fixedFront?, single]
    | cons next later => simp [front, fixedFront?, single, apart first same next rfl]
  · refine ⟨first, [second], same, ?_⟩
    simp [front, fixedFront?, pair, same]

/-- A run of characters of a sort ends where the next one is not of the sort. -/
theorem span_append {accepts : Char → Bool} {run rest : List Char}
    (all : ∀ char ∈ run, accepts char) (stops : ∀ char ∈ rest.head?, accepts char = false) :
    (run ++ rest).takeWhile accepts = run ∧ (run ++ rest).dropWhile accepts = rest := by
  rw [List.takeWhile_append_of_pos all, List.dropWhile_append_of_pos all]
  cases rest with
  | nil => simp
  | cons next later => simp [stops next rfl]

/-- A word is split off where nothing follows that could go on with it. -/
theorem cuts_word {word : List Char} (isWord : IsWord word) {rest : List Char}
    (stops : ∀ char ∈ rest.head?, continuesWord char = false) :
    Cuts (wordKind (String.ofList word)) word rest := by
  obtain ⟨first, more, rfl, starts, continues⟩ := isWord_iff.1 isWord
  have continuesFirst : continuesWord first := by simp [continuesWord, starts]
  obtain ⟨taken, dropped⟩ := span_append continues stops
  refine ⟨first, more, rfl, ?_⟩
  simp [front, fixedFront?_eq_none (not_mem_fixedStarts continuesFirst),
    isQuote_eq_false continuesFirst, isBlank_eq_false continuesFirst, isDigit_eq_false starts,
    starts, wordFront, taken, dropped]

/-- A quote begins a string, whatever follows it. -/
theorem front_quote {first : Char} (quote : isQuote first) (rest : List Char) :
    front first rest = stringFront first rest := by
  have free : first ∉ fixedStarts := by
    rcases Bool.or_eq_true_iff.1 quote with same | same
    all_goals
      rw [of_decide_eq_true same]
      decide
  simp [front, fixedFront?_eq_none free, quote]

/-- A string is split off whatever follows it, since its second quote ends it. -/
theorem cuts_quotation {text contents : List Char} (quotation : IsQuotation text contents)
    (rest : List Char) : Cuts (.literal .string) text rest := by
  obtain ⟨quote, isQuote, outside, rfl⟩ := isQuotation_iff.1 quotation
  refine ⟨quote, contents ++ [quote], rfl, ?_⟩
  have inside : ∀ char ∈ contents, char != quote := by
    intro char member
    rw [bne_iff_ne]
    rintro rfl
    exact outside member
  have stops : ∀ char ∈ (quote :: rest).head?, (char != quote) = false := by simp
  obtain ⟨taken, dropped⟩ := span_append inside stops
  rw [front_quote isQuote]
  simp [stringFront, taken, dropped]

/-- A digit begins a number. -/
theorem front_digit {first : Char} (digit : first.isDigit) (rest : List Char) :
    front first rest = numberFront first rest := by
  have continuesFirst : continuesWord first := by simp [continuesWord, digit]
  simp [front, fixedFront?_eq_none (not_mem_fixedStarts continuesFirst),
    isQuote_eq_false continuesFirst, isBlank_eq_false continuesFirst, digit]

theorem Parts.nil : Parts [] := ⟨by simp, by simp⟩

/-- A character that goes on with no word and is no point keeps the pieces apart. -/
theorem Parts.cons {char : Char} (word : continuesWord char = false) (noPoint : char ≠ '.')
    (later : List Char) : Parts (char :: later) := by
  refine ⟨fun next same => ?_, fun point => absurd (Option.some.inj point) noPoint⟩
  obtain rfl := Option.some.inj same
  exact word

/-- A blank begins no token. -/
theorem front_blank {char : Char} (blank : isBlank char) (rest : List Char) :
    front char rest = .blank := by
  have checked : char ∉ fixedStarts ∧ isQuote char = false := by
    simp only [isBlank, Bool.or_eq_true, decide_eq_true_eq] at blank
    rcases blank with ((rfl | rfl) | rfl) | rfl <;> decide
  simp [front, fixedFront?_eq_none checked.1, checked.2, blank]

/-- What goes on with no word goes on with no number. -/
theorem Parts.stopsDigits {rest : List Char} (parts : Parts rest) :
    ∀ char ∈ rest.head?, char.isDigit = false :=
  fun char member => (Bool.or_eq_false_iff.1 (parts.word char member)).2

/-- A number without a point can stand before a point that no digit follows. -/
theorem numberFront_whole {first : Char} {more rest : List Char}
    (digits : ∀ char ∈ more, char.isDigit)
    (stops : ∀ char ∈ rest.head?, char.isDigit = false)
    (free : rest.head? = some '.' → ∀ char ∈ rest.tail.head?, char.isDigit = false) :
    numberFront first (more ++ rest) = .token (.literal .number) (first :: more) rest := by
  obtain ⟨taken, dropped⟩ := span_append digits stops
  unfold numberFront
  simp only [taken, dropped]
  split
  · rename_i digit after
    have noDigit : digit.isDigit = false := free rfl digit rfl
    simp [noDigit]
  · rfl

/-- A number with a point must not stand before another one. -/
theorem numberFront_point {first : Char} {more fraction rest : List Char}
    (digits : ∀ char ∈ more, char.isDigit) (fractionDigits : IsDigits fraction)
    (stops : ∀ char ∈ rest.head?, char.isDigit = false) :
    numberFront first (more ++ '.' :: (fraction ++ rest)) =
      if rest.head? = some '.' then
        .unexpected '.' (Text.byteSize (first :: (more ++ '.' :: fraction)))
      else .token (.literal .number) (first :: (more ++ '.' :: fraction)) rest := by
  obtain ⟨some, fractionAll⟩ := fractionDigits
  cases fraction with
  | nil => exact absurd rfl some
  | cons digit later =>
      obtain ⟨isDigit, laterAll⟩ := List.forall_mem_cons.1 fractionAll
      have point : ∀ char ∈ ('.' :: (digit :: later ++ rest)).head?, char.isDigit = false := by
        simp
      obtain ⟨taken, dropped⟩ := span_append digits point
      obtain ⟨taken', dropped'⟩ := span_append laterAll stops
      unfold numberFront
      rw [taken, dropped, List.cons_append]
      simp only [isDigit, if_true, taken', dropped']
      cases rest with
      | nil => rfl
      | cons next after =>
          by_cases point : next = '.'
          · simp [point]
          · simp [point]

/-- A number is split off where neither digits nor a fraction could follow. -/
theorem cuts_numeral {text rest : List Char} (numeral : IsNumeral text)
    (stops : ∀ char ∈ rest.head?, char.isDigit = false)
    (free : '.' ∉ text → rest.head? = some '.' → ∀ char ∈ rest.tail.head?, char.isDigit = false)
    (single : '.' ∈ text → rest.head? ≠ some '.') : Cuts (.literal .number) text rest := by
  rcases numeral with ⟨some, digits⟩ | ⟨whole, fraction, rfl, ⟨some, digits⟩, more⟩
  · cases text with
    | nil => exact absurd rfl some
    | cons first later =>
        obtain ⟨digit, laterDigits⟩ := List.forall_mem_cons.1 digits
        have noPoint : '.' ∉ first :: later := fun member => absurd (digits '.' member) (by decide)
        refine ⟨first, later, rfl, ?_⟩
        rw [front_digit digit, numberFront_whole laterDigits stops (free noPoint)]
  · cases whole with
    | nil => exact absurd rfl some
    | cons first later =>
        obtain ⟨digit, laterDigits⟩ := List.forall_mem_cons.1 digits
        refine ⟨first, later ++ '.' :: fraction, rfl, ?_⟩
        rw [front_digit digit, List.append_assoc, List.cons_append,
          numberFront_point laterDigits more stops, if_neg (single (by simp))]
        rfl

/-- A number with a point is rejected before another one. -/
theorem front_numeral_unexpected {text rest : List Char} (numeral : IsNumeral text)
    (stops : ∀ char ∈ rest.head?, char.isDigit = false) (point : '.' ∈ text)
    (again : rest.head? = some '.') :
    ∃ first more, text = first :: more ∧
      front first (more ++ rest) = .unexpected '.' (Text.byteSize text) := by
  rcases numeral with ⟨-, digits⟩ | ⟨whole, fraction, rfl, ⟨some, digits⟩, more⟩
  · cases digits '.' point
  · cases whole with
    | nil => exact absurd rfl some
    | cons first later =>
        obtain ⟨digit, laterDigits⟩ := List.forall_mem_cons.1 digits
        refine ⟨first, later ++ '.' :: fraction, rfl, ?_⟩
        rw [front_digit digit, List.append_assoc, List.cons_append,
          numberFront_point laterDigits more stops, if_pos again]
        rfl

section Fronts

variable {first : Char} {rest spelling after : List Char} {kind : TokenKind}

/-- A token leaves less text than there was. -/
theorem front_shortens (found : front first rest = .token kind spelling after) :
    after.length ≤ rest.length := by
  have whole := congrArg List.length (front_sound found)
  have some := List.length_pos_iff.2 (isSpelledBy_ne_nil (front_isSpelledBy found))
  rw [String.toList_ofList] at some
  rw [List.length_append, List.length_cons] at whole
  omega

end Fronts

/-- A bound that is great enough has no part in the tokens. -/
theorem tokensWithin_eq {bound bound' offset : Nat} {chars : List Char}
    (enough : chars.length ≤ bound) (enough' : chars.length ≤ bound') :
    tokensWithin bound offset chars = tokensWithin bound' offset chars := by
  induction bound generalizing bound' offset chars with
  | zero =>
      obtain rfl : chars = [] := List.length_eq_zero_iff.1 (Nat.le_zero.1 enough)
      cases bound' <;> rfl
  | succ bound inductionHypothesis =>
      cases chars with
      | nil => cases bound' <;> rfl
      | cons first rest =>
          obtain ⟨bound', rfl⟩ : ∃ before, bound' = before + 1 :=
            Nat.exists_eq_add_one_of_ne_zero (by rintro rfl; simp at enough')
          have short := Nat.le_of_succ_le_succ enough
          have short' := Nat.le_of_succ_le_succ enough'
          rw [tokensWithin, tokensWithin]
          cases found : front first rest with
          | blank => exact inductionHypothesis short short'
          | token kind spelling after =>
              have less := front_shortens found
              simp only [inductionHypothesis (less.trans short) (less.trans short')]
          | unexpected => rfl
          | unterminated => rfl

section Steps

variable {offset : Nat} {first : Char} {rest : List Char}

/-- The tokens behind a blank are those of the text. -/
theorem tokensFrom_blank (found : front first rest = .blank) :
    tokensFrom offset (first :: rest) = tokensFrom (offset + first.utf8Size) rest := by
  rw [tokensFrom, List.length_cons, tokensWithin, found]
  rfl

/-- A token is followed by the tokens of the rest. -/
theorem tokensFrom_token {kind : TokenKind} {spelling after : List Char}
    (found : front first rest = .token kind spelling after) :
    tokensFrom offset (first :: rest) =
      (⟨offset, kind, String.ofList spelling, false⟩ :: ·) <$>
        tokensFrom (offset + Text.byteSize spelling) after := by
  rw [tokensFrom, List.length_cons, tokensWithin, found]
  simp only
  rw [tokensWithin_eq (front_shortens found) le_rfl]
  rfl

/-- A character that begins nothing leaves the text without tokens. -/
theorem tokensFrom_unexpected {char : Char} {distance : Nat}
    (found : front first rest = .unexpected char distance) :
    tokensFrom offset (first :: rest) = .error (.unexpected char (offset + distance)) := by
  rw [tokensFrom, List.length_cons, tokensWithin, found]

/-- A string that does not end leaves the text without tokens. -/
theorem tokensFrom_unterminated (found : front first rest = .unterminated) :
    tokensFrom offset (first :: rest) = .error (.unterminated offset) := by
  rw [tokensFrom, List.length_cons, tokensWithin, found]

end Steps

/-- A text before a rest is split on its own into some tokens when it is readable, and it is
rejected when it is not. -/
def Scans (readable : Prop) (text rest : List Char) (made : List Token → Prop) : Prop :=
  ∀ offset,
    (readable ∧ ∃ taken, made taken ∧ tokensFrom offset (text ++ rest) =
      (taken ++ ·) <$> tokensFrom (offset + Text.byteSize text) rest) ∨
    (¬readable ∧ ∃ error, tokensFrom offset (text ++ rest) = .error error)

section Scans

variable {readable readable' : Prop} {text first second rest : List Char}
  {made made' : List Token → Prop}

theorem Scans.iff (scans : Scans readable text rest made) (same : readable ↔ readable') :
    Scans readable' text rest made := by
  rw [← propext same]
  exact scans

/-- What is scanned into tokens of some sort is scanned into tokens of a wider one. -/
theorem Scans.mono (scans : Scans readable text rest made)
    (step : ∀ taken, made taken → made' taken) : Scans readable text rest made' := by
  intro offset
  rcases scans offset with ⟨holds, taken, good, split⟩ | rejected
  · exact .inl ⟨holds, taken, step taken good, split⟩
  · exact .inr rejected

theorem Scans.nil (good : made []) : Scans True [] rest made := by
  intro offset
  exact .inl ⟨trivial, [], good, (id_map (tokensFrom offset rest)).symm⟩

/-- Two texts are readable together when each one is, and their tokens follow each other. -/
theorem Scans.bind {parts : List Token → Prop}
    (firstScans : Scans readable first (second ++ rest) parts)
    (secondScans : ∀ taken, parts taken →
      Scans readable' second rest fun later => made (taken ++ later)) :
    Scans (readable ∧ readable') (first ++ second) rest made := by
  intro offset
  rw [List.append_assoc, Text.byteSize_append, ← Nat.add_assoc]
  rcases firstScans offset with ⟨holds, taken, good, split⟩ | ⟨fails, error, split⟩
  · rw [split]
    rcases secondScans taken good (offset + Text.byteSize first) with
      ⟨holds', later, goodAll, split'⟩ | ⟨fails', error, split'⟩
    · refine .inl ⟨⟨holds, holds'⟩, taken ++ later, goodAll, ?_⟩
      rw [split']
      cases tokensFrom (offset + Text.byteSize first + Text.byteSize second) rest <;> simp
    · refine .inr ⟨fun both => fails' both.2, error, ?_⟩
      rw [split']
      rfl
  · exact .inr ⟨fun both => fails both.1, error, split⟩

/-- A blank leaves no token. -/
theorem Scans.blank {char : Char} (blank : isBlank char) (scans : Scans readable text rest made) :
    Scans readable (char :: text) rest made := by
  intro offset
  rw [List.cons_append, tokensFrom_blank (front_blank blank _), Text.byteSize_cons, ← Nat.add_assoc]
  exact scans _

/-- A token at the front of a text is split off. -/
theorem Scans.token (kind : TokenKind) {spelling : List Char}
    (cuts : Cuts kind spelling (text ++ rest))
    (scans : ∀ token : Token, token.kind = kind → token.lexeme = String.ofList spelling →
      token.WellSpelled → Scans readable text rest fun later => made (token :: later)) :
    Scans readable (spelling ++ text) rest made := by
  intro offset
  obtain ⟨first, more, same, found⟩ := cuts
  let token : Token := ⟨offset, kind, String.ofList spelling, false⟩
  have well : token.WellSpelled := ⟨rfl, front_isSpelledBy found⟩
  have split : tokensFrom offset (spelling ++ text ++ rest) =
      (token :: ·) <$> tokensFrom (offset + Text.byteSize spelling) (text ++ rest) := by
    rw [List.append_assoc]
    subst same
    exact tokensFrom_token found
  rw [split, Text.byteSize_append, ← Nat.add_assoc]
  rcases scans token rfl rfl well (offset + Text.byteSize spelling) with
    ⟨holds, taken, good, later⟩ | ⟨fails, error, later⟩
  · refine .inl ⟨holds, token :: taken, good, ?_⟩
    rw [later]
    cases tokensFrom (offset + Text.byteSize spelling + Text.byteSize text) rest <;> rfl
  · refine .inr ⟨fails, error, ?_⟩
    rw [later]
    rfl

/-- A text that is a token. -/
theorem Scans.single {kind : TokenKind} (cuts : Cuts kind text rest)
    (good : ∀ token : Token, token.kind = kind → token.lexeme = String.ofList text →
      token.WellSpelled → made [token]) : Scans True text rest made := by
  have scans : Scans True (text ++ []) rest made :=
    Scans.token kind cuts fun token same lexeme well => .nil (good token same lexeme well)
  rwa [List.append_nil] at scans

/-- A mark that begins no pair is a token wherever it stands. -/
theorem Scans.mark (kind : TokenKind) {mark : Char}
    (fixed : kind.spelling? = some (String.ofList [mark])) (alone : mark ∉ pairStarts)
    (scans : ∀ token : Token, token.kind = kind → token.WellSpelled →
      Scans readable text rest fun later => made (token :: later)) :
    Scans readable (mark :: text) rest made := by
  have cuts : Cuts kind (String.ofList [mark]).toList (text ++ rest) :=
    cuts_fixed fixed fun first same next _ => by
      obtain rfl : mark = first := by simpa using same
      exact Option.eq_none_iff_forall_ne_some.2 fun _ found => alone (pairKind?_mem found).1
  rw [String.toList_ofList] at cuts
  exact Scans.token kind cuts fun token same _ well => scans token same well

/-- A keyword before a blank is a token. -/
theorem Scans.keyword (keyword : Keyword)
    (scans : ∀ token : Token, token.kind = .keyword keyword → token.WellSpelled →
      Scans readable text rest fun later => made (token :: later)) :
    Scans readable (keyword.spelling.toList ++ ' ' :: text) rest made := by
  have before : Parts (' ' :: (text ++ rest)) := Parts.cons (by decide) (by decide) _
  have cuts := cuts_word keyword.isWord_spelling before.word
  rw [String.ofList_toList, wordKind_spelling] at cuts
  exact Scans.token _ cuts fun token same _ well => .blank (by decide) (scans token same well)

/-- A fixed spelling between blanks is a token. -/
theorem Scans.between (kind : TokenKind) {spelling : String}
    (fixed : kind.spelling? = some spelling)
    (scans : ∀ token : Token, token.kind = kind → token.WellSpelled →
      Scans readable text rest fun later => made (token :: later)) :
    Scans readable (' ' :: (spelling.toList ++ (' ' :: text))) rest made := by
  have cuts : Cuts kind spelling.toList (' ' :: text ++ rest) :=
    cuts_fixed fixed fun first _ next same => by
      obtain rfl : ' ' = next := Option.some.inj same
      exact pairKind?_eq_none (by decide)
  exact .blank (by decide) (Scans.token kind cuts fun token same _ well =>
    .blank (by decide) (scans token same well))

/-- A text is rejected where the lexer stops. -/
theorem Scans.unexpected {char found : Char} {distance : Nat}
    (rejected : front char (text ++ rest) = .unexpected found distance) (fails : ¬readable) :
    Scans readable (char :: text) rest made :=
  fun _ => .inr ⟨fails, _, tokensFrom_unexpected rejected⟩

end Scans

end Lexer

end FrontEnd
