/-
This file says where and why a text has no tokens. The text up to that place decides about it, and
for a string without its closing quote every later text that does not hold the quote.
-/

import FrontEnd.Proofs.Token.Passing

namespace FrontEnd

theorem IsNumeral.isDigit_head {first : Char} {more : List Char}
    (numeral : IsNumeral (first :: more)) : first.isDigit := by
  rcases numeral with digits | ⟨whole, fraction, same, ⟨some, digits⟩, -⟩
  · exact digits.2 first (List.mem_cons_self ..)
  · cases whole with
    | nil => exact absurd rfl some
    | cons digit later =>
        obtain ⟨rfl, -⟩ := List.cons.inj same
        exact digits first (List.mem_cons_self ..)

namespace Lexer

/-- Neither a blank nor any token begins with the character. -/
structure StartsNothing (char : Char) : Prop where
  blank : isBlank char = false
  word : startsWord char = false
  digit : char.isDigit = false
  quote : isQuote char = false
  fixed : ∀ (kind : TokenKind) (spelling : String),
    kind.spelling? = some spelling → spelling.toList.head? ≠ some char

/-- A character cannot stand behind some tokens when nothing starts with it, or when it is a second
point after a number. -/
def IsUnexpected (tokens : List Token) (char : Char) (offset : Nat) : Prop :=
  StartsNothing char ∨
    char = '.' ∧ ∃ number ∈ tokens, number.kind = .literal .number ∧
      '.' ∈ number.lexeme.toList ∧ number.stop = offset

/-- The characters of the table are those that begin a fixed spelling. -/
theorem mem_fixedStarts_iff {char : Char} :
    char ∈ fixedStarts ↔ ∃ (kind : TokenKind) (spelling : String),
      kind.spelling? = some spelling ∧ spelling.toList.head? = some char := by
  constructor
  · intro member
    have single : fixedStarts.all fun char => (singleKind? char).isSome := by decide
    obtain ⟨kind, found⟩ := Option.isSome_iff_exists.1 (List.all_eq_true.1 single char member)
    exact ⟨kind, _, singleKind?_spelling found, by simp⟩
  · rintro ⟨kind, spelling, fixed, head⟩
    rcases spelling?_cases fixed with ⟨first, same, single⟩ | ⟨first, second, same, pair⟩
    · rw [same] at head
      obtain rfl := Option.some.inj head
      exact singleKind?_mem single
    · rw [same] at head
      obtain rfl := Option.some.inj head
      exact pairStarts_subset (pairKind?_mem pair).1

/-- Every character of the table gives a token. -/
theorem fixedFront?_of_mem {first : Char} (member : first ∈ fixedStarts) (rest : List Char) :
    ∃ kind spelling after, fixedFront? first rest = some (.token kind spelling after) := by
  have single : fixedStarts.all fun char => (singleKind? char).isSome := by decide
  obtain ⟨kind, found⟩ := Option.isSome_iff_exists.1 (List.all_eq_true.1 single first member)
  cases rest with
  | nil => exact ⟨kind, [first], [], by simp [fixedFront?, found]⟩
  | cons second later =>
      cases pair : pairKind? first second with
      | none => exact ⟨kind, [first], second :: later, by simp [fixedFront?, found, pair]⟩
      | some kind' => exact ⟨kind', [first, second], later, by simp [fixedFront?, pair]⟩

section Fronts

variable {first char : Char} {rest : List Char} {distance : Nat}

theorem front_startsNothing (nothing : StartsNothing first) (rest : List Char) :
    front first rest = .unexpected first 0 := by
  have free : first ∉ fixedStarts := by
    intro member
    obtain ⟨kind, spelling, fixed, head⟩ := mem_fixedStarts_iff.1 member
    exact nothing.fixed kind spelling fixed head
  simp [front, fixedFront?_eq_none free, nothing.quote, nothing.blank, nothing.digit, nothing.word]

/-- What stands at the front of a text, by its first character. Fixed spellings and words are
tokens whatever follows. -/
theorem front_cases (first : Char) (rest : List Char) :
    (∃ kind spelling after, front first rest = .token kind spelling after) ∨
      (isQuote first ∧ front first rest = stringFront first rest) ∨
      front first rest = .blank ∨
      (first.isDigit ∧ front first rest = numberFront first rest) ∨
      StartsNothing first := by
  by_cases member : first ∈ fixedStarts
  · obtain ⟨kind, spelling, after, fixed⟩ := fixedFront?_of_mem member rest
    exact .inl ⟨kind, spelling, after, by rw [front, fixed]⟩
  · by_cases quote : isQuote first
    · exact .inr (.inl ⟨quote, front_quote quote rest⟩)
    · by_cases blank : isBlank first
      · exact .inr (.inr (.inl (front_blank blank rest)))
      · by_cases digit : first.isDigit
        · exact .inr (.inr (.inr (.inl ⟨digit, front_digit digit rest⟩)))
        · by_cases word : startsWord first
          · have found : front first rest = wordFront first rest := by
              simp [front, fixedFront?_eq_none member, quote, blank, digit, word]
            exact .inl ⟨_, _, _, found⟩
          · exact .inr (.inr (.inr (.inr {
              blank := Bool.eq_false_of_not_eq_true blank
              word := Bool.eq_false_of_not_eq_true word
              digit := Bool.eq_false_of_not_eq_true digit
              quote := Bool.eq_false_of_not_eq_true quote
              fixed := fun kind spelling fixed head =>
                member (mem_fixedStarts_iff.2 ⟨kind, spelling, fixed, head⟩) })))

/-- A number is rejected only when it has a point and stands before another one. -/
theorem numberFront_eq_unexpected (digit : first.isDigit)
    (found : numberFront first rest = .unexpected char distance) :
    char = '.' ∧ ∃ more after, rest = more ++ '.' :: after ∧ IsNumeral (first :: more) ∧
      '.' ∈ more ∧ distance = Text.byteSize (first :: more) := by
  have whole := rest.takeWhile_append_dropWhile (p := Char.isDigit)
  unfold numberFront at found
  simp only at found
  split at found
  · rename_i next later dropped
    split at found
    · rename_i isDigit
      split at found
      · rename_i after dropped'
        injection found with point size
        have fraction := later.takeWhile_append_dropWhile (p := Char.isDigit)
        let more := rest.takeWhile Char.isDigit ++ '.' :: next :: later.takeWhile Char.isDigit
        have digits := isDigits_takeWhile digit rest
        have fractionDigits := isDigits_takeWhile isDigit later
        refine ⟨point.symm, more, after, ?_, .inr ⟨_, _, rfl, digits, fractionDigits⟩, ?_, ?_⟩
        · rw [dropped'] at fraction
          rw [dropped, ← fraction] at whole
          rw [← whole]
          simp [more]
        · simp [more]
        · exact size.symm
      · cases found
    · cases found
  · cases found

theorem numberFront_ne_unterminated : numberFront first rest ≠ .unterminated := by
  intro found
  unfold numberFront at found
  simp only at found
  split at found
  · split at found
    · split at found <;> cases found
    · cases found
  · cases found

/-- A string is not closed when its quote does not come again. -/
theorem stringFront_eq_unterminated_iff :
    stringFront first rest = .unterminated ↔ first ∉ rest := by
  have reaches : rest.dropWhile (· != first) = [] ↔ first ∉ rest := by
    rw [List.dropWhile_eq_nil_iff]
    constructor
    · intro others member
      simpa using others first member
    · intro outside char member
      rw [bne_iff_ne]
      rintro rfl
      exact outside member
  rw [← reaches]
  unfold stringFront
  split <;> simp [*]

/-- A character is unexpected when nothing starts with it, or when it is a second point of a
number. -/
theorem front_eq_unexpected (found : front first rest = .unexpected char distance) :
    (char = first ∧ distance = 0 ∧ StartsNothing first) ∨
      char = '.' ∧ ∃ more after, rest = more ++ '.' :: after ∧ IsNumeral (first :: more) ∧
        '.' ∈ more ∧ distance = Text.byteSize (first :: more) := by
  rcases front_cases first rest with
    ⟨kind, spelling, after, same⟩ | ⟨-, same⟩ | same | ⟨digit, same⟩ | nothing
  · rw [same] at found
    cases found
  · rw [same, stringFront] at found
    split at found <;> cases found
  · rw [same] at found
    cases found
  · rw [same] at found
    exact .inr (numberFront_eq_unexpected digit found)
  · rw [front_startsNothing nothing] at found
    cases found
    exact .inl ⟨rfl, rfl, nothing⟩

theorem front_eq_unterminated_iff :
    front first rest = .unterminated ↔ isQuote first ∧ first ∉ rest := by
  constructor
  · intro found
    rcases front_cases first rest with
      ⟨kind, spelling, after, same⟩ | ⟨quote, same⟩ | same | ⟨-, same⟩ | nothing
    · rw [same] at found
      cases found
    · rw [same] at found
      exact ⟨quote, stringFront_eq_unterminated_iff.1 found⟩
    · rw [same] at found
      cases found
    · rw [same] at found
      exact absurd found numberFront_ne_unterminated
    · rw [front_startsNothing nothing] at found
      cases found
  · rintro ⟨quote, outside⟩
    rw [front_quote quote, stringFront_eq_unterminated_iff]
    exact outside

end Fronts

section Results

variable {passed : List Char} {first : Char} {rest : List Char} {body : List Token}

/-- The tokens before the place where a text is stuck are those of the text up to that place. -/
theorem Passes.cut (passes : Passes rest 0 passed body) :
    Lexer.tokensFrom 0 passed = .ok (body ++ [Token.eof (Text.byteSize passed)]) := by
  rw [(passes.shown (showsNoMore_nil rest)).tokensFrom_nil, Nat.zero_add]

/-- What follows the first character of a rest has no part in the tokens before it. Only a point
shows its next character. -/
theorem Passes.tokensFrom_cons (passes : Passes (first :: rest) 0 passed body)
    (noPoint : first ≠ '.') (rest' : List Char) :
    Lexer.tokensFrom 0 (passed ++ first :: rest') =
      (body ++ ·) <$> Lexer.tokensFrom (Text.byteSize passed) (first :: rest') := by
  rw [(passes.shown (showsNoMore_cons noPoint rest rest')).tokensFrom, Nat.zero_add]

/-- A text is stuck at a character that nothing starts with, whatever follows it. -/
theorem Passes.nothing (passes : Passes (first :: rest) 0 passed body)
    (nothing : StartsNothing first) (rest' : List Char) :
    Lexer.tokensFrom 0 (passed ++ first :: rest') =
      .error (.unexpected first (Text.byteSize passed)) := by
  have noPoint : first ≠ '.' := by
    rintro rfl
    exact nothing.fixed (.symbol .dot) "." rfl rfl
  rw [passes.tokensFrom_cons noPoint, tokensFrom_unexpected (front_startsNothing nothing rest')]
  rfl

/-- A text is stuck at a quote that does not come again. -/
theorem Passes.unclosed (passes : Passes (first :: rest) 0 passed body) (quote : isQuote first)
    {rest' : List Char} (outside : first ∉ rest') :
    Lexer.tokensFrom 0 (passed ++ first :: rest') =
      .error (.unterminated (Text.byteSize passed)) := by
  have noPoint : first ≠ '.' := by
    rintro rfl
    cases quote
  have shown := front_eq_unterminated_iff.2 ⟨quote, outside⟩
  rw [passes.tokensFrom_cons noPoint, tokensFrom_unterminated shown]
  rfl

/-- A text is stuck at the second point after a number, whatever follows. The number is a token of
the text up to there. -/
theorem Passes.secondPoint {more after : List Char}
    (passes : Passes (first :: (more ++ '.' :: after)) 0 passed body)
    (numeral : IsNumeral (first :: more)) (point : '.' ∈ first :: more) :
    let stop := Text.byteSize passed + Text.byteSize (first :: more)
    (∃ tokens, Lexer.tokensFrom 0 (passed ++ first :: more) = .ok tokens ∧
        IsUnexpected tokens '.' stop) ∧
      ∀ after', Lexer.tokensFrom 0 (passed ++ first :: (more ++ '.' :: after')) =
        .error (.unexpected '.' stop) := by
  intro stop
  have noPoint : first ≠ '.' := by
    rintro rfl
    cases numeral.isDigit_head
  constructor
  · let number : Token :=
      ⟨0 + Text.byteSize passed, .literal .number, String.ofList (first :: more), false⟩
    have lexeme : number.lexeme.toList = first :: more := String.toList_ofList
    have well : number.WellSpelled := by
      refine ⟨rfl, ?_⟩
      change IsNumeral number.lexeme.toList
      rwa [lexeme]
    -- The text ends with the number here, which is cut off as it is before a blank.
    have cuts : Cuts number.kind (first :: more) ([] ++ []) :=
      cuts_beforeBlank well.spelled (by simp)
    have passes' := passes.shown (showsNoMore_cons noPoint _ (more ++ [] ++ []))
    have whole := passes'.append (.token cuts (.done _))
    rw [List.append_nil] at whole
    refine ⟨body ++ [number] ++ [Token.eof _], whole.tokensFrom_nil, .inr ⟨rfl, number, ?_⟩⟩
    refine ⟨List.mem_append_left _ List.mem_concat_self, rfl, ?_, ?_⟩
    · rwa [lexeme]
    · rw [well.stop_eq, lexeme, show number.offset = Text.byteSize passed from Nat.zero_add _]
  · intro after'
    have stops : ∀ char ∈ ('.' :: after').head?, char.isDigit = false := by simp
    obtain ⟨first', more', same, shown⟩ := front_numeral_unexpected numeral stops point rfl
    obtain ⟨rfl, rfl⟩ := List.cons.inj same
    rw [passes.tokensFrom_cons noPoint, tokensFrom_unexpected shown]
    rfl

end Results

end Lexer

/-- A text without tokens has them up to the place of the error. What follows has no part in an
error at a character that cannot stand there. A string has no end when its quote does not come
again, and the error stays until it does. -/
theorem tokenize_rejected {text : String} {error : LexicalError}
    (rejected : tokenize text = .error error) :
    ∃ (before : List Char) (char : Char) (after : List Char) (tokens : List Token),
      text.toList = before ++ char :: after ∧ Text.byteSize before = error.offset ∧
      tokenize (String.ofList before) = .ok tokens ∧
      ((error = .unexpected char error.offset ∧ Lexer.IsUnexpected tokens char error.offset ∧
          ∀ text' : String, before ++ [char] <+: text'.toList → tokenize text' = .error error) ∨
        (error = .unterminated error.offset ∧ Lexer.isQuote char ∧ char ∉ after ∧
          ∀ more : String, char ∉ more.toList → tokenize (text ++ more) = .error error)) := by
  obtain ⟨passed, first, rest, body, whole, passes, stuck⟩ := Lexer.passes_of_error rejected
  rw [Nat.zero_add] at stuck
  have lexed : tokenize (String.ofList passed) =
      .ok (body ++ [Token.eof (Text.byteSize passed)]) := by
    rw [tokenize, String.toList_ofList]
    exact passes.cut
  rcases stuck with ⟨shown, distance, found, rfl⟩ | ⟨found, rfl⟩
  · rcases Lexer.front_eq_unexpected found with
      ⟨rfl, rfl, nothing⟩ | ⟨rfl, more, after, rfl, numeral, point, rfl⟩
    · refine ⟨passed, shown, rest, _, whole, rfl, lexed, .inl ⟨rfl, .inl nothing, ?_⟩⟩
      rintro text' ⟨rest', same⟩
      rw [tokenize, ← same, List.append_assoc]
      exact passes.nothing nothing rest'
    · -- The error stands behind the number, so the text up to it has one token more.
      obtain ⟨⟨tokens, lexed, second⟩, stuck⟩ :=
        passes.secondPoint numeral (List.mem_cons_of_mem _ point)
      refine ⟨passed ++ first :: more, '.', after, tokens, ?_, Text.byteSize_append _ _, ?_,
        .inl ⟨rfl, second, ?_⟩⟩
      · rw [whole, List.append_assoc, List.cons_append]
      · rw [tokenize, String.toList_ofList]
        exact lexed
      · rintro text' ⟨after', same⟩
        rw [tokenize, ← same, List.append_assoc, List.append_assoc, List.cons_append]
        exact stuck after'
  · obtain ⟨quote, outside⟩ := Lexer.front_eq_unterminated_iff.1 found
    refine ⟨passed, first, rest, _, whole, rfl, lexed, .inr ⟨rfl, quote, outside, ?_⟩⟩
    intro more free
    have outside' : first ∉ rest ++ more.toList := by simp [outside, free]
    rw [tokenize, String.toList_append, whole, List.append_assoc]
    exact passes.unclosed quote outside'

/-- Nothing helps after a second point of a number, and only its quote helps an open string. -/
theorem tokenize_secondPoint :
    tokenize "'é' 1.5.2" = .error (.unexpected '.' 8) ∧
      (∀ more : String, tokenize ("'é' 1.5." ++ more) = .error (.unexpected '.' 8)) ∧
      tokenize "x 'é" = .error (.unterminated 2) ∧
      ∀ more : String, '\'' ∉ more.toList →
        tokenize ("x 'é" ++ more) = .error (.unterminated 2) := by
  have point : tokenize "'é' 1.5.2" = .error (.unexpected '.' 8) := by rfl
  have quote : tokenize "x 'é" = .error (.unterminated 2) := by rfl
  refine ⟨point, ?_, quote, ?_⟩
  · obtain ⟨before, char, after, tokens, whole, size, -, reason⟩ := tokenize_rejected point
    have whole' : "'é' 1.5".toList ++ ['.', '2'] = before ++ char :: after := whole
    obtain ⟨rfl, same⟩ := Text.append_inj_of_byteSize whole' (Eq.trans (by rfl) size.symm)
    obtain ⟨rfl, -⟩ := List.cons.inj same
    rcases reason with ⟨-, -, stays⟩ | ⟨impossible, -⟩
    · exact fun more => stays _ ⟨more.toList, by rw [String.toList_append]; rfl⟩
    · cases impossible
  · obtain ⟨before, char, after, tokens, whole, size, -, reason⟩ := tokenize_rejected quote
    have whole' : ['x', ' '] ++ ['\'', 'é'] = before ++ char :: after := whole
    obtain ⟨-, same⟩ := Text.append_inj_of_byteSize whole' (Eq.trans (by rfl) size.symm)
    obtain ⟨rfl, -⟩ := List.cons.inj same
    rcases reason with ⟨impossible, -⟩ | ⟨-, -, -, stays⟩
    · cases impossible
    · exact stays

end FrontEnd
