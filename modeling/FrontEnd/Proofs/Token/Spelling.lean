/-
This file describes the tokens of a text by their spellings.
-/

import FrontEnd.Token.Lexer
import Mathlib.Data.List.TakeWhile

namespace FrontEnd

/-- A word starts with a letter or an underscore, and digits may follow. -/
def IsWord (chars : List Char) : Prop :=
  ∃ first rest, chars = first :: rest ∧ (first.isAlpha ∨ first = '_') ∧
    ∀ char ∈ rest, char.isAlphanum ∨ char = '_'

/-- At least one digit and nothing else. -/
def IsDigits (chars : List Char) : Prop := chars ≠ [] ∧ ∀ char ∈ chars, char.isDigit

/-- A number has digits, and a point with more digits or no point. -/
def IsNumeral (chars : List Char) : Prop :=
  IsDigits chars ∨ ∃ whole fraction, chars = whole ++ '.' :: fraction ∧ IsDigits whole ∧
    IsDigits fraction

/-- A string stands between two quotes of a sort that its contents do not hold. -/
def IsQuotation (chars contents : List Char) : Prop :=
  ∃ quote, (quote = '\'' ∨ quote = '"') ∧ quote ∉ contents ∧ chars = quote :: (contents ++ [quote])

/-- The lexemes of each kind. A word that is a keyword or a truth value is no identifier, and the
marker has no lexeme. -/
inductive TokenKind.HasLexeme : TokenKind → String → Prop
  | keyword (keyword : Keyword) : HasLexeme (.keyword keyword) keyword.spelling
  | operator (operator : Operator) : HasLexeme (.operator operator) operator.spelling
  | bracket (bracket : Bracket) : HasLexeme (.bracket bracket) bracket.spelling
  | symbol (symbol : Symbol) : HasLexeme (.symbol symbol) symbol.spelling
  | truth : HasLexeme (.literal .boolean) "true"
  | falsehood : HasLexeme (.literal .boolean) "false"
  | identifier {lexeme : String} (isWord : IsWord lexeme.toList)
      (noTruth : lexeme ≠ "true" ∧ lexeme ≠ "false")
      (noKeyword : ∀ keyword : Keyword, lexeme ≠ keyword.spelling) :
      HasLexeme .identifier lexeme
  | number {lexeme : String} (numeral : IsNumeral lexeme.toList) :
      HasLexeme (.literal .number) lexeme
  | string {lexeme : String} {contents : List Char}
      (quotation : IsQuotation lexeme.toList contents) :
      HasLexeme (.literal .string) lexeme

/-- The fixed spelling of a kind. -/
def TokenKind.spelling? : TokenKind → Option String
  | .operator sign => some sign.spelling
  | .bracket side => some side.spelling
  | .symbol mark => some mark.spelling
  | .eof | .identifier | .keyword _ | .literal _ => none

/-- A spelling that the lexer gives to tokens of a kind. -/
def TokenKind.IsSpelledBy (kind : TokenKind) (lexeme : String) : Prop :=
  match kind with
  | .eof => False
  | .identifier | .keyword _ | .literal .boolean =>
      IsWord lexeme.toList ∧ Lexer.wordKind lexeme = kind
  | .literal .number => IsNumeral lexeme.toList
  | .literal .string => ∃ contents, IsQuotation lexeme.toList contents
  | kind => kind.spelling? = some lexeme

/-- A token of a text is no placeholder and has a spelling of its kind. -/
structure Token.WellSpelled (token : Token) : Prop where
  genuine : token.error = false
  spelled : token.kind.IsSpelledBy token.lexeme

/-- The marker stands only at the end of a text. -/
theorem Token.WellSpelled.kind_ne_eof {token : Token} (well : token.WellSpelled) :
    token.kind ≠ .eof := by
  intro ended
  have spelled := well.spelled
  rw [ended] at spelled
  exact spelled

namespace Lexer

/-- A word starts for the lexer as words do. -/
theorem startsWord_iff {char : Char} : startsWord char ↔ char.isAlpha ∨ char = '_' := by
  simp [startsWord]

/-- A word goes on for the lexer as words do. -/
theorem continuesWord_iff {char : Char} : continuesWord char ↔ char.isAlphanum ∨ char = '_' := by
  simp [continuesWord, startsWord, Char.isAlphanum, or_right_comm]

/-- The lexer skips blanks of four sorts. -/
theorem isBlank_iff {char : Char} : isBlank char ↔ char ∈ [' ', '\t', '\n', '\r'] := by
  simp [isBlank, or_assoc]

/-- The lexer knows quotes of two sorts. -/
theorem isQuote_iff {char : Char} : isQuote char ↔ char = '\'' ∨ char = '"' := by
  simp [isQuote]

end Lexer

/-- The characters that the lexer takes for a word make one. -/
theorem isWord_iff {chars : List Char} :
    IsWord chars ↔ ∃ first rest, chars = first :: rest ∧ Lexer.startsWord first ∧
      ∀ char ∈ rest, Lexer.continuesWord char := by
  simp only [IsWord, Lexer.startsWord_iff, Lexer.continuesWord_iff]

/-- Characters that the lexer would take for a word one by one make a word. -/
theorem isWord_cons {first : Char} {rest : List Char} (starts : Lexer.startsWord first)
    (continues : rest.all Lexer.continuesWord) : IsWord (first :: rest) :=
  isWord_iff.2 ⟨first, rest, rfl, starts, List.all_eq_true.1 continues⟩

/-- The characters that the lexer takes for a string make one. -/
theorem isQuotation_iff {chars contents : List Char} :
    IsQuotation chars contents ↔ ∃ quote, Lexer.isQuote quote ∧ quote ∉ contents ∧
      chars = quote :: (contents ++ [quote]) := by
  simp only [IsQuotation, Lexer.isQuote_iff]

/-- No keyword is missing from the list. -/
theorem Keyword.mem_all (keyword : Keyword) : keyword ∈ Keyword.all := by
  cases keyword <;> decide

/-- A word that is found to be a keyword is its spelling. -/
theorem Keyword.spelling_of_ofWord? {word : String} {keyword : Keyword}
    (found : Keyword.ofWord? word = some keyword) : keyword.spelling = word := by
  unfold Keyword.ofWord? at found
  simpa using List.find?_some found

/-- A word is no keyword when it is the spelling of none. -/
theorem Keyword.ofWord?_eq_none_iff {word : String} :
    Keyword.ofWord? word = none ↔ ∀ keyword : Keyword, word ≠ keyword.spelling := by
  rw [Keyword.ofWord?, List.find?_eq_none]
  constructor
  · rintro others keyword rfl
    exact others keyword keyword.mem_all (decide_eq_true rfl)
  · intro others keyword _ same
    exact others keyword (of_decide_eq_true same).symm

/-- Every keyword is a word. -/
theorem Keyword.isWord_spelling (keyword : Keyword) : IsWord keyword.spelling.toList := by
  cases keyword
  all_goals exact isWord_cons (by decide) (by decide)

/-- Tokens that are written in a text. -/
def Written (tokens : List Token) : Prop := ∀ token ∈ tokens, token.WellSpelled

/-- What is left of written tokens is written. -/
theorem Written.suffix {before after : List Token} (written : Written before)
    (suffix : after <:+ before) : Written after :=
  fun token member => written token (suffix.subset member)

namespace Lexer

/-- A quote of either sort is one byte wide. -/
theorem utf8Size_of_isQuote {char : Char} (quote : isQuote char) : char.utf8Size = 1 := by
  rcases Bool.or_eq_true_iff.1 quote with same | same
  all_goals
    rw [of_decide_eq_true same]
    rfl

/-- A character that stands for itself is the spelling of its kind. -/
theorem singleKind?_spelling {char : Char} {kind : TokenKind}
    (found : singleKind? char = some kind) :
    kind.spelling? = some (String.ofList [char]) := by
  unfold singleKind? at found
  split at found
  all_goals first
    | cases found
      rfl
    | cases found

/-- Two characters that stand for themselves are the spelling of their kind. -/
theorem pairKind?_spelling {first second : Char} {kind : TokenKind}
    (found : pairKind? first second = some kind) :
    kind.spelling? = some (String.ofList [first, second]) := by
  unfold pairKind? at found
  split at found
  all_goals first
    | cases found
      rfl
    | cases found

/-- A kind with a fixed spelling is spelled by it. -/
theorem isSpelledBy_of_spelling? {kind : TokenKind} {lexeme : String}
    (fixed : kind.spelling? = some lexeme) : kind.IsSpelledBy lexeme := by
  cases kind <;> first | exact fixed | cases fixed

section Fronts

variable {first : Char} {rest spelling after : List Char} {kind : TokenKind}

/-- What is split off as a fixed spelling is one. -/
theorem fixedFront?_isSpelledBy
    (found : fixedFront? first rest = some (.token kind spelling after)) :
    kind.IsSpelledBy (String.ofList spelling) := by
  apply isSpelledBy_of_spelling?
  unfold fixedFront? at found
  cases rest with
  | nil =>
      obtain ⟨single, single?, same⟩ := Option.map_eq_some_iff.1 found
      cases same
      exact singleKind?_spelling single?
  | cons second later =>
      simp only at found
      split at found
      · rename_i pair pair?
        cases found
        exact pairKind?_spelling pair?
      · obtain ⟨single, single?, same⟩ := Option.map_eq_some_iff.1 found
        cases same
        exact singleKind?_spelling single?

/-- What is split off behind a quote is a string. -/
theorem stringFront_isSpelledBy (isQuote : isQuote first)
    (found : stringFront first rest = .token kind spelling after) :
    kind.IsSpelledBy (String.ofList spelling) := by
  unfold stringFront at found
  split at found
  · cases found
  · rename_i closing tail dropped
    cases found
    obtain rfl : closing = first := by
      have stops := List.head?_dropWhile_not (fun char => char != first) rest
      rw [dropped] at stops
      simpa using stops
    refine ⟨rest.takeWhile (· != closing),
      isQuotation_iff.2 ⟨closing, isQuote, fun member => ?_, ?_⟩⟩
    · simpa using List.mem_takeWhile_imp member
    · simp

theorem isDigits_takeWhile (digit : first.isDigit) (rest : List Char) :
    IsDigits (first :: rest.takeWhile Char.isDigit) :=
  ⟨List.cons_ne_nil _ _, List.forall_mem_cons.2 ⟨digit, fun _ => List.mem_takeWhile_imp⟩⟩

/-- What is split off behind a digit is a number. -/
theorem numberFront_isSpelledBy (digit : first.isDigit)
    (found : numberFront first rest = .token kind spelling after) :
    kind.IsSpelledBy (String.ofList spelling) := by
  have whole := isDigits_takeWhile digit rest
  unfold numberFront at found
  simp only at found
  split at found
  · rename_i next later dropped
    split at found
    · rename_i isDigit
      split at found
      · cases found
      · cases found
        refine .inr ⟨_, _, ?_, whole, isDigits_takeWhile isDigit later⟩
        simp
    · cases found
      exact .inl (by simpa using whole)
  · cases found
    exact .inl (by simpa using whole)

/-- A word is a truth value, a keyword or an identifier. -/
theorem wordKind_cases (word : String) :
    ((word = "true" ∨ word = "false") ∧ wordKind word = .literal .boolean) ∨
      (∃ keyword : Keyword, word = keyword.spelling ∧ wordKind word = .keyword keyword) ∨
      ((word ≠ "true" ∧ word ≠ "false") ∧ (∀ keyword : Keyword, word ≠ keyword.spelling) ∧
        wordKind word = .identifier) := by
  unfold wordKind
  split
  · rename_i truth
    exact .inl ⟨truth, rfl⟩
  · rename_i noTruth
    split
    · rename_i keyword found
      exact .inr (.inl ⟨keyword, (Keyword.spelling_of_ofWord? found).symm, rfl⟩)
    · rename_i missed
      exact .inr (.inr ⟨not_or.1 noTruth, Keyword.ofWord?_eq_none_iff.1 missed, rfl⟩)

/-- The spelling of a keyword is taken for the keyword. -/
theorem wordKind_spelling (keyword : Keyword) :
    wordKind keyword.spelling = .keyword keyword := by
  cases keyword <;> decide

/-- A word is a lexeme of its kind. -/
theorem hasLexeme_wordKind {word : String} (isWord : IsWord word.toList) :
    (wordKind word).HasLexeme word := by
  rcases wordKind_cases word with
    ⟨truth, kind⟩ | ⟨keyword, rfl, kind⟩ | ⟨noTruth, noKeyword, kind⟩
  all_goals rw [kind]
  · rcases truth with rfl | rfl
    · exact .truth
    · exact .falsehood
  · exact .keyword keyword
  · exact .identifier isWord noTruth noKeyword

/-- A word is a spelling of its kind. -/
theorem isSpelledBy_wordKind {word : String} (isWord : IsWord word.toList) :
    (wordKind word).IsSpelledBy word := by
  rcases wordKind_cases word with ⟨-, same⟩ | ⟨keyword, -, same⟩ | ⟨-, -, same⟩
  all_goals
    rw [same]
    exact ⟨isWord, same⟩

theorem wordFront_isSpelledBy (starts : startsWord first)
    (found : wordFront first rest = .token kind spelling after) :
    kind.IsSpelledBy (String.ofList spelling) := by
  cases found
  have word : IsWord (String.ofList (first :: rest.takeWhile continuesWord)).toList := by
    rw [String.toList_ofList]
    exact isWord_cons starts List.all_takeWhile
  exact isSpelledBy_wordKind word

/-- Whatever is split off is a spelling of its kind. -/
theorem front_isSpelledBy (found : front first rest = .token kind spelling after) :
    kind.IsSpelledBy (String.ofList spelling) := by
  unfold front at found
  split at found
  · rename_i fixed fits
    rw [found] at fits
    exact fixedFront?_isSpelledBy fits
  · split at found
    · rename_i isQuote
      exact stringFront_isSpelledBy isQuote found
    · split at found
      · cases found
      · split at found
        · rename_i isDigit
          exact numberFront_isSpelledBy isDigit found
        · split at found
          · rename_i starts
            exact wordFront_isSpelledBy starts found
          · cases found

end Fronts

/-- By induction on the bound, all tokens are well spelled and the marker is the last. -/
theorem tokensWithin_wellSpelled {bound offset : Nat} {chars : List Char} {tokens : List Token}
    (found : tokensWithin bound offset chars = .ok tokens) :
    ∃ body stop, tokens = body ++ [Token.eof stop] ∧ ∀ token ∈ body, token.WellSpelled := by
  induction bound generalizing offset chars tokens with
  | zero =>
      cases found
      exact ⟨[], offset, rfl, by simp⟩
  | succ bound inductionHypothesis =>
      cases chars with
      | nil =>
          cases found
          exact ⟨[], offset, rfl, by simp⟩
      | cons first rest =>
          rw [tokensWithin] at found
          split at found
          · exact inductionHypothesis found
          · rename_i kind spelling after shown
            cases ahead : tokensWithin bound (offset + Text.byteSize spelling) after with
            | error error =>
                rw [ahead] at found
                cases found
            | ok following =>
                rw [ahead] at found
                cases found
                obtain ⟨body, stop, rfl, well⟩ := inductionHypothesis ahead
                refine ⟨_ :: body, stop, rfl, List.forall_mem_cons.2 ⟨⟨rfl, ?_⟩, well⟩⟩
                exact front_isSpelledBy shown
          · cases found
          · cases found

end Lexer

/-- The lexemes of a kind are its spellings. -/
theorem TokenKind.hasLexeme_iff {kind : TokenKind} {lexeme : String} :
    kind.HasLexeme lexeme ↔ kind.IsSpelledBy lexeme := by
  constructor
  · intro has
    cases has with
    | keyword keyword => exact ⟨keyword.isWord_spelling, Lexer.wordKind_spelling keyword⟩
    | operator | bracket | symbol => rfl
    | truth | falsehood =>
        exact ⟨isWord_cons (by decide) (by decide), by decide⟩
    | identifier isWord noTruth noKeyword =>
        rcases Lexer.wordKind_cases lexeme with ⟨truth, -⟩ | ⟨keyword, same, -⟩ | ⟨-, -, same⟩
        · exact absurd truth (not_or.2 noTruth)
        · exact absurd same (noKeyword keyword)
        · exact ⟨isWord, same⟩
    | number numeral => exact numeral
    | string quotation => exact ⟨_, quotation⟩
  · intro spelled
    have word : IsWord lexeme.toList ∧ Lexer.wordKind lexeme = kind → kind.HasLexeme lexeme := by
      rintro ⟨isWord, rfl⟩
      exact Lexer.hasLexeme_wordKind isWord
    cases kind with
    | eof => exact spelled.elim
    | identifier => exact word spelled
    | keyword keyword => exact word spelled
    | operator operator => exact Option.some.inj spelled ▸ .operator operator
    | bracket bracket => exact Option.some.inj spelled ▸ .bracket bracket
    | symbol symbol => exact Option.some.inj spelled ▸ .symbol symbol
    | literal sort =>
        cases sort with
        | boolean => exact word spelled
        | number => exact .number spelled
        | string =>
            obtain ⟨contents, quotation⟩ := spelled
            exact .string quotation

/-- The tokens of a text are well spelled, with one marker at their end. -/
theorem tokenize_wellSpelled {text : String} {tokens : List Token}
    (found : tokenize text = .ok tokens) :
    ∃ body stop, tokens = body ++ [Token.eof stop] ∧ ∀ token ∈ body, token.WellSpelled :=
  Lexer.tokensWithin_wellSpelled found

end FrontEnd
