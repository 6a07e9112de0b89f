/-
This file passes over the tokens of a text that other text follows. What follows decides about the
last token by two characters at most, so a text is split alike before all that shows no more.
-/

import FrontEnd.Proofs.Token.Longest
import FrontEnd.Proofs.Tree.Relocation

namespace FrontEnd

/-- An error moves with the text that it is found in. -/
def LexicalError.relocate (move : Nat → Nat) : LexicalError → LexicalError
  | .unexpected char offset => .unexpected char (move offset)
  | .unterminated offset => .unterminated (move offset)

namespace Lexer

/-- A rest shows no more than another one when its first characters are those of the other one, or
blank. The second one counts only after a point. -/
structure ShowsNoMore (rest' rest : List Char) : Prop where
  first : ∀ char ∈ rest'.head?, char ∈ rest.head? ∨ isBlank char
  second : rest'.head? = some '.' →
    ∀ char ∈ rest'.tail.head?, char ∈ rest.tail.head? ∨ isBlank char

section ShowsNoMore

variable {rest rest' : List Char}

theorem showsNoMore_nil (rest : List Char) : ShowsNoMore [] rest := ⟨by simp, by simp⟩

theorem showsNoMore_blank (blank : ∀ char ∈ rest'.head?, isBlank char) (rest : List Char) :
    ShowsNoMore rest' rest := by
  refine ⟨fun char next => .inr (blank char next), fun point => ?_⟩
  exact absurd (blank '.' point) (by decide)

/-- Only after a point the second character is shown. -/
theorem showsNoMore_cons {char : Char} (noPoint : char ≠ '.') (after after' : List Char) :
    ShowsNoMore (char :: after') (char :: after) :=
  ⟨fun _ next => .inl next, fun point => absurd (Option.some.inj point) noPoint⟩

/-- What shows no more still does so behind the same text. -/
theorem ShowsNoMore.append (shows : ShowsNoMore rest' rest) (text : List Char) :
    ShowsNoMore (text ++ rest') (text ++ rest) := by
  -- A character sees two more at most, so a longer text hides what follows it.
  match text with
  | [] => exact shows
  | [char] => exact ⟨fun _ next => .inl next, fun _ => shows.first⟩
  | _ :: _ :: _ => exact ⟨fun _ next => .inl next, fun _ _ next => .inl next⟩

end ShowsNoMore

theorem continuesWord_eq_false {char : Char} (blank : isBlank char) :
    continuesWord char = false := by
  rw [← Bool.not_eq_true]
  intro word
  rw [isBlank_eq_false word] at blank
  cases blank

theorem isDigit_eq_false_of_blank {char : Char} (blank : isBlank char) : char.isDigit = false :=
  (Bool.or_eq_false_iff.1 (continuesWord_eq_false blank)).2

/-- No blank ends a fixed spelling of two. -/
theorem not_mem_pairEnds {char : Char} (blank : isBlank char) : char ∉ pairEnds := by
  intro member
  have none : pairEnds.all (!isBlank ·) := by decide
  simpa [blank] using List.all_eq_true.1 none char member

section Stands

variable {kind : TokenKind} {spelling rest rest' : List Char}

/-- A spelling before a rest also stands before what shows no more. -/
theorem Stands.shown (stands : Stands kind spelling rest) (shows : ShowsNoMore rest' rest) :
    Stands kind spelling rest' := by
  have pointShown : rest'.head? = some '.' → rest.head? = some '.' := fun point =>
    (shows.first '.' point).resolve_right (by decide)
  constructor
  · intro first single next ahead
    rcases shows.first next ahead with same | blank
    · exact stands.alone first single next same
    · exact pairKind?_eq_none (not_mem_pairEnds blank)
  · intro isWord next ahead
    rcases shows.first next ahead with same | blank
    · exact stands.word isWord next same
    · exact continuesWord_eq_false blank
  · intro numeral next ahead
    rcases shows.first next ahead with same | blank
    · exact stands.digits numeral next same
    · exact isDigit_eq_false_of_blank blank
  · intro numeral noPoint point next ahead
    rcases shows.second point next ahead with same | blank
    · exact stands.whole numeral noPoint (pointShown point) next same
    · exact isDigit_eq_false_of_blank blank
  · exact fun number point again => stands.free number point (pointShown again)

/-- What is split off stands before its rest. -/
theorem Cuts.stands (cuts : Cuts kind spelling rest) : Stands kind spelling rest := by
  obtain ⟨first, more, rfl, found⟩ := cuts
  obtain ⟨-, longest, free⟩ := front_eq_token_iff.1 found
  exact longest.stands free

/-- What is split off is a spelling of its kind. -/
theorem Cuts.isSpelledBy (cuts : Cuts kind spelling rest) :
    kind.IsSpelledBy (String.ofList spelling) := by
  obtain ⟨first, more, -, found⟩ := cuts
  exact front_isSpelledBy found

/-- What is split off before one rest is split off before another that shows no more. -/
theorem Cuts.shown (cuts : Cuts kind spelling rest) (shows : ShowsNoMore rest' rest) :
    Cuts kind spelling rest' :=
  (cuts.stands.shown shows).cuts cuts.isSpelledBy

/-- Every spelling stands before a blank and at the end. -/
theorem cuts_beforeBlank (spelled : kind.IsSpelledBy (String.ofList spelling))
    (blank : ∀ char ∈ rest.head?, isBlank char) : Cuts kind spelling rest := by
  have noPoint : rest.head? ≠ some '.' := fun point => absurd (blank '.' point) (by decide)
  have stands : Stands kind spelling rest := {
    alone := fun _ _ next ahead => pairKind?_eq_none (not_mem_pairEnds (blank next ahead))
    word := fun _ next ahead => continuesWord_eq_false (blank next ahead)
    digits := fun _ next ahead => isDigit_eq_false_of_blank (blank next ahead)
    whole := fun _ _ point => absurd point noPoint
    free := fun _ _ => noPoint }
  exact stands.cuts spelled

end Stands

/-- A text is split into tokens before a rest, from an offset on, when each token is split off
there. -/
inductive Passes (rest : List Char) : Nat → List Char → List Token → Prop
  | done (offset : Nat) : Passes rest offset [] []
  | blank {offset : Nat} {char : Char} {text : List Char} {tokens : List Token}
      (isBlank : isBlank char) (later : Passes rest (offset + char.utf8Size) text tokens) :
      Passes rest offset (char :: text) tokens
  | token {offset : Nat} {kind : TokenKind} {spelling text : List Char} {tokens : List Token}
      (cuts : Cuts kind spelling (text ++ rest))
      (later : Passes rest (offset + Text.byteSize spelling) text tokens) :
      Passes rest offset (spelling ++ text)
        (⟨offset, kind, String.ofList spelling, false⟩ :: tokens)

section Passes

variable {rest rest' text text' : List Char} {offset : Nat} {tokens tokens' : List Token}

/-- The tokens of a text come before those of what follows it. -/
theorem Passes.tokensFrom (passes : Passes rest offset text tokens) :
    tokensFrom offset (text ++ rest) =
      (tokens ++ ·) <$> Lexer.tokensFrom (offset + Text.byteSize text) rest := by
  induction passes with
  | done offset => exact (id_map (Lexer.tokensFrom offset rest)).symm
  | blank isBlank _ inductionHypothesis =>
      rw [List.cons_append, tokensFrom_blank (front_blank isBlank _), inductionHypothesis,
        Text.byteSize_cons, Nat.add_assoc]
  | @token offset kind spelling text tokens cuts _ inductionHypothesis =>
      obtain ⟨first, more, rfl, found⟩ := cuts
      rw [List.append_assoc, List.cons_append, tokensFrom_token found, inductionHypothesis,
        Text.byteSize_append, ← Nat.add_assoc, Functor.map_map]
      rfl

/-- A text is split alike before what shows no more. -/
theorem Passes.shown (passes : Passes rest offset text tokens) (shows : ShowsNoMore rest' rest) :
    Passes rest' offset text tokens := by
  induction passes with
  | done offset => exact .done offset
  | blank isBlank _ inductionHypothesis => exact .blank isBlank inductionHypothesis
  | token cuts _ inductionHypothesis =>
      exact .token (cuts.shown (shows.append _)) inductionHypothesis

/-- Texts are passed over one after the other. -/
theorem Passes.append (passes : Passes (text' ++ rest) offset text tokens)
    (later : Passes rest (offset + Text.byteSize text) text' tokens') :
    Passes rest offset (text ++ text') (tokens ++ tokens') := by
  induction passes with
  | done offset => exact later
  | blank isBlank _ inductionHypothesis =>
      rw [Text.byteSize_cons, ← Nat.add_assoc] at later
      exact .blank isBlank (inductionHypothesis later)
  | token cuts _ inductionHypothesis =>
      rw [Text.byteSize_append, ← Nat.add_assoc] at later
      rw [List.append_assoc]
      rw [← List.append_assoc] at cuts
      exact .token cuts (inductionHypothesis later)

/-- Blanks leave no token. -/
theorem passes_blanks (blank : ∀ char ∈ text, isBlank char) (offset : Nat) (rest : List Char) :
    Passes rest offset text [] := by
  induction text generalizing offset with
  | nil => exact .done offset
  | cons char text inductionHypothesis =>
      obtain ⟨isBlank, others⟩ := List.forall_mem_cons.1 blank
      exact .blank isBlank (inductionHypothesis others _)

/-- A text that is split into tokens up to its end has these tokens, with a marker after them. -/
theorem Passes.tokensFrom_nil (passes : Passes [] offset text tokens) :
    Lexer.tokensFrom offset text =
      .ok (tokens ++ [Token.eof (offset + Text.byteSize text)]) := by
  have split := passes.tokensFrom
  rw [List.append_nil] at split
  rw [split]
  rfl

end Passes

/-- A text is stuck when it begins with neither a blank nor a token. -/
def Stuck : List Char → Prop
  | [] => True
  | first :: rest =>
      (∃ char distance, front first rest = .unexpected char distance) ∨
        front first rest = .unterminated

/-- Every text is split into tokens up to a place where it is stuck. -/
theorem exists_passes (offset : Nat) (chars : List Char) :
    ∃ text rest tokens, chars = text ++ rest ∧ Passes rest offset text tokens ∧ Stuck rest := by
  -- The induction is on the length, since a token takes several characters at once.
  induction size : chars.length using Nat.strong_induction_on generalizing offset chars with
  | _ size inductionHypothesis =>
      subst size
      cases chars with
      | nil => exact ⟨[], [], [], rfl, .done offset, trivial⟩
      | cons first rest =>
          cases shown : front first rest with
          | blank =>
              obtain ⟨text, rest, tokens, rfl, passes, stuck⟩ :=
                inductionHypothesis _ (Nat.lt_succ_self _) (offset + first.utf8Size) rest rfl
              have blank := isBlank_of_front shown
              exact ⟨first :: text, rest, tokens, rfl, .blank blank passes, stuck⟩
          | token kind spelling after =>
              have shorter : after.length < (first :: rest).length :=
                Nat.lt_succ_of_le (front_shortens shown)
              obtain ⟨text, rest', tokens, rfl, passes, stuck⟩ :=
                inductionHypothesis _ shorter (offset + Text.byteSize spelling) after rfl
              obtain ⟨whole, longest, free⟩ := front_eq_token_iff.1 shown
              refine ⟨spelling ++ text, rest', _, ?_, .token (longest.cuts free) passes, stuck⟩
              rw [whole, List.append_assoc]
          | unexpected char distance =>
              exact ⟨[], first :: rest, [], rfl, .done offset, .inl ⟨char, distance, shown⟩⟩
          | unterminated => exact ⟨[], first :: rest, [], rfl, .done offset, .inr shown⟩

section Results

variable {offset : Nat} {chars : List Char}

/-- A text that has tokens is split into them up to its end. -/
theorem passes_of_ok {tokens : List Token} (found : tokensFrom offset chars = .ok tokens) :
    ∃ body, tokens = body ++ [Token.eof (offset + Text.byteSize chars)] ∧
      Passes [] offset chars body := by
  obtain ⟨text, rest, body, rfl, passes, stuck⟩ := exists_passes offset chars
  cases rest with
  | nil =>
      rw [List.append_nil] at found ⊢
      rw [passes.tokensFrom_nil] at found
      exact ⟨body, (Except.ok.inj found).symm, passes⟩
  | cons first later =>
      rw [passes.tokensFrom] at found
      rcases stuck with ⟨char, distance, shown⟩ | shown
      · rw [tokensFrom_unexpected shown] at found
        cases found
      · rw [tokensFrom_unterminated shown] at found
        cases found

/-- A text without tokens is split up to the place where it is stuck, which gives the error. -/
theorem passes_of_error {error : LexicalError} (found : tokensFrom offset chars = .error error) :
    ∃ text first rest body, chars = text ++ first :: rest ∧
      Passes (first :: rest) offset text body ∧
      ((∃ char distance, front first rest = .unexpected char distance ∧
          error = .unexpected char (offset + Text.byteSize text + distance)) ∨
        front first rest = .unterminated ∧
          error = .unterminated (offset + Text.byteSize text)) := by
  obtain ⟨text, rest, body, rfl, passes, stuck⟩ := exists_passes offset chars
  cases rest with
  | nil =>
      rw [List.append_nil, passes.tokensFrom_nil] at found
      cases found
  | cons first later =>
      refine ⟨text, first, later, body, rfl, passes, ?_⟩
      rw [passes.tokensFrom] at found
      rcases stuck with ⟨char, distance, shown⟩ | shown
      · rw [tokensFrom_unexpected shown] at found
        exact .inl ⟨char, distance, shown, (Except.error.inj found).symm⟩
      · rw [tokensFrom_unterminated shown] at found
        exact .inr ⟨shown, (Except.error.inj found).symm⟩

end Results

/-- The tokens or the error of a text that is moved to other offsets. -/
def moved (move : Nat → Nat) (result : Except LexicalError (List Token)) :
    Except LexicalError (List Token) :=
  (result.map (List.map (Token.relocate move))).mapError (LexicalError.relocate move)

/-- By induction on the bound, the tokens of a moved text are the moved tokens. -/
theorem tokensWithin_moved (bound offset distance : Nat) (chars : List Char) :
    tokensWithin bound (offset + distance) chars =
      moved (· + distance) (tokensWithin bound offset chars) := by
  induction bound generalizing offset chars with
  | zero => rfl
  | succ bound inductionHypothesis =>
      cases chars with
      | nil => rfl
      | cons first rest =>
          have along (size : Nat) : offset + distance + size = offset + size + distance := by omega
          rw [tokensWithin, tokensWithin]
          cases front first rest with
          | blank => simp only [along, inductionHypothesis]
          | token kind spelling after =>
              simp only [along, inductionHypothesis]
              cases tokensWithin bound (offset + Text.byteSize spelling) after <;> rfl
          | unexpected char ahead => simp only [along]; rfl
          | unterminated => rfl

/-- A text has the same tokens from every offset on, but for where they stand. -/
theorem tokensFrom_moved (distance : Nat) (chars : List Char) :
    tokensFrom distance chars = moved (· + distance) (tokensFrom 0 chars) := by
  have along := tokensWithin_moved chars.length 0 distance chars
  rwa [Nat.zero_add] at along

end Lexer

/-- Blanks between two texts keep their tokens apart. -/
theorem Lexer.tokensFrom_joined {first blanks : List Char} {tokens : List Token}
    (lexed : tokensFrom 0 first = .ok tokens) (apart : blanks ≠ [])
    (blank : ∀ char ∈ blanks, isBlank char) (second : List Char) :
    tokensFrom 0 (first ++ blanks ++ second) = (tokens.dropLast ++ ·) <$>
      moved (· + (Text.byteSize first + Text.byteSize blanks)) (tokensFrom 0 second) := by
  obtain ⟨body, rfl, passes⟩ := passes_of_ok lexed
  have blankAhead : ∀ char ∈ (blanks ++ second).head?, isBlank char := by
    rw [List.head?_append_of_ne_nil _ apart]
    exact fun char ahead => blank char (List.mem_of_head? ahead)
  have passesBlanks := passes_blanks blank (0 + Text.byteSize first) second
  have passesAll := (passes.shown (showsNoMore_blank blankAhead [])).append passesBlanks
  rw [passesAll.tokensFrom, Nat.zero_add, Text.byteSize_append, tokensFrom_moved,
    List.append_nil, List.dropLast_concat]

/-- The tokens of a text stay as they are before blanks, and those of the text behind the blanks, or
its error, are moved there. A cursor that stands behind the blanks finds these alone. -/
theorem tokenize_joined {first second blanks : String} {tokens : List Token}
    (lexed : tokenize first = .ok tokens) (apart : blanks ≠ "")
    (blank : ∀ char ∈ blanks.toList, Lexer.isBlank char) :
    let whole := first ++ blanks ++ second
    let distance := Text.byteSize first.toList + Text.byteSize blanks.toList
    let later := Lexer.moved (· + distance) (tokenize second)
    (∀ cursor : TextCursor, cursor.text = whole.toList → cursor.position = distance →
      Lexer.tokensAhead cursor = later) ∧
      tokenize whole = (tokens.dropLast ++ ·) <$> later := by
  intro whole distance later
  have text : whole.toList = (first.toList ++ blanks.toList) ++ second.toList := by simp [whole]
  have size : Text.byteSize (first.toList ++ blanks.toList) = distance := Text.byteSize_append _ _
  constructor
  · intro cursor stands position
    rw [text] at stands
    rw [← size] at position
    rw [Lexer.tokensAhead, TextCursor.rest_eq stands position, position, size]
    exact Lexer.tokensFrom_moved distance second.toList
  · have filled : blanks.toList ≠ [] := fun none => apart (String.toList_eq_nil_iff.1 none)
    rw [tokenize, text]
    exact Lexer.tokensFrom_joined lexed filled blank second.toList

/-- A cursor behind a wide string and a line break finds the tokens of the next line. -/
theorem tokenize_joinedLines :
    let string : Token := ⟨0, .literal .string, "'é'", false⟩
    let sign : Token := ⟨6, .operator .minus, "-", false⟩
    let number : Token := ⟨7, .literal .number, "1", false⟩
    tokenize "'é'" = .ok [string, Token.eof 4] ∧
      Lexer.tokensAhead ((TextCursor.ofText "'é' \n-1").skip 5) =
        .ok [sign, number, Token.eof 8] ∧
      tokenize "'é' \n-1" = .ok [string, sign, number, Token.eof 8] := by
  intro string sign number
  have lexed : tokenize "'é'" = .ok [string, Token.eof 4] := by rfl
  have blank : ∀ char ∈ " \n".toList, Lexer.isBlank char := List.all_eq_true.1 (by decide)
  obtain ⟨ahead, whole⟩ := @tokenize_joined "'é'" "-1" " \n" _ lexed (by decide) blank
  exact ⟨lexed, ahead _ (by rfl) (by rfl), whole⟩

end FrontEnd
