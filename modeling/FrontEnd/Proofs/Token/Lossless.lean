/-
This file puts a text together from its tokens again. The tokens stand in the text one after the
other, and only blanks stand between them.
-/

import FrontEnd.Proofs.Token.Scanning

namespace FrontEnd

/-- A token of a text has its lexeme at its offset. -/
structure Token.IsPartOf (token : Token) (chars : List Char) : Prop where
  real : token.kind ≠ .eof
  spelled : token.kind.IsSpelledBy token.lexeme
  filled : token.lexeme ≠ ""
  genuine : token.error = false
  starts : Text.isBoundary token.offset chars
  stops : Text.isBoundary token.stop chars
  within : token.stop ≤ Text.byteSize chars
  sliced : Text.slice? token.offset token.stop chars = some token.lexeme.toList

/-- The end of a token is not after the start of a later one, which is greater than its own. -/
def Token.StandsBefore (earlier later : Token) : Prop :=
  earlier.offset < later.offset ∧ earlier.stop ≤ later.offset

/-- A token covers the bytes of its lexeme. -/
def Token.Covers (token : Token) (index : Nat) : Prop :=
  token.offset ≤ index ∧ index < token.stop

theorem Token.WellSpelled.filled {token : Token} (well : token.WellSpelled) :
    token.lexeme.toList ≠ [] :=
  Lexer.isSpelledBy_ne_nil well.spelled

theorem Token.WellSpelled.stop_eq {token : Token} (well : token.WellSpelled) :
    token.stop = token.offset + Text.byteSize token.lexeme.toList := by
  rw [stop, well.genuine, if_neg (by decide), length]

theorem Text.byteSize_pos {chars : List Char} (filled : chars ≠ []) : 0 < byteSize chars := by
  cases chars with
  | nil => exact absurd rfl filled
  | cons char rest =>
      have positive := char.utf8Size_pos
      rw [byteSize_cons]
      omega

theorem Text.slice?_append (before middle after : List Char) :
    slice? (byteSize before) (byteSize before + byteSize middle) (before ++ (middle ++ after)) =
      some middle := by
  have size : byteSize before + byteSize middle - byteSize before = byteSize middle :=
    Nat.add_sub_cancel_left _ _
  rw [slice?, if_pos (Nat.le_add_right _ _), splitBytes?_append, size]
  simp [splitBytes?_append]

/-- A lexeme between two parts of a text is a part of the text. -/
theorem Token.WellSpelled.isPartOf {token : Token} (well : token.WellSpelled)
    {before after : List Char} (offset : token.offset = Text.byteSize before) :
    token.IsPartOf (before ++ (token.lexeme.toList ++ after)) := by
  have stop : token.stop = Text.byteSize (before ++ token.lexeme.toList) := by
    rw [well.stop_eq, offset, Text.byteSize_append]
  refine ⟨well.kind_ne_eof, well.spelled, ?_, well.genuine, ?_, ?_, ?_, ?_⟩
  · intro none
    exact well.filled (by rw [none]; rfl)
  · rw [Text.isBoundary, offset, Text.splitBytes?_append]
    rfl
  · rw [Text.isBoundary, stop, ← List.append_assoc, Text.splitBytes?_append]
    rfl
  · rw [stop, ← List.append_assoc, Text.byteSize_append (before ++ _)]
    exact Nat.le_add_right _ _
  · rw [well.stop_eq, offset, Text.slice?_append]

namespace Lexer

/-- Tokens render a text that starts at an offset when they are written in it in order, with
blanks between them. -/
inductive Renders : Nat → List Char → List Token → Prop
  | done (offset : Nat) : Renders offset [] []
  | blank {offset : Nat} {char : Char} {rest : List Char} {tokens : List Token}
      (isBlank : isBlank char) (later : Renders (offset + char.utf8Size) rest tokens) :
      Renders offset (char :: rest) tokens
  | token {token : Token} {rest : List Char} {tokens : List Token} (well : token.WellSpelled)
      (later : Renders token.stop rest tokens) :
      Renders token.offset (token.lexeme.toList ++ rest) (token :: tokens)

theorem isBlank_of_front {first : Char} {rest : List Char} (found : front first rest = .blank) :
    isBlank first := by
  have noFixed : ∀ shown, fixedFront? first rest = some shown → shown ≠ .blank := by
    rintro _ fixed rfl
    unfold fixedFront? at fixed
    cases rest with
    | nil => simp at fixed
    | cons second later =>
        simp only at fixed
        split at fixed
        · cases fixed
        · simp at fixed
  unfold front at found
  split at found
  · rename_i shown fixed
    exact absurd found (noFixed shown fixed)
  · split at found
    · unfold stringFront at found
      split at found <;> cases found
    · split at found
      · rename_i blank
        exact blank
      · split at found
        · unfold numberFront at found
          simp only at found
          split at found
          · split at found
            · split at found <;> cases found
            · cases found
          · cases found
        · split at found <;> cases found

/-- Splitting a text bounds its tokens by its characters, so it renders the whole text. -/
theorem tokensWithin_renders {bound offset : Nat} {chars : List Char} {tokens : List Token}
    (enough : chars.length ≤ bound) (found : tokensWithin bound offset chars = .ok tokens) :
    ∃ body, tokens = body ++ [Token.eof (offset + Text.byteSize chars)] ∧
      Renders offset chars body := by
  induction bound generalizing offset chars tokens with
  | zero =>
      obtain rfl := List.eq_nil_of_length_eq_zero (Nat.le_zero.1 enough)
      cases found
      exact ⟨[], rfl, .done offset⟩
  | succ bound inductionHypothesis =>
      cases chars with
      | nil =>
          cases found
          exact ⟨[], rfl, .done offset⟩
      | cons first rest =>
          rw [tokensWithin] at found
          rw [List.length_cons] at enough
          split at found
          · rename_i shown
            obtain ⟨body, rfl, renders⟩ := inductionHypothesis (by omega) found
            refine ⟨body, by rw [Text.byteSize_cons, Nat.add_assoc], .blank ?_ renders⟩
            exact isBlank_of_front shown
          · rename_i kind spelling after shown
            have less := front_shortens shown
            cases ahead : tokensWithin bound (offset + Text.byteSize spelling) after with
            | error error =>
                rw [ahead] at found
                cases found
            | ok following =>
                rw [ahead] at found
                cases found
                obtain ⟨body, rfl, renders⟩ := inductionHypothesis (by omega) ahead
                let token : Token := ⟨offset, kind, String.ofList spelling, false⟩
                have well : token.WellSpelled := ⟨rfl, front_isSpelledBy shown⟩
                have lexeme : token.lexeme.toList = spelling := String.toList_ofList
                have whole : first :: rest = token.lexeme.toList ++ after := by
                  rw [lexeme, front_sound shown]
                refine ⟨token :: body, ?_, ?_⟩
                · rw [whole, lexeme, Text.byteSize_append, Nat.add_assoc]
                  rfl
                · rw [whole]
                  refine .token well ?_
                  rw [well.stop_eq, lexeme]
                  exact renders
          · cases found
          · cases found

section Rendered

variable {offset : Nat} {chars : List Char} {tokens : List Token}
  (renders : Renders offset chars tokens)

include renders

/-- Every token is a part of the whole text, of which some is already passed. -/
theorem Renders.isPartOf {before : List Char} (passed : Text.byteSize before = offset) :
    ∀ token ∈ tokens, token.IsPartOf (before ++ chars) := by
  induction renders generalizing before with
  | done => simp
  | @blank offset char rest tokens _ _ inductionHypothesis =>
      have next : Text.byteSize (before ++ [char]) = offset + char.utf8Size := by
        rw [Text.byteSize_append, passed]
        rfl
      simpa using inductionHypothesis next
  | @token token rest tokens well _ inductionHypothesis =>
      have next : Text.byteSize (before ++ token.lexeme.toList) = token.stop := by
        rw [Text.byteSize_append, passed, well.stop_eq]
      refine List.forall_mem_cons.2 ⟨well.isPartOf passed.symm, ?_⟩
      simpa using inductionHypothesis next

/-- The tokens stand in order between the two ends of the text. -/
theorem Renders.ordered :
    (∀ token ∈ tokens, offset ≤ token.offset) ∧
      (tokens ++ [Token.eof (offset + Text.byteSize chars)]).Pairwise Token.StandsBefore := by
  induction renders with
  | done => simp
  | @blank offset char rest tokens _ _ inductionHypothesis =>
      obtain ⟨after, ordered⟩ := inductionHypothesis
      rw [Nat.add_assoc] at ordered
      exact ⟨fun token member => (Nat.le_add_right _ _).trans (after token member), ordered⟩
  | @token token rest tokens well _ inductionHypothesis =>
      obtain ⟨after, ordered⟩ := inductionHypothesis
      have positive := Text.byteSize_pos well.filled
      have stop := well.stop_eq
      refine ⟨List.forall_mem_cons.2 ⟨le_rfl, fun later member => ?_⟩, ?_⟩
      · have := after later member
        omega
      · rw [List.cons_append, Text.byteSize_append, ← Nat.add_assoc, ← stop]
        refine List.pairwise_cons.2 ⟨fun later member => ?_, ordered⟩
        have atLeast : token.stop ≤ later.offset := by
          rcases List.mem_append.1 member with inTokens | last
          · exact after later inTokens
          · rw [List.mem_singleton.1 last]
            exact Nat.le_add_right _ _
        exact ⟨by omega, atLeast⟩

/-- The text is a run of blanks before each token and at its end, with the lexemes between. -/
theorem Renders.gaps (stop : Nat) :
    ∃ gaps : List (List Char), gaps.length = (tokens ++ [Token.eof stop]).length ∧
      (∀ gap ∈ gaps, ∀ char ∈ gap, isBlank char) ∧
      chars = (List.zipWith (fun gap (token : Token) => gap ++ token.lexeme.toList) gaps
        (tokens ++ [Token.eof stop])).flatten := by
  induction renders with
  | done => exact ⟨[[]], rfl, by simp, rfl⟩
  | @blank offset char rest tokens isBlank _ inductionHypothesis =>
      obtain ⟨gaps, counted, blanks, whole⟩ := inductionHypothesis
      cases gaps with
      | nil => simp at counted
      | cons gap others =>
          obtain ⟨gapBlank, othersBlank⟩ := List.forall_mem_cons.1 blanks
          refine ⟨(char :: gap) :: others, counted, ?_, ?_⟩
          · exact List.forall_mem_cons.2 ⟨List.forall_mem_cons.2 ⟨isBlank, gapBlank⟩, othersBlank⟩
          · rw [whole]
            cases tokens <;> rfl
  | @token token rest tokens well _ inductionHypothesis =>
      obtain ⟨gaps, counted, blanks, whole⟩ := inductionHypothesis
      refine ⟨[] :: gaps, by simp [counted], by simpa using blanks, ?_⟩
      rw [whole]
      rfl

/-- A byte that no token covers belongs to a blank. -/
theorem Renders.uncovered {before after : List Char} {char : Char} {index : Nat}
    (parts : chars = before ++ char :: after) (starts : offset + Text.byteSize before ≤ index)
    (stops : index < offset + Text.byteSize before + char.utf8Size)
    (free : ∀ token ∈ tokens, ¬token.Covers index) : isBlank char := by
  induction renders generalizing before with
  | done => simp at parts
  | @blank offset first rest tokens isBlank _ inductionHypothesis =>
      cases before with
      | nil =>
          obtain ⟨rfl, -⟩ := List.cons.inj parts
          exact isBlank
      | cons other before =>
          obtain ⟨rfl, rest⟩ := List.cons.inj parts
          rw [Text.byteSize_cons] at starts stops
          exact inductionHypothesis rest (by omega) (by omega) free
  | @token token rest tokens well _ inductionHypothesis =>
      obtain ⟨freeFirst, freeOthers⟩ := List.forall_mem_cons.1 free
      have stop := well.stop_eq
      have size := Text.byteSize_pos (List.cons_ne_nil char after)
      rcases List.append_eq_append_iff.1 parts with ⟨more, rfl, later⟩ | ⟨more, same, later⟩
      · rw [Text.byteSize_append] at starts stops
        exact inductionHypothesis later (by omega) (by omega) freeOthers
      · cases more with
        | nil =>
            rw [List.append_nil] at same
            rw [← same] at starts stops
            refine @inductionHypothesis [] later.symm ?_ ?_ freeOthers
            all_goals
              rw [Text.byteSize_nil]
              omega
        | cons next inside =>
            obtain ⟨rfl, -⟩ := List.cons.inj later
            rw [same, Text.byteSize_append, Text.byteSize_cons] at stop
            exact absurd ⟨by omega, by omega⟩ freeFirst

end Rendered

end Lexer

/-- Every token but the marker at the end is the part of the text at its place, and the tokens stand
in order. -/
theorem tokenize_parts {text : String} {tokens : List Token}
    (lexed : tokenize text = .ok tokens) :
    (∃ body, tokens = body ++ [Token.eof (Text.byteSize text.toList)] ∧
        ∀ token ∈ body, token.IsPartOf text.toList) ∧
      tokens.Pairwise Token.StandsBefore := by
  obtain ⟨body, rfl, renders⟩ := Lexer.tokensWithin_renders le_rfl lexed
  rw [Nat.zero_add]
  have parts : ∀ token ∈ body, token.IsPartOf ([] ++ text.toList) := renders.isPartOf rfl
  exact ⟨⟨body, rfl, parts⟩, by simpa using renders.ordered.2⟩

/-- Splitting a text into tokens loses nothing. The marker at its end is the only one, every other
token is the part of the text at its place, the tokens stand in order, and what none of them covers
is blank. -/
theorem tokenize_lossless {text : String} {tokens : List Token}
    (lexed : tokenize text = .ok tokens) :
    (∃ body, tokens = body ++ [Token.eof (Text.byteSize text.toList)] ∧
        ∀ token ∈ body, token.IsPartOf text.toList) ∧
      tokens.Pairwise Token.StandsBefore ∧
      (∀ before char after index, text.toList = before ++ char :: after →
        Text.byteSize before ≤ index → index < Text.byteSize before + char.utf8Size →
          (∀ token ∈ tokens, ¬token.Covers index) → Lexer.isBlank char) ∧
      ∃ gaps : List (List Char), gaps.length = tokens.length ∧
        (∀ gap ∈ gaps, ∀ char ∈ gap, Lexer.isBlank char) ∧
        text.toList = (List.zipWith (fun gap (token : Token) => gap ++ token.lexeme.toList)
          gaps tokens).flatten := by
  obtain ⟨parts, ordered⟩ := tokenize_parts lexed
  obtain ⟨body, rfl, renders⟩ := Lexer.tokensWithin_renders le_rfl lexed
  refine ⟨parts, ordered, ?_, renders.gaps _⟩
  intro before char after index split first last free
  have freeBody : ∀ token ∈ body, ¬token.Covers index := fun token member =>
    free token (List.mem_append_left _ member)
  rw [← Nat.zero_add (Text.byteSize before)] at first last
  exact renders.uncovered split first last freeBody

/-- A text with a string of wide characters and blanks of all sorts is put together again. -/
theorem tokenize_wideString :
    let tokens : List Token := [⟨1, .keyword .letWord, "let", false⟩, ⟨5, .identifier, "s", false⟩,
      ⟨7, .operator .equals, "=", false⟩, ⟨9, .literal .string, "'é\nü'", false⟩, Token.eof 18]
    tokenize "\tlet s\n= 'é\nü'\r\n" = .ok tokens ∧
      (∃ body, tokens = body ++ [Token.eof (Text.byteSize "\tlet s\n= 'é\nü'\r\n".toList)] ∧
        ∀ token ∈ body, token.IsPartOf "\tlet s\n= 'é\nü'\r\n".toList) ∧
      tokens.Pairwise Token.StandsBefore := by
  intro tokens
  have lexed : tokenize "\tlet s\n= 'é\nü'\r\n" = .ok tokens := by rfl
  obtain ⟨parts, ordered, -⟩ := tokenize_lossless lexed
  exact ⟨lexed, parts, ordered⟩

end FrontEnd
