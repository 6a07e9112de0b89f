/-
This file writes tokens with blanks between them. Whatever their kinds, the text has these tokens
again, and each one stands where it was written.
-/

import FrontEnd.Proofs.Token.Passing

namespace FrontEnd

/-- A lexeme of a kind and the blanks that are written before it. -/
structure Lexeme where
  gap : List Char
  kind : TokenKind
  spelling : String

namespace Lexeme

/-- The text of some lexemes with blanks after them. -/
def write (lexemes : List Lexeme) (final : List Char) : List Char :=
  lexemes.foldr (fun lexeme later => lexeme.gap ++ (lexeme.spelling.toList ++ later)) final

/-- The tokens of some lexemes that are written from an offset on. -/
def tokens : Nat → List Lexeme → List Token
  | _, [] => []
  | offset, lexeme :: lexemes =>
      let start := offset + Text.byteSize lexeme.gap
      ⟨start, lexeme.kind, lexeme.spelling, false⟩ ::
        tokens (start + Text.byteSize lexeme.spelling.toList) lexemes

theorem tokens_spellings (offset : Nat) (lexemes : List Lexeme) :
    (tokens offset lexemes).map (fun token => (token.kind, token.lexeme)) =
      lexemes.map fun lexeme => (lexeme.kind, lexeme.spelling) := by
  induction lexemes generalizing offset with
  | nil => rfl
  | cons lexeme lexemes inductionHypothesis =>
      rw [tokens, List.map_cons, inductionHypothesis]
      rfl

/-- Lexemes are spaced when blanks stand around them, and at least one between two of them. -/
structure Spaced (lexemes : List Lexeme) (final : List Char) : Prop where
  gaps : ∀ lexeme ∈ lexemes, ∀ char ∈ lexeme.gap, Lexer.isBlank char
  apart : ∀ lexeme ∈ lexemes.tail, lexeme.gap ≠ []
  final : ∀ char ∈ final, Lexer.isBlank char

section Spaced

variable {lexeme : Lexeme} {lexemes : List Lexeme} {final : List Char}

theorem Spaced.tail (spaced : Spaced (lexeme :: lexemes) final) : Spaced lexemes final where
  gaps later member := spaced.gaps later (List.mem_cons_of_mem _ member)
  apart later member := spaced.apart later (List.mem_of_mem_tail member)
  final := spaced.final

/-- A blank follows every lexeme but the last one. -/
theorem Spaced.blankAhead (spaced : Spaced (lexeme :: lexemes) final) :
    ∀ char ∈ (write lexemes final).head?, Lexer.isBlank char := by
  intro char ahead
  cases lexemes with
  | nil => exact spaced.final char (List.mem_of_head? ahead)
  | cons next later =>
      have filled : next.gap ≠ [] := spaced.apart next (List.mem_cons_self ..)
      rw [write, List.foldr_cons, List.head?_append_of_ne_nil _ filled] at ahead
      exact spaced.tail.gaps next (List.mem_cons_self ..) char (List.mem_of_head? ahead)

/-- Spaced lexemes are split off one after the other. -/
theorem passes_write (spaced : Spaced lexemes final)
    (spelled : ∀ lexeme ∈ lexemes, lexeme.kind.HasLexeme lexeme.spelling) (offset : Nat) :
    Lexer.Passes [] offset (write lexemes final) (tokens offset lexemes) := by
  induction lexemes generalizing offset with
  | nil => exact Lexer.passes_blanks spaced.final offset []
  | cons lexeme lexemes inductionHypothesis =>
      obtain ⟨first, others⟩ := List.forall_mem_cons.1 spelled
      have blank : ∀ char ∈ (write lexemes final ++ []).head?, Lexer.isBlank char := by
        rw [List.append_nil]
        exact spaced.blankAhead
      have cuts : Lexer.Cuts lexeme.kind lexeme.spelling.toList (write lexemes final ++ []) := by
        refine Lexer.cuts_beforeBlank ?_ blank
        rw [String.ofList_toList]
        exact TokenKind.hasLexeme_iff.1 first
      let stop := offset + Text.byteSize lexeme.gap + Text.byteSize lexeme.spelling.toList
      have passes := Lexer.Passes.token cuts (inductionHypothesis spaced.tail others stop)
      rw [String.ofList_toList] at passes
      exact (Lexer.passes_blanks (spaced.gaps lexeme (List.mem_cons_self ..)) offset _).append
        passes

/-- A text of spaced lexemes has the tokens that were written. -/
theorem tokensFrom_write (spaced : Spaced lexemes final)
    (spelled : ∀ lexeme ∈ lexemes, lexeme.kind.HasLexeme lexeme.spelling) :
    Lexer.tokensFrom 0 (write lexemes final) =
      .ok (tokens 0 lexemes ++ [Token.eof (Text.byteSize (write lexemes final))]) := by
  rw [(passes_write spaced spelled 0).tokensFrom_nil, Nat.zero_add]

end Spaced

end Lexeme

/-- Lexemes of any kinds come back from a text where blanks stand between them, in order and at the
places where they were written. So the lexemes of a text may be spaced in any other way. -/
theorem tokenize_write {lexemes : List Lexeme} {final : List Char}
    (spaced : Lexeme.Spaced lexemes final) :
    let written := Lexeme.write lexemes final
    ((∀ lexeme ∈ lexemes, lexeme.kind.HasLexeme lexeme.spelling) →
      tokenize (String.ofList written) =
        .ok (Lexeme.tokens 0 lexemes ++ [Token.eof (Text.byteSize written)])) ∧
      ∀ (text : String) (tokens : List Token), tokenize text = .ok tokens →
        lexemes.map (fun lexeme => (lexeme.kind, lexeme.spelling)) =
          tokens.dropLast.map (fun token => (token.kind, token.lexeme)) →
        ∃ tokens', tokenize (String.ofList written) = .ok tokens' ∧
          tokens'.map (fun token => (token.kind, token.lexeme)) =
            tokens.map (fun token => (token.kind, token.lexeme)) := by
  intro written
  have lexed (spelled : ∀ lexeme ∈ lexemes, lexeme.kind.HasLexeme lexeme.spelling) :
      tokenize (String.ofList written) =
        .ok (Lexeme.tokens 0 lexemes ++ [Token.eof (Text.byteSize written)]) := by
    rw [tokenize, String.toList_ofList]
    exact Lexeme.tokensFrom_write spaced spelled
  refine ⟨lexed, fun text tokens found same => ?_⟩
  obtain ⟨body, stop, rfl, well⟩ := tokenize_wellSpelled found
  rw [List.dropLast_concat] at same
  have spelled : ∀ lexeme ∈ lexemes, lexeme.kind.HasLexeme lexeme.spelling := by
    intro lexeme member
    have known : (lexeme.kind, lexeme.spelling) ∈
        lexemes.map fun lexeme => (lexeme.kind, lexeme.spelling) := List.mem_map_of_mem member
    rw [same] at known
    obtain ⟨token, inBody, same⟩ := List.mem_map.1 known
    obtain ⟨sameKind, sameSpelling⟩ := Prod.mk.inj same
    rw [← sameKind, ← sameSpelling]
    exact TokenKind.hasLexeme_iff.2 (well token inBody).spelled
  refine ⟨_, lexed spelled, ?_⟩
  rw [List.map_append, List.map_append, Lexeme.tokens_spellings, same]
  rfl

/-- A number, an operator and a string that stood close together are spaced by blanks of all
sorts. -/
theorem tokenize_spacedOut :
    let lexemes : List Lexeme :=
      [⟨[], .literal .number, "1"⟩, ⟨['\t'], .operator .minus, "-"⟩,
        ⟨['\n', ' '], .operator .minus, "-"⟩, ⟨['\r'], .literal .string, "'é'"⟩]
    let tokens : List Token :=
      [⟨0, .literal .number, "1", false⟩, ⟨2, .operator .minus, "-", false⟩,
        ⟨5, .operator .minus, "-", false⟩, ⟨7, .literal .string, "'é'", false⟩]
    Lexeme.Spaced lexemes [' '] ∧ (∀ lexeme ∈ lexemes, lexeme.kind.HasLexeme lexeme.spelling) ∧
      tokenize "1\t-\n -\r'é' " = .ok (tokens ++ [Token.eof 12]) ∧
      ∀ body, tokenize "1- -'é'" = .ok body → ∃ tokens',
        tokenize "1\t-\n -\r'é' " = .ok tokens' ∧
          tokens'.map (fun token => (token.kind, token.lexeme)) =
            body.map (fun token => (token.kind, token.lexeme)) := by
  intro lexemes tokens
  have spaced : Lexeme.Spaced lexemes [' '] := by
    refine ⟨?_, ?_, ?_⟩
    · simp [lexemes, Lexer.isBlank]
    · simp [lexemes]
    · simp [Lexer.isBlank]
  have spelled : ∀ lexeme ∈ lexemes, lexeme.kind.HasLexeme lexeme.spelling := by
    have numeral : IsNumeral "1".toList := .inl ⟨by decide, List.all_eq_true.1 (by decide)⟩
    have quotation : IsQuotation "'é'".toList ['é'] := ⟨'\'', .inl rfl, by decide, by rfl⟩
    have number : (TokenKind.literal .number).HasLexeme "1" := .number numeral
    have minus : (TokenKind.operator .minus).HasLexeme "-" := .operator .minus
    have string : (TokenKind.literal .string).HasLexeme "'é'" := .string quotation
    exact List.forall_mem_cons.2 ⟨number, List.forall_mem_cons.2 ⟨minus,
      List.forall_mem_cons.2 ⟨minus, List.forall_mem_singleton.2 string⟩⟩⟩
  obtain ⟨lexed, respaced⟩ := tokenize_write spaced
  refine ⟨spaced, spelled, lexed spelled, fun body found => respaced _ body found ?_⟩
  have shown : tokenize "1- -'é'" = .ok [⟨0, .literal .number, "1", false⟩,
      ⟨1, .operator .minus, "-", false⟩, ⟨3, .operator .minus, "-", false⟩,
      ⟨4, .literal .string, "'é'", false⟩, Token.eof 8] := by rfl
  rw [shown] at found
  cases found
  rfl

end FrontEnd
