/-
This file places the diagnostics that are held over any parses of one text. They stand in the order
of the text, and each of them shows a token.
-/

import FrontEnd.Proofs.Parser.Filling
import FrontEnd.Proofs.Parser.Progress
import FrontEnd.Proofs.Source

namespace FrontEnd

/-- A text begins with a character of one byte. -/
def BeginsNarrow (chars : List Char) : Prop :=
  ∃ first rest, chars = first :: rest ∧ first.utf8Size = 1

/-- Words begin with a letter or an underscore of one byte. -/
theorem IsWord.narrow {chars : List Char} (isWord : IsWord chars) : BeginsNarrow chars := by
  obtain ⟨first, rest, whole, starts, -⟩ := isWord_iff.1 isWord
  refine ⟨first, rest, whole, Char.utf8Size_eq_one_iff.2 ?_⟩
  show first.toNat ≤ 127
  simp only [Lexer.startsWord, Char.isAlpha, Char.isUpper, Char.isLower, Bool.or_eq_true,
    Bool.and_eq_true, decide_eq_true_eq] at starts
  rcases starts with (upper | lower) | rfl
  · have high : first.toNat ≤ 90 := upper.2
    omega
  · have high : first.toNat ≤ 122 := lower.2
    omega
  · decide

theorem IsDigits.narrow {chars : List Char} (isDigits : IsDigits chars) : BeginsNarrow chars := by
  obtain ⟨first, rest, whole⟩ := List.exists_cons_of_ne_nil isDigits.1
  have digit := isDigits.2 first (by rw [whole]; exact List.mem_cons_self)
  have high : first.toNat ≤ 57 := (Char.isDigit_iff_toNat.1 digit).2
  refine ⟨first, rest, whole, Char.utf8Size_eq_one_iff.2 ?_⟩
  show first.toNat ≤ 127
  omega

/-- Strings begin with a quote of one byte. -/
theorem IsQuotation.narrow {chars contents : List Char} (quotation : IsQuotation chars contents) :
    BeginsNarrow chars := by
  obtain ⟨quote, isQuote, -, whole⟩ := isQuotation_iff.1 quotation
  exact ⟨quote, _, whole, Lexer.utf8Size_of_isQuote isQuote⟩

/-- How a text begins is told by its first character. -/
theorem BeginsNarrow.append {chars : List Char} (narrow : BeginsNarrow chars) (more : List Char) :
    BeginsNarrow (chars ++ more) := by
  obtain ⟨first, rest, rfl, size⟩ := narrow
  exact ⟨first, rest ++ more, rfl, size⟩

/-- A fixed spelling begins with a mark. -/
theorem TokenKind.narrow_of_spelling? {kind : TokenKind} {spelling : String}
    (fixed : kind.spelling? = some spelling) : BeginsNarrow spelling.toList := by
  have mark {first : Char} (begins : first ∈ Lexer.fixedStarts) : first.utf8Size = 1 := by
    have narrow : Lexer.fixedStarts.all (·.utf8Size = 1) := by decide
    exact of_decide_eq_true (List.all_eq_true.1 narrow first begins)
  rcases Lexer.spelling?_cases fixed with ⟨first, same, single⟩ | ⟨first, second, same, pair⟩
  · exact ⟨first, [], same, mark (Lexer.singleKind?_mem single)⟩
  · have subset : Lexer.pairStarts ⊆ Lexer.fixedStarts := by
      simp [Lexer.pairStarts, Lexer.fixedStarts]
    exact ⟨first, [second], same, mark (subset (Lexer.pairKind?_mem pair).1)⟩

/-- Every token of a text begins with a character of one byte, so it has a first character that a
diagnostic of length one can cover. -/
theorem TokenKind.IsSpelledBy.narrow {kind : TokenKind} {lexeme : String}
    (spelled : kind.IsSpelledBy lexeme) : BeginsNarrow lexeme.toList := by
  unfold TokenKind.IsSpelledBy at spelled
  split at spelled
  · exact spelled.elim
  · exact spelled.1.narrow
  · exact spelled.1.narrow
  · exact spelled.1.narrow
  · rcases spelled with digits | ⟨whole, fraction, same, digits, -⟩
    · exact digits.narrow
    · rw [same]
      exact digits.narrow.append _
  · obtain ⟨contents, quotation⟩ := spelled
    exact quotation.narrow
  · exact TokenKind.narrow_of_spelling? spelled

/-- A diagnostic marks a token of a source. It shows the lexeme, or only the first character where
no declaration starts. -/
structure Diagnostic.Marks (diagnostic : Diagnostic) (source : Source) (token : Token) : Prop where
  offset : diagnostic.offset = token.offset
  within : diagnostic.offset + diagnostic.length ≤ source.length
  shows : ∃ span, diagnostic.span source = .ok span ∧ span.offset = token.offset ∧
    (diagnostic.code ≠ .expectedDeclaration → span.text = token.lexeme) ∧
    (diagnostic.code = .expectedDeclaration → ∃ first rest,
      token.lexeme.toList = first :: rest ∧ span.text = String.ofList [first])

namespace TokenCursor

variable {source : Source} {tokens : List Token} {cursor last : TokenCursor}
variable {diagnostic : Diagnostic} {added : List Diagnostic}

/-- The current token is one of the tokens. -/
theorem Sound.current_mem (sound : cursor.Sound tokens) : cursor.current ∈ tokens := by
  rw [← sound.tokens, TokenCursor.tokens, List.append_assoc]
  exact List.mem_append_right _ cursor.current_mem_ahead

/-- The cursor on the tokens of a text has them all. -/
theorem sound_of_tokenize {text : String} (lexed : tokenize text = .ok tokens) :
    (ofTokens tokens).Sound tokens := by
  obtain ⟨body, stop, rfl, -⟩ := tokenize_wellSpelled lexed
  rw [ofTokens_marked body rfl]
  exact ⟨rfl, rfl, by simp⟩

/-- Where more follows, the current token is no marker. -/
theorem current_of_hasNext (goesOn : cursor.hasNext) : cursor.current.isEof = false := by
  obtain ⟨⟨token, next⟩, stepped⟩ := Option.isSome_iff_exists.1 goesOn
  obtain ⟨-, -, -, rfl, real⟩ := step?_sound stepped
  simpa using real

/-- What concerns a cursor over the tokens of a text marks the current one. -/
theorem Concerns.marks (lexed : tokenize source.text = .ok tokens) (sound : cursor.Sound tokens)
    (concerns : cursor.Concerns diagnostic) : diagnostic.Marks source cursor.current := by
  have lies := tokenize_liesIn lexed _ sound.current_mem
  cases concerns with
  | @token code usual _ =>
      let report : Diagnostic := .atToken cursor.current code
      have offset : report.offset = cursor.current.offset := rfl
      obtain ⟨within, location, shown⟩ := lies.shows (List.append_nil _).symm offset rfl
      refine ⟨rfl, within, _, shown, rfl, fun _ => String.ofList_toList, ?_⟩
      rintro rfl
      exact absurd usual (by decide)
  | declaration goesOn =>
      obtain ⟨body, stop, rfl, well⟩ := tokenize_wellSpelled lexed
      have written : cursor.current ∈ body := by
        rcases List.mem_append.1 sound.current_mem with inside | ends
        · exact inside
        · have marks := current_of_hasNext goesOn
          rw [List.mem_singleton.1 ends] at marks
          cases marks
      obtain ⟨first, rest, whole, narrow⟩ := (well _ written).spelled.narrow
      let report : Diagnostic := ⟨cursor.current.offset, 1, .expectedDeclaration⟩
      have length : report.length = Text.byteSize [first] := by simp [report, narrow]
      obtain ⟨within, location, shown⟩ := lies.shows whole rfl length
      exact ⟨rfl, within, _, shown, rfl, fun other => absurd rfl other,
        fun _ => ⟨first, rest, whole, rfl⟩⟩

/-- Every report on the way over the tokens of a text marks one of them. -/
theorem Reports.marks (lexed : tokenize source.text = .ok tokens) (sound : cursor.Sound tokens)
    (reports : cursor.Reports added last) :
    ∀ diagnostic ∈ added, ∃ token ∈ tokens, diagnostic.Marks source token := by
  induction reports with
  | done => simp
  | pass stepped _ inductionHypothesis => exact inductionHypothesis (sound.step ⟨_, stepped⟩)
  | report concerns _ inductionHypothesis =>
      exact List.forall_mem_cons.2
        ⟨⟨_, sound.current_mem, concerns.marks lexed sound⟩, inductionHypothesis sound⟩

/-- What concerns a cursor stands at the current token. -/
theorem Concerns.offset (concerns : cursor.Concerns diagnostic) :
    diagnostic.offset = cursor.current.offset := by
  cases concerns <;> rfl

/-- Reports stand in the order of the tokens, none before the current one. A cursor never goes back,
and a report concerns where it stands. -/
theorem Reports.ordered (reports : cursor.Reports added last)
    (reads : cursor.Reads source.chars) :
    (∀ diagnostic ∈ added, cursor.current.offset ≤ diagnostic.offset) ∧
      (added.map Diagnostic.offset).Pairwise (· ≤ ·) := by
  induction reports with
  | done => simp
  | pass stepped _ inductionHypothesis =>
      obtain ⟨behind, sorted⟩ := inductionHypothesis (reads.step stepped)
      refine ⟨fun diagnostic member => ?_, sorted⟩
      rw [current_of_step? stepped]
      exact (reads.standsBefore stepped).1.le.trans (behind diagnostic member)
  | report concerns _ inductionHypothesis =>
      obtain ⟨behind, sorted⟩ := inductionHypothesis reads
      have here := concerns.offset
      refine ⟨List.forall_mem_cons.2 ⟨here.ge, behind⟩, List.pairwise_cons.2 ⟨?_, sorted⟩⟩
      rw [here]
      exact List.forall_mem_map.2 behind

end TokenCursor

namespace Parser

variable {σ : Type} [Observer σ]

/-- What a parser that holds its reports has noted from one cursor to another. -/
structure Holds (since : TokenCursor) (held added : List Diagnostic) (state : State σ) : Prop where
  reports : since.Reports added state.cursor
  held : state.sink = .collect (held ++ added)

/-- A parse that holds its reports goes on holding them, whether it succeeds or fails. -/
theorem Call.holds {state : State σ} {held : List Diagnostic}
    (collects : state.sink = .collect held) (entry : Entry) :
    ∃ added, Holds state.cursor held added ((Call.parse entry).answer state).2 := by
  have performs : Call.perform (.parse entry) = (entry.parser : Parser σ Sink Node) >>=
      fun node => pure (Reply.node node) := rfl
  have ends := follows_entry entry state.cursor state rfl
  have whole : ∀ {added : List Diagnostic} {sink : Sink},
      Receiver.acceptAll? state.sink added = some sink → sink = .collect (held ++ added) := by
    intro added sink taken
    rw [collects, Sink.acceptAll?_collect] at taken
    exact (Option.some.inj taken).symm
  rw [Call.answer_view performs]
  show ∃ added, Holds state.cursor held added (Outcome.state (entry.parser state))
  generalize (entry.parser : Parser σ Sink Node) state = outcome at ends ⊢
  cases ends with
  | ok ran taken => exact ⟨_, ran.reports, whole taken⟩
  | ended ran taken => exact ⟨_, ran.reports, whole taken⟩
  | refused _ taken refuses =>
      have patient : Receiver.Patient state.sink :=
        Sink.patient_iff.2 (by rw [collects]; exact Sink.noConfusion)
      exact absurd refuses (patient.accept_ne_error taken)

/-- Parses one after the other hold what each of them reports, also after failures. -/
theorem session_holds (entries : List Entry) {state : State σ} {held : List Diagnostic}
    (collects : state.sink = .collect held) :
    ∀ answer ∈ session state (entries.map Call.parse),
      ∃ added, Holds state.cursor held added answer.2 := by
  induction entries generalizing state held with
  | nil => simp [session]
  | cons entry entries inductionHypothesis =>
      obtain ⟨added, first⟩ := Call.holds collects entry
      refine List.forall_mem_cons.2 ⟨⟨added, first⟩, fun answer member => ?_⟩
      obtain ⟨more, later⟩ := inductionHypothesis first.held answer member
      refine ⟨added ++ more, first.reports.append later.reports, ?_⟩
      rw [later.held, List.append_assoc]

/-- Over any parses of one text the held diagnostics stand in the order of the text. Each of them
marks a token of the text, and none is about a sign without a meaning or the end of the file. -/
theorem session_marks {source : Source} {tokens : List Token}
    (lexed : tokenize source.text = .ok tokens) (observed : σ) (entries : List Entry) :
    ∀ answer ∈ session (State.start tokens (.collect []) observed) (entries.map Call.parse),
      ∃ held, answer.2.sink = .collect held ∧ (held.map Diagnostic.offset).Pairwise (· ≤ ·) ∧
        ∀ diagnostic ∈ held, (∃ token ∈ tokens, diagnostic.Marks source token) ∧
          diagnostic.code ≠ .invalidOperator ∧ diagnostic.code ≠ .endOfFile := by
  intro answer member
  obtain ⟨held, reports, collects⟩ := session_holds entries rfl answer member
  have reads := TokenCursor.reads_ofTokens lexed
  have sound := TokenCursor.sound_of_tokenize lexed
  exact ⟨held, collects, (reports.ordered reads).2, fun diagnostic inside =>
    ⟨reports.marks lexed sound diagnostic inside, reports.code_ne diagnostic inside⟩⟩

/-- A text with wide characters is parsed three times. The last parse fails at its end. -/
theorem session_marks_wide :
    let source : Source := ⟨"f('é' a) let 'ü'", none⟩
    let tokens : List Token := [⟨0, .identifier, "f", false⟩, ⟨1, .bracket .openParen, "(", false⟩,
      ⟨2, .literal .string, "'é'", false⟩, ⟨7, .identifier, "a", false⟩,
      ⟨8, .bracket .closeParen, ")", false⟩, ⟨10, .keyword .letWord, "let", false⟩,
      ⟨14, .literal .string, "'ü'", false⟩, Token.eof 18]
    let answers := session (State.start tokens (.collect []) ())
      ([.statement, .file, .expression].map Call.parse)
    tokenize source.text = .ok tokens ∧
      answers.map (fun answer => answer.2.sink.held) = [[⟨7, 1, .expectedComma⟩],
        [⟨7, 1, .expectedComma⟩, ⟨14, 4, .expectedIdentifier⟩],
        [⟨7, 1, .expectedComma⟩, ⟨14, 4, .expectedIdentifier⟩]] ∧
      ∀ answer ∈ answers, ∃ held, answer.2.sink = .collect held ∧
        (held.map Diagnostic.offset).Pairwise (· ≤ ·) ∧
        ∀ diagnostic ∈ held, (∃ token ∈ tokens, diagnostic.Marks source token) ∧
          diagnostic.code ≠ .invalidOperator ∧ diagnostic.code ≠ .endOfFile := by
  intro source tokens answers
  have lexed : tokenize "f('é' a) let 'ü'" = .ok tokens := by rfl
  exact ⟨lexed, by decide +kernel, session_marks lexed () _⟩

end Parser

end FrontEnd
