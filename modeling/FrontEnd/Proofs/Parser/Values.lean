/-
This file shows that no literal of a text fails a parse. Every number is read as a double without a
sign, every string is cut between its quotes, and what a parse finds unexpected is never a number.
-/

import FrontEnd.Proofs.Parser.Decoding
import FrontEnd.Proofs.Parser.Literals
import FrontEnd.Proofs.Parser.Placing

namespace FrontEnd

/-- A double that is a number and neither negative nor a negative zero. -/
def Binary64.IsUnsigned : Binary64 → Prop
  | .nan => False
  | .infinite negative | .finite negative _ _ => negative = false

/-- Rounding a decimal gives no sign that the decimal does not have. -/
theorem Binary64.isUnsigned_ofDecimal (digits : Nat) (exponent : Int) :
    (ofDecimal false digits exponent).IsUnsigned := by
  rcases ofDecimal_normal digits exponent with passed | ⟨mantissa, exponent', same, -⟩
  · rw [passed]
    rfl
  · rw [same]
    rfl

/-- A token writes a double without a sign. -/
structure Token.Writes (token : Token) (value : Binary64) : Prop where
  numeral : IsNumeral token.lexeme.toList
  read : Binary64.read? token.lexeme = some value
  unsigned : value.IsUnsigned

/-- A token encloses a value in two equal quotes of one byte that the value does not hold. The value
is what is cut from between them, and the quote that is printed around it does not occur in it. -/
structure Token.Encloses (token : Token) (value : String) : Prop where
  quoted : ∃ quote, Lexer.isQuote quote ∧ quote.utf8Size = 1 ∧ quote ∉ value.toList ∧
    token.lexeme.toList = quote :: (value.toList ++ [quote])
  wide : 2 ≤ token.length
  cut : Text.slice? 1 (token.length - 1) token.lexeme.toList = some value.toList
  oneSort : ¬('\'' ∈ value.toList ∧ '"' ∈ value.toList)
  printed : ∃ quote, (quoteFor value).toList = [quote] ∧ Lexer.isQuote quote ∧
    quote ∉ value.toList

namespace Token

variable {token : Token}

/-- Every number of a text is read as some double. -/
theorem exists_writes (numeral : IsNumeral token.lexeme.toList) : ∃ value, token.Writes value := by
  obtain ⟨whole, fraction, text, digits, more⟩ := isNumeral_iff.1 numeral
  have lexeme : token.lexeme = String.ofList (withFraction whole fraction) := by
    rw [← text, String.ofList_toList]
  have read := Binary64.read?_withFraction digits more
  rw [← lexeme] at read
  exact ⟨_, numeral, read, Binary64.isUnsigned_ofDecimal _ _⟩

/-- The token of a string encloses what stands between its quotes. -/
theorem encloses_quotation {contents : List Char}
    (quotation : IsQuotation token.lexeme.toList contents) :
    token.Encloses (String.ofList contents) := by
  have cut := quotation.slice?_contents
  have printed := Expression.quoteFor_spec quotation
  obtain ⟨quote, isQuote, outside, spelled⟩ := isQuotation_iff.1 quotation
  have narrow := Lexer.utf8Size_of_isQuote isQuote
  have notBoth : ¬('\'' ∈ contents ∧ '"' ∈ contents) := by
    rintro ⟨single, double⟩
    rcases Bool.or_eq_true_iff.1 isQuote with same | same
    · exact outside (of_decide_eq_true same ▸ single)
    · exact outside (of_decide_eq_true same ▸ double)
  have wide : 2 ≤ token.length := by
    rw [length, spelled, Text.byteSize_cons, Text.byteSize_append, Text.byteSize_cons, narrow]
    omega
  have held : (String.ofList contents).toList = contents := String.toList_ofList
  exact
    { quoted := ⟨quote, isQuote, narrow, by rwa [held], by rwa [held]⟩
      wide := wide
      cut := by rwa [held]
      oneSort := by rwa [held]
      printed := by rwa [held] }

/-- A number token of a text has a value, so only a token that starts no statement is unexpected. -/
theorem IsUnexpected.startsNoStatement (unexpected : token.IsUnexpected)
    (numeral : token.kind = .literal .number → IsNumeral token.lexeme.toList) :
    Parser.startsNoStatement token := by
  rcases unexpected with starts | ⟨kind, unread⟩
  · exact starts
  · obtain ⟨value, writes⟩ := exists_writes (numeral kind)
    rw [writes.read] at unread
    cases unread

end Token

namespace Parser

variable {σ ρ : Type}

section Eating

variable {state : State σ ρ} {token : Token} {next : TokenCursor}

theorem eat_taken (stepped : state.cursor.step? = some (token, next)) :
    (eat token.kind : Parser σ ρ (Option Token)) state =
      .ok (some token) { state with cursor := next } :=
  eatWhere_of_step? stepped (decide_eq_true rfl)

/-- A token of another kind stays where it is. -/
theorem eat_missed {kind : TokenKind} (stepped : state.cursor.step? = some (token, next))
    (other : token.kind ≠ kind) :
    (eat kind : Parser σ ρ (Option Token)) state = .ok none state :=
  eatWhere_missed fun _ _ taken => by
    rw [stepped] at taken
    cases taken
    simpa using other

end Eating

variable [Observer σ] [Receiver ρ]

/-- Wherever a token is next, it is made a literal. The parse passes it, tells the observer of its
node and reports nothing. -/
def MakesLiteral (σ ρ : Type) [Observer σ] [Receiver ρ] (token : Token)
    (value : Expression) : Prop :=
  ∀ (state : State σ ρ) (next : TokenCursor), state.cursor.step? = some (token, next) →
    (literal : Parser σ ρ Expression) state = .ok value { state with
      cursor := next
      observed := Observer.note state.observed (.expression value) }

/-- A number that can be read is made a literal without a report. -/
theorem makesLiteral_number {token : Token} {value : Binary64}
    (kind : token.kind = .literal .number) (read : Binary64.read? token.lexeme = some value) :
    MakesLiteral σ ρ token (.number token value) := by
  intro state next stepped
  have taken := eat_taken stepped
  rw [kind] at taken
  have reads : (numberValue token : Parser σ ρ Binary64) = pure value := by
    rw [numberValue, read]
  unfold literal
  rw [bind_ok taken]
  simp only [reads, pure_bind]
  rfl

/-- A string is tried after the other literals, which are of other kinds. -/
theorem makesLiteral_string {token : Token} (kind : token.kind = .literal .string) :
    MakesLiteral σ ρ token (.string token (stringContents token.lexeme)) := by
  intro state next stepped
  have taken := eat_taken stepped
  rw [kind] at taken
  have noNumber := eat_missed stepped (kind ▸ nofun : token.kind ≠ .literal .number)
  have noBoolean := eat_missed stepped (kind ▸ nofun : token.kind ≠ .literal .boolean)
  unfold literal
  rw [bind_ok noNumber]
  simp only
  rw [bind_ok noBoolean]
  simp only
  rw [bind_ok taken]
  rfl

end Parser

/-- A number holds what its token writes, and a string what its token encloses. -/
def Node.IsValued : Node → Prop
  | .expression (.number token value) => token.Writes value
  | .expression (.string token value) => token.Encloses value
  | _ => True

/-- What is decoded holds what its token writes or encloses. -/
theorem Node.Decoded.isValued {node : Node} (decoded : node.Decoded) : node.IsValued := by
  unfold Node.IsValued
  split
  · rename_i token value
    obtain ⟨well, kind, read⟩ := decoded
    have spelled := well.spelled
    rw [kind] at spelled
    obtain ⟨written, writes⟩ := Token.exists_writes spelled
    obtain rfl : written = value := Option.some.inj (writes.read.symm.trans read)
    exact writes
  · obtain ⟨well, kind, rfl⟩ := decoded
    have spelled := well.spelled
    rw [kind] at spelled
    obtain ⟨contents, quotation⟩ := spelled
    rw [Parser.stringContents_quotation quotation]
    exact Token.encloses_quotation quotation
  · trivial

namespace TokenCursor

variable {tokens : List Token} {cursor last : TokenCursor} {diagnostic : Diagnostic}
variable {added : List Diagnostic}

/-- What is reported as unexpected is the current token, and it is unexpected. -/
theorem Concerns.unexpected (concerns : cursor.Concerns diagnostic)
    (code : diagnostic.code = .unexpectedToken) :
    diagnostic = .atToken cursor.current .unexpectedToken ∧ cursor.current.IsUnexpected := by
  cases concerns with
  | declaration => cases code
  | token _ unexpected =>
      obtain rfl := code
      exact ⟨rfl, unexpected rfl⟩

theorem Reports.unexpected (sound : cursor.Sound tokens) (reports : cursor.Reports added last) :
    ∀ diagnostic ∈ added, diagnostic.code = .unexpectedToken →
      ∃ token ∈ tokens, diagnostic = .atToken token .unexpectedToken ∧ token.IsUnexpected := by
  induction reports with
  | done => simp
  | pass stepped _ inductionHypothesis => exact inductionHypothesis (sound.step ⟨_, stepped⟩)
  | report concerns _ inductionHypothesis =>
      exact List.forall_mem_cons.2 ⟨fun code => ⟨_, sound.current_mem, concerns.unexpected code⟩,
        inductionHypothesis sound⟩

end TokenCursor

/-- A number starts a statement. -/
theorem Parser.kind_ne_number_of_startsNoStatement {token : Token}
    (starts : Parser.startsNoStatement token) : token.kind ≠ .literal .number := by
  intro kind
  rw [startsNoStatement, kind] at starts
  cases starts

section Lexed

variable {text : String} {tokens : List Token} (lexed : tokenize text = .ok tokens)

include lexed

/-- A token of a text is spelled as its kind says, but for the marker at the end. -/
theorem tokenize_isSpelledBy {token : Token} (member : token ∈ tokens) (real : token.kind ≠ .eof) :
    token.kind.IsSpelledBy token.lexeme := by
  obtain ⟨body, stop, rfl, written⟩ := tokenize_wellSpelled lexed
  rcases List.mem_append.1 member with inside | last
  · exact (written token inside).spelled
  · rw [List.mem_singleton.1 last] at real
    exact absurd rfl real

/-- The lexeme of a number of a text has digits, and at most one point between them. -/
theorem tokenize_isNumeral {token : Token} (member : token ∈ tokens)
    (kind : token.kind = .literal .number) : IsNumeral token.lexeme.toList := by
  have spelled := tokenize_isSpelledBy lexed member (by rw [kind]; exact nofun)
  rwa [kind] at spelled

/-- The lexeme of a string of a text stands between two quotes. -/
theorem tokenize_isQuotation {token : Token} (member : token ∈ tokens)
    (kind : token.kind = .literal .string) :
    ∃ contents, IsQuotation token.lexeme.toList contents := by
  have spelled := tokenize_isSpelledBy lexed member (by rw [kind]; exact nofun)
  rwa [kind] at spelled

/-- Different tokens of a text stand at different places. -/
theorem tokenize_offset_ne {first second : Token} (inFirst : first ∈ tokens)
    (inSecond : second ∈ tokens) (different : first ≠ second) : first.offset ≠ second.offset := by
  let Apart : Token → Token → Prop := fun earlier later => earlier.offset ≠ later.offset
  have apart : tokens.Pairwise Apart := (tokenize_parts lexed).2.imp fun before => before.1.ne
  have symmetric : Std.Symm Apart := ⟨fun _ _ => Ne.symm⟩
  exact apart.forall inFirst inSecond different

/-- A token of a text that is reported as unexpected starts no statement. -/
theorem Entry.reports_unexpected {σ ρ : Type} [Observer σ] [Receiver ρ] {entry : Entry} {sink : ρ}
    {observed : σ} :
    ∀ diagnostic ∈ (entry.parse tokens sink observed).state.reports,
      diagnostic.code = .unexpectedToken → ∃ token ∈ tokens,
        diagnostic = .atToken token .unexpectedToken ∧ Parser.startsNoStatement token := by
  obtain ⟨added, ran⟩ := (entry.parse_ends tokens sink observed).ran
  intro diagnostic member code
  have isAdded : diagnostic ∈ added := by
    have noted : diagnostic ∈ _ := member
    rwa [ran.noted] at noted
  obtain ⟨token, inside, same, unexpected⟩ :=
    ran.reports.unexpected (TokenCursor.sound_of_tokenize lexed) diagnostic isAdded code
  exact ⟨token, inside, same, unexpected.startsNoStatement (tokenize_isNumeral lexed inside)⟩

end Lexed

/-- No literal of a text fails a parse, from any entry point and with any receiver. Each number is
read as a double without a sign, and made a literal without a report. Each string encloses the value
that is cut from it, and is made a literal too. What is reported as unexpected starts no statement
and stands where no number stands. The nodes of literals hold these values, also when the parse
fails later. -/
theorem Entry.parse_values {σ ρ : Type} [Observer σ] [Receiver ρ] (entry : Entry) {text : String}
    {tokens : List Token} (sink : ρ) (observed : σ) (lexed : tokenize text = .ok tokens) :
    let outcome := entry.parse tokens sink observed
    (∀ token ∈ tokens, token.kind = .literal .number →
      ∃ value, token.Writes value ∧ Parser.MakesLiteral σ ρ token (.number token value)) ∧
    (∀ token ∈ tokens, token.kind = .literal .string →
      ∃ value, token.Encloses value ∧ Parser.MakesLiteral σ ρ token (.string token value)) ∧
    (∀ diagnostic ∈ outcome.state.reports, diagnostic.code = .unexpectedToken →
      (∃ token ∈ tokens, diagnostic = .atToken token .unexpectedToken ∧
        Parser.startsNoStatement token) ∧
      ∀ token ∈ tokens, token.kind = .literal .number → diagnostic.offset ≠ token.offset) ∧
    (∀ node ∈ (entry.parse tokens sink (Record.mk [])).state.observed.made, node.IsValued) ∧
    ∀ node, outcome.result = .ok node → ∀ inner ∈ node.preorder, inner.IsValued := by
  intro outcome
  refine ⟨fun token member kind => ?_, fun token member kind => ?_, fun diagnostic reported code =>
    ?_, fun node made => ?_, fun node parsed inner member => ?_⟩
  · obtain ⟨value, writes⟩ := Token.exists_writes (tokenize_isNumeral lexed member kind)
    exact ⟨value, writes, Parser.makesLiteral_number kind writes.read⟩
  · obtain ⟨contents, quotation⟩ := tokenize_isQuotation lexed member kind
    have makes : Parser.MakesLiteral σ ρ token _ := Parser.makesLiteral_string kind
    rw [Parser.stringContents_quotation quotation] at makes
    exact ⟨_, Token.encloses_quotation quotation, makes⟩
  · obtain ⟨other, inside, rfl, starts⟩ := entry.reports_unexpected lexed diagnostic reported code
    refine ⟨⟨other, inside, rfl, starts⟩, fun token member kind => ?_⟩
    apply tokenize_offset_ne lexed inside member
    rintro rfl
    exact Parser.kind_ne_number_of_startsNoStatement starts kind
  · exact (entry.made_decoded lexed node made).isValued
  · exact (entry.parse_decoded lexed parsed inner member).isValued

/-- In a block with a number and strings of both quotes only the comma is unexpected. -/
theorem Entry.parse_values_bothQuotes :
    let number : Token := ⟨16, .literal .number, "0.5", false⟩
    let strings : List Token := [⟨20, .literal .string, "'é\"'", false⟩,
      ⟨26, .literal .string, "\"'\"", false⟩, ⟨30, .literal .string, "''", false⟩]
    let tokens : List Token := [⟨0, .keyword .funcWord, "func", false⟩,
      ⟨5, .identifier, "f", false⟩, ⟨6, .bracket .openParen, "(", false⟩,
      ⟨7, .bracket .closeParen, ")", false⟩, ⟨9, .symbol .arrow, "->", false⟩,
      ⟨12, .bracket .openCurly, "\x7b", false⟩, ⟨14, .symbol .comma, ",", false⟩, number] ++
      strings ++ [⟨33, .bracket .closeCurly, "\x7d", false⟩, Token.eof 34]
    let outcome := Entry.file.parse tokens (.collect []) (Record.mk [])
    tokenize "func f() -> \x7b , 0.5 'é\"' \"'\" '' \x7d" = .ok tokens ∧
      (∃ value, number.Writes value ∧
        Parser.MakesLiteral Record Sink number (.number number value)) ∧
      (∀ token ∈ strings, ∃ value, token.Encloses value ∧
        Parser.MakesLiteral Record Sink token (.string token value)) ∧
      outcome.state.reports = [⟨14, 1, .unexpectedToken⟩] ∧
      (∀ diagnostic ∈ outcome.state.reports, diagnostic.code = .unexpectedToken →
        diagnostic.offset ≠ number.offset) ∧
      outcome.state.observed.made.filterMap Node.stringValue? = ["é\"", "'", ""] ∧
      ∀ node ∈ outcome.state.observed.made, node.IsValued := by
  intro number strings tokens
  have lexed : tokenize "func f() -> \x7b , 0.5 'é\"' \"'\" '' \x7d" = .ok tokens := by rfl
  have isNumber : number ∈ tokens := by decide
  have areStrings : ∀ token ∈ strings, token ∈ tokens ∧ token.kind = .literal .string := by decide
  obtain ⟨numbers, quoted, unexpected, valued, -⟩ :=
    Entry.file.parse_values (.collect []) (Record.mk []) lexed
  refine ⟨lexed, numbers number isNumber rfl, fun token member => ?_, by decide +kernel,
    fun diagnostic reported code => ?_, by decide +kernel, valued⟩
  · exact quoted token (areStrings token member).1 (areStrings token member).2
  · exact (unexpected diagnostic reported code).2 number isNumber rfl

end FrontEnd
