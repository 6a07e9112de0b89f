/-
This file follows the course of a parse from one cursor to another: the places of a tree that are
filled between them, the reports that are made there, and how the parse ends.
-/

import FrontEnd.Proofs.Parser.Forward
import FrontEnd.Proofs.Parser.Making
import FrontEnd.Proofs.Source

namespace FrontEnd

/-- What makes a token unexpected: it starts no statement, or it is a number without a value. -/
def Token.IsUnexpected (token : Token) : Prop :=
  Parser.startsNoStatement token ∨
    (token.kind = .literal .number ∧ Binary64.read? token.lexeme = none)

namespace TokenCursor

variable {cursor middle next last : TokenCursor} {token : Token}

/-- The token that is stepped over was the current one. -/
theorem current_of_step? (stepped : cursor.step? = some (token, next)) : cursor.current = token :=
  (step?_sound stepped).2.2.2.1

/-- The tokens from the current one on. -/
def ahead (cursor : TokenCursor) : List Token := cursor.rest ++ [cursor.marker]

/-- Behind the current token the same tokens are ahead. -/
theorem ahead_of_step? (stepped : cursor.step? = some (token, next)) :
    cursor.ahead = token :: next.ahead := by
  obtain ⟨rest, left, -, rfl⟩ := step?_eq_some.1 stepped
  rw [ahead, left]
  rfl

/-- A step leaves the marker where it is. -/
theorem marker_of_step? (stepped : cursor.step? = some (token, next)) :
    next.marker = cursor.marker :=
  Reaches.marker (.single ⟨token, stepped⟩)

/-- The current token is ahead, be it the marker. -/
theorem current_mem_ahead (cursor : TokenCursor) : cursor.current ∈ cursor.ahead := by
  obtain ⟨passed, rest, marker⟩ := cursor
  cases rest <;> simp [current, ahead]

/-- A cursor over the tokens of a text. The marker at their end is empty. -/
structure Reads (cursor : TokenCursor) (chars : List Char) : Prop where
  lies : ∀ token ∈ cursor.ahead, token.LiesIn chars
  ordered : cursor.ahead.Pairwise Token.StandsBefore
  ends : cursor.marker.stop = cursor.marker.offset

/-- A cursor reads the text whose tokens it starts with. -/
theorem reads_ofTokens {text : String} {tokens : List Token}
    (lexed : tokenize text = .ok tokens) : (ofTokens tokens).Reads text.toList := by
  have lies := tokenize_liesIn lexed
  have ordered := (tokenize_parts lexed).2
  obtain ⟨body, stop, rfl, -⟩ := tokenize_wellSpelled lexed
  rw [ofTokens_marked body rfl]
  exact ⟨lies, ordered, rfl⟩

section Reads

variable {chars : List Char} (reads : cursor.Reads chars)

include reads

/-- A cursor over the tokens of a text is one behind a step. -/
theorem Reads.step (stepped : cursor.step? = some (token, next)) : next.Reads chars := by
  have ahead := ahead_of_step? stepped
  refine ⟨fun later member => reads.lies later ?_, ?_, ?_⟩
  · rw [ahead]
    exact List.mem_cons_of_mem _ member
  · have ordered := reads.ordered
    rw [ahead] at ordered
    exact (List.pairwise_cons.1 ordered).2
  · rw [marker_of_step? stepped]
    exact reads.ends

/-- A token of a text ends before the next one begins. -/
theorem Reads.standsBefore (stepped : cursor.step? = some (token, next)) :
    token.StandsBefore next.current := by
  have ordered := reads.ordered
  rw [ahead_of_step? stepped] at ordered
  exact (List.pairwise_cons.1 ordered).1 _ next.current_mem_ahead

/-- The current token stands before the others, also where it is the marker. -/
theorem Reads.current_stop_le : cursor.current.stop ≤ cursor.marker.offset := by
  obtain ⟨passed, rest, marker⟩ := cursor
  cases rest with
  | nil => exact reads.ends.le
  | cons first rest =>
      have before := (List.pairwise_cons.1 reads.ordered).1
      exact (before marker (List.mem_append_right _ List.mem_cons_self)).2

end Reads

/-- The places of a tree that are filled between two cursors. A token on the way fills a place as it
is or as its placeholder, or is left out. A placeholder can also stand before the current token. -/
inductive Fills : TokenCursor → List Slot → TokenCursor → Prop
  | done (cursor : TokenCursor) : Fills cursor [] cursor
  | leave {cursor next last : TokenCursor} {token : Token} {slots : List Slot}
      (stepped : cursor.step? = some (token, next)) (later : Fills next slots last) :
      Fills cursor slots last
  | store {cursor next last : TokenCursor} {token : Token} {slots : List Slot}
      (code : Option Code) (stepped : cursor.step? = some (token, next))
      (later : Fills next slots last) : Fills cursor (⟨code, token⟩ :: slots) last
  | spoil {cursor next last : TokenCursor} {token : Token} {slots : List Slot}
      (code : Option Code) (stepped : cursor.step? = some (token, next))
      (later : Fills next slots last) : Fills cursor (⟨code, token.toPlaceholder⟩ :: slots) last
  | miss {cursor last : TokenCursor} {slots : List Slot} (code : Option Code) (kind : TokenKind)
      (lexeme : String) (later : Fills cursor slots last) :
      Fills cursor (⟨code, .placeholder cursor.current.offset kind lexeme⟩ :: slots) last

section Fills

variable {slots slots' : List Slot}

/-- The places that are filled one after the other are filled together. -/
theorem Fills.append (first : cursor.Fills slots middle) (second : middle.Fills slots' last) :
    cursor.Fills (slots ++ slots') last := by
  induction first with
  | done => exact second
  | leave stepped _ inductionHypothesis => exact .leave stepped (inductionHypothesis second)
  | store code stepped _ inductionHypothesis =>
      exact .store code stepped (inductionHypothesis second)
  | spoil code stepped _ inductionHypothesis =>
      exact .spoil code stepped (inductionHypothesis second)
  | miss code kind lexeme _ inductionHypothesis =>
      exact .miss code kind lexeme (inductionHypothesis second)

/-- Filling places moves the cursor forward. -/
theorem Fills.reaches (fills : cursor.Fills slots last) : cursor.Reaches last := by
  induction fills with
  | done => exact .refl
  | leave stepped _ inductionHypothesis => exact .head ⟨_, stepped⟩ inductionHypothesis
  | store _ stepped _ inductionHypothesis => exact .head ⟨_, stepped⟩ inductionHypothesis
  | spoil _ stepped _ inductionHypothesis => exact .head ⟨_, stepped⟩ inductionHypothesis
  | miss _ _ _ _ inductionHypothesis => exact inductionHypothesis

end Fills

/-- What a parse can report at a cursor: a problem with the current token, or that it starts no
declaration. -/
inductive Concerns (cursor : TokenCursor) : Diagnostic → Prop
  | token {code : Code} (usual : code.leavesPlaceholder ∨ code.isOmission)
      (unexpected : code = .unexpectedToken → cursor.current.IsUnexpected) :
      Concerns cursor (.atToken cursor.current code)
  | declaration (goesOn : cursor.hasNext) :
      Concerns cursor ⟨cursor.current.offset, 1, .expectedDeclaration⟩

/-- A sign has a meaning in its place, and running out of tokens is no report. -/
theorem Concerns.code_ne {diagnostic : Diagnostic} (concerns : cursor.Concerns diagnostic) :
    diagnostic.code ≠ .invalidOperator ∧ diagnostic.code ≠ .endOfFile := by
  cases concerns with
  | declaration => exact ⟨Code.noConfusion, Code.noConfusion⟩
  | @token code usual _ =>
      show code ≠ .invalidOperator ∧ code ≠ .endOfFile
      constructor
      all_goals
        rintro rfl
        exact absurd usual (by decide)

/-- Reports that are made in order on the way between two cursors. -/
inductive Reports : TokenCursor → List Diagnostic → TokenCursor → Prop
  | done (cursor : TokenCursor) : Reports cursor [] cursor
  | pass {cursor next last : TokenCursor} {token : Token} {added : List Diagnostic}
      (stepped : cursor.step? = some (token, next)) (later : Reports next added last) :
      Reports cursor added last
  | report {cursor last : TokenCursor} {diagnostic : Diagnostic} {added : List Diagnostic}
      (concerns : cursor.Concerns diagnostic) (later : Reports cursor added last) :
      Reports cursor (diagnostic :: added) last

/-- Reports on two ways after each other are reports on the whole way. -/
theorem Reports.append {added more : List Diagnostic} (first : cursor.Reports added middle)
    (second : middle.Reports more last) : cursor.Reports (added ++ more) last := by
  induction first with
  | done => exact second
  | pass stepped _ inductionHypothesis => exact .pass stepped (inductionHypothesis second)
  | report concerns _ inductionHypothesis => exact .report concerns (inductionHypothesis second)

/-- No grammar rule reports the end of a file or an operator without a meaning. -/
theorem Reports.code_ne {added : List Diagnostic} (reports : cursor.Reports added last) :
    ∀ diagnostic ∈ added, diagnostic.code ≠ .invalidOperator ∧ diagnostic.code ≠ .endOfFile := by
  induction reports with
  | done => simp
  | pass _ _ inductionHypothesis => exact inductionHypothesis
  | report concerns _ inductionHypothesis =>
      exact List.forall_mem_cons.2 ⟨concerns.code_ne, inductionHypothesis⟩

/-- Reports are made on the way forward. -/
theorem Reports.reaches {added : List Diagnostic} (reports : cursor.Reports added last) :
    cursor.Reaches last := by
  induction reports with
  | done => exact .refl
  | pass stepped _ inductionHypothesis => exact .head ⟨_, stepped⟩ inductionHypothesis
  | report _ _ inductionHypothesis => exact inductionHypothesis

/-- A token is reported when it is already taken, as if it were still the current one. -/
theorem reports_taken {code : Code} (stepped : cursor.step? = some (token, next))
    (usual : code.leavesPlaceholder ∨ code.isOmission)
    (unexpected : code = .unexpectedToken → token.IsUnexpected) :
    cursor.Reports [.atToken token code] next := by
  rw [← current_of_step? stepped] at unexpected
  have concerns : cursor.Concerns (.atToken cursor.current code) := .token usual unexpected
  rw [current_of_step? stepped] at concerns
  exact .report concerns (.pass stepped (.done next))

end TokenCursor

namespace Parser

variable {σ ρ α β : Type}

/-- A run from one state to another notes its reports, all of which are made after a cursor. -/
structure Ran (since : TokenCursor) (state : State σ ρ) (added : List Diagnostic)
    (next : State σ ρ) : Prop where
  reports : since.Reports added next.cursor
  noted : next.reports = state.reports ++ added

/-- Two runs after each other are one. -/
theorem Ran.trans {since : TokenCursor} {first second third : State σ ρ}
    {added more : List Diagnostic} (before : Ran since first added second)
    (after : Ran second.cursor second more third) : Ran since first (added ++ more) third :=
  ⟨before.reports.append after.reports, by
    rw [after.noted, before.noted, List.append_assoc]⟩

variable [Receiver ρ]

/-- How a run ends. It gives a value that meets a condition, or it runs out of tokens, and the
receiver took all its reports. Or the receiver refuses the last report, and what it raises is the
error. -/
inductive Ends (since : TokenCursor) (state : State σ ρ) (condition : α → TokenCursor → Prop) :
    Outcome σ ρ α → Prop
  | ok {added : List Diagnostic} {value : α} {next : State σ ρ} (ran : Ran since state added next)
      (taken : Receiver.acceptAll? state.sink added = some next.sink)
      (holds : condition value next.cursor) : Ends since state condition (.ok value next)
  | ended {added : List Diagnostic} {next : State σ ρ} (ran : Ran since state added next)
      (taken : Receiver.acceptAll? state.sink added = some next.sink)
      (stops : next.cursor.hasNext = false) : Ends since state condition (.error .endOfFile next)
  | refused {added : List Diagnostic} {diagnostic raised : Diagnostic} {between : ρ}
      {next : State σ ρ} (ran : Ran since state (added ++ [diagnostic]) next)
      (taken : Receiver.acceptAll? state.sink added = some between)
      (refuses : Receiver.accept diagnostic between = .error raised next.sink)
      (latest : next.log.getLast? = some (.reported diagnostic)) :
      Ends since state condition (.error (.reported raised) next)

/-- A run that goes on from where another one got to ends as it does on its own. -/
theorem Ends.after {since : TokenCursor} {state between : State σ ρ} {added : List Diagnostic}
    {condition : α → TokenCursor → Prop} {outcome : Outcome σ ρ α}
    (ran : Ran since state added between)
    (taken : Receiver.acceptAll? state.sink added = some between.sink)
    (ends : Ends between.cursor between condition outcome) :
    Ends since state condition outcome := by
  have all : ∀ {more : List Diagnostic} {sink : ρ},
      Receiver.acceptAll? between.sink more = some sink →
        Receiver.acceptAll? state.sink (added ++ more) = some sink := by
    intro more sink takenMore
    rw [Receiver.acceptAll?_append, taken, Option.bind_some, takenMore]
  cases ends with
  | ok ranOn takenMore holds => exact .ok (ran.trans ranOn) (all takenMore) holds
  | ended ranOn takenMore stops => exact .ended (ran.trans ranOn) (all takenMore) stops
  | refused ranOn takenMore refuses latest =>
      have whole := ran.trans ranOn
      rw [← List.append_assoc] at whole
      exact .refused whole (all takenMore) refuses latest

/-- However it ends, a run makes its reports on its way. -/
theorem Ends.ran {since : TokenCursor} {state : State σ ρ} {condition : α → TokenCursor → Prop}
    {outcome : Outcome σ ρ α} (ends : Ends since state condition outcome) :
    ∃ added, Ran since state added (Outcome.state outcome) := by
  cases ends with
  | ok ran => exact ⟨_, ran⟩
  | ended ran => exact ⟨_, ran⟩
  | refused ran => exact ⟨_, ran⟩

/-- Where a run starts shows only in its reports. -/
theorem Ends.ofMoved {since cursor : TokenCursor} {state : State σ ρ}
    {condition : α → TokenCursor → Prop} {outcome : Outcome σ ρ α}
    (ends : Ends since { state with cursor := cursor } condition outcome) :
    Ends since state condition outcome := by
  cases ends with
  | ok ran taken holds => exact .ok ⟨ran.reports, ran.noted⟩ taken holds
  | ended ran taken stops => exact .ended ⟨ran.reports, ran.noted⟩ taken stops
  | refused ran taken refuses latest =>
      exact .refused ⟨ran.reports, ran.noted⟩ taken refuses latest

/-- Every run of a parser from a cursor ends in one of these ways, where its reports are made after
a cursor that may be behind. -/
def Follows (since : TokenCursor) (parser : Parser σ ρ α) (cursor : TokenCursor)
    (condition : α → TokenCursor → Prop) : Prop :=
  ∀ state : State σ ρ, state.cursor = cursor → Ends since state condition (parser state)

section Combining

variable {since cursor next : TokenCursor} {token : Token} {parser : Parser σ ρ α}
variable {condition : α → TokenCursor → Prop} {condition' : β → TokenCursor → Prop}

/-- The rest of a sequence follows on from where its first part got to. -/
theorem Follows.bind {rest : α → Parser σ ρ β} (follows : Follows since parser cursor condition)
    (followsRest : ∀ value middle, condition value middle →
      Follows middle (rest value) middle condition') :
    Follows since (parser >>= rest) cursor condition' := by
  intro state stands
  have ends := follows state stands
  cases found : parser state with
  | ok value between =>
      rw [found] at ends
      rw [bind_ok found]
      cases ends with
      | ok ran taken holds => exact (followsRest value _ holds between rfl).after ran taken
  | error error between =>
      rw [found] at ends
      rw [bind_error found]
      cases ends with
      | ended ran taken stops => exact .ended ran taken stops
      | refused ran taken refuses latest => exact .refused ran taken refuses latest

/-- What follows with a condition follows with a weaker one. -/
theorem Follows.mono {weaker : α → TokenCursor → Prop}
    (follows : Follows since parser cursor condition)
    (weakens : ∀ value next, condition value next → weaker value next) :
    Follows since parser cursor weaker := by
  intro state stands
  have ends := follows state stands
  generalize parser state = outcome at ends ⊢
  cases ends with
  | ok ran taken holds => exact .ok ran taken (weakens _ _ holds)
  | ended ran taken stops => exact .ended ran taken stops
  | refused ran taken refuses latest => exact .refused ran taken refuses latest

/-- A parse behind a token makes its reports after this token. -/
theorem Follows.passing (follows : Follows next parser next condition)
    (stepped : cursor.step? = some (token, next)) : Follows cursor parser next condition := by
  intro state stands
  have passed : Ran cursor state [] state :=
    ⟨stands ▸ .pass stepped (.done next), (List.append_nil _).symm⟩
  exact .after passed rfl (stands ▸ follows state stands)

theorem follows_pure {value : α} (holds : condition value cursor) :
    Follows cursor (pure value : Parser σ ρ α) cursor condition := by
  rintro state rfl
  exact .ok ⟨.done _, (List.append_nil _).symm⟩ rfl holds

theorem Follows.map {view : α → β} (follows : Follows since parser cursor condition)
    (weaker : ∀ value next, condition value next → condition' (view value) next) :
    Follows since (parser >>= fun value => pure (view value)) cursor condition' :=
  follows.bind fun value middle holds => follows_pure (weaker value middle holds)

end Combining

section Steps

variable {since cursor next : TokenCursor} {condition : α → TokenCursor → Prop}

/-- Looking at the cursor goes on with what it shows. -/
theorem follows_look {view : TokenCursor → β} {rest : β → Parser σ ρ α}
    (follows : Follows cursor (rest (view cursor)) cursor condition) :
    Follows cursor ((fun state : State σ ρ => .ok (view state.cursor) state) >>= rest) cursor
      condition := by
  rintro state rfl
  exact follows state rfl

/-- The current token is known from the cursor. -/
theorem follows_current {rest : Token → Parser σ ρ α}
    (follows : Follows cursor (rest cursor.current) cursor condition) :
    Follows cursor (current >>= rest) cursor condition :=
  follows_look follows

theorem follows_remaining {rest : Nat → Parser σ ρ α}
    (follows : Follows cursor (rest cursor.remaining) cursor condition) :
    Follows cursor (remaining >>= rest) cursor condition :=
  follows_look follows

theorem follows_cursor {rest : TokenCursor → Parser σ ρ α}
    (follows : Follows cursor (rest cursor) cursor condition) :
    Follows cursor (Parser.cursor >>= rest) cursor condition := by
  rintro state rfl
  exact follows state rfl

theorem follows_hasNext {rest : Bool → Parser σ ρ α}
    (follows : Follows cursor (rest cursor.hasNext) cursor condition) :
    Follows cursor (hasNext >>= rest) cursor condition :=
  follows_look follows

/-- Looking for the closing bracket moves nothing. -/
theorem follows_beforeClose {close : Bracket} {rest : Bool → Parser σ ρ α}
    (follows : ∀ more, Follows cursor (rest more) cursor condition) :
    Follows cursor (beforeClose close >>= rest) cursor condition := by
  rintro state rfl
  exact follows _ state rfl

/-- A token is taken, and the parse goes on behind it. Without one the parse runs out of tokens. -/
theorem follows_advance {rest : Token → Parser σ ρ α}
    (follows : ∀ token next, cursor.step? = some (token, next) →
      Follows cursor (rest token) next condition) :
    Follows cursor (advance >>= rest) cursor condition := by
  rintro state rfl
  cases stepped : state.cursor.step? with
  | none =>
      have ran : (advance : Parser σ ρ Token) state = .error .endOfFile state := by
        rw [advance, stepped]
      rw [bind_error ran]
      refine .ended ⟨.done _, (List.append_nil _).symm⟩ rfl ?_
      rw [TokenCursor.hasNext, stepped]
      rfl
  | some step =>
      obtain ⟨token, next⟩ := step
      rw [bind_ok (advance_of_step? stepped)]
      exact .ofMoved (follows token next stepped { state with cursor := next } rfl)

/-- A wanted token is taken, and the parse goes on behind it or where it stands. -/
theorem follows_eatWhere {wanted : Token → Bool} {rest : Option Token → Parser σ ρ α}
    (taken : ∀ token next, cursor.step? = some (token, next) → wanted token →
      Follows cursor (rest (some token)) next condition)
    (missed : Follows cursor (rest none) cursor condition) :
    Follows cursor (eatWhere wanted >>= rest) cursor condition := by
  rintro state rfl
  by_cases eats : ∃ token next, state.cursor.step? = some (token, next) ∧ wanted token
  · obtain ⟨token, next, stepped, fits⟩ := eats
    rw [bind_ok (eatWhere_of_step? stepped fits)]
    exact .ofMoved (taken token next stepped fits { state with cursor := next } rfl)
  · have stays := eatWhere_missed fun token next stepped fits => eats ⟨token, next, stepped, fits⟩
    rw [bind_ok stays]
    exact missed state rfl

/-- A token of the kind is stepped over, and any other stays. -/
theorem follows_eat {kind : TokenKind} {rest : Option Token → Parser σ ρ α}
    (taken : ∀ token next, cursor.step? = some (token, next) →
      Follows cursor (rest (some token)) next condition)
    (missed : Follows cursor (rest none) cursor condition) :
    Follows cursor (eat kind >>= rest) cursor condition :=
  follows_eatWhere (fun token next stepped _ => taken token next stepped) missed

/-- One of the operators is stepped over, and any other token stays. -/
theorem follows_eatOneOf {operators : List Operator} {rest : Option Token → Parser σ ρ α}
    (taken : ∀ token next, cursor.step? = some (token, next) →
      ∀ sign ∈ operators, token.kind = .operator sign →
        Follows next (rest (some token)) next condition)
    (missed : Follows cursor (rest none) cursor condition) :
    Follows cursor (eatOneOf operators >>= rest) cursor condition := by
  refine follows_eatWhere (fun token next stepped wanted => ?_) missed
  obtain ⟨sign, member, kind⟩ := List.any_eq_true.1 wanted
  exact (taken token next stepped sign member (of_decide_eq_true kind)).passing stepped

theorem follows_note {event : Event} (silent : event.diagnostic? = none) :
    Follows cursor (note event : Parser σ ρ Unit) cursor fun _ next => next = cursor := by
  rintro state rfl
  refine .ok ⟨.done _, ?_⟩ rfl rfl
  have noted := state.reports_note event
  rwa [silent] at noted

/-- The receiver decides about a report when it is noted. -/
theorem follows_report {diagnostic : Diagnostic} (reports : since.Reports [diagnostic] cursor) :
    Follows since (report diagnostic : Parser σ ρ Unit) cursor fun _ next => next = cursor := by
  rintro state rfl
  have noted := state.reports_note (.reported diagnostic)
  cases answer : Receiver.accept diagnostic state.sink with
  | error raised sink =>
      rw [report_of_error answer]
      have ran : Ran since state ([] ++ [diagnostic])
          { state with sink := sink, log := state.log ++ [.reported diagnostic] } :=
        ⟨reports, noted⟩
      exact .refused ran rfl answer List.getLast?_concat
  | ok _ sink =>
      rw [report_of_ok answer]
      exact .ok ⟨reports, noted⟩ (Receiver.acceptAll?_of_ok answer) rfl

/-- A sign with a meaning in its place is never reported. -/
theorem follows_operation {fixity : Fixity} {token : Token} {meaning : Operation}
    {rest : Operation → Parser σ ρ α} (means : token.operation? fixity = some meaning)
    (follows : Follows cursor (rest meaning) cursor condition) :
    Follows cursor (operation fixity token >>= rest) cursor condition := by
  have found : (operation fixity token : Parser σ ρ Operation) = pure meaning := by
    rw [operation, means]
  rw [found, pure_bind]
  exact follows

/-- Making a node moves nothing and reports nothing. -/
theorem follows_make [Observer σ] {node : α → Node} {value : α} (holds : condition value cursor) :
    Follows cursor (make node value : Parser σ ρ α) cursor condition := by
  rintro state rfl
  exact .ok ⟨.done _, (List.append_nil _).symm⟩ rfl holds

/-- A node made of what a parser gives. -/
theorem Follows.make [Observer σ] {parser : Parser σ ρ α} {node : β → Node} {view : α → β}
    {condition' : β → TokenCursor → Prop} (follows : Follows since parser cursor condition)
    (weaker : ∀ value next, condition value next → condition' (view value) next) :
    Follows since (parser >>= fun value => Parser.make node (view value)) cursor condition' :=
  follows.bind fun value middle holds => follows_make (weaker value middle holds)

/-- A made node goes on as it is. -/
theorem Follows.afterMake [Observer σ] {node : β → Node} {value : β} {rest : β → Parser σ ρ α}
    (follows : Follows cursor (rest value) cursor condition) :
    Follows cursor (Parser.make node value >>= rest) cursor condition := by
  have made : Follows cursor (Parser.make node value : Parser σ ρ β) cursor
      fun value' next => value' = value ∧ next = cursor := follows_make ⟨rfl, rfl⟩
  apply made.bind
  rintro _ _ ⟨rfl, rfl⟩
  exact follows

end Steps

end Parser

end FrontEnd
