/-
This file holds the state of a parse and its primitive steps: looking at tokens, eating them,
reporting, and telling an observer of the nodes that are made.
-/

import FrontEnd.Diagnostic.Sink
import FrontEnd.Parser.Cursor
import FrontEnd.Tree.Basic

namespace FrontEnd

/-- A parse ends early when it runs out of tokens or its receiver raises a diagnostic. -/
inductive ParseError where
  | endOfFile
  | reported (diagnostic : Diagnostic)
  deriving DecidableEq, Repr

namespace ParseError

/-- Running out of tokens is diagnosed at the end of the source. -/
def diagnostic (source : Source) : ParseError → Diagnostic
  | .endOfFile => ⟨source.length, 0, .endOfFile⟩
  | .reported diagnostic => diagnostic

/-- An error shows the diagnostic that it comes with. -/
def message (source : Source) : ParseError → String
  | .endOfFile =>
      "unexpected end of file: " ++ (diagnostic source .endOfFile).display source
  | .reported diagnostic => diagnostic.display source

end ParseError

/-- What a parse notes about its progress. -/
inductive Event where
  | tokenized (source : String) (count : Nat)
  | reported (diagnostic : Diagnostic)
  | synthesised (code : Code) (offset : Nat) (lexeme : String)
  | parsedModule (declarations : Nat)
  deriving DecidableEq, Repr

def Event.level : Event → String
  | .tokenized .. | .reported _ | .parsedModule _ => "DEBUG"
  | .synthesised .. => "TRACE"

def Event.message : Event → String
  | .tokenized .. => "tokenized"
  | .reported _ => "diagnostic reported"
  | .synthesised .. => "synthesised recovery token"
  | .parsedModule _ => "parsed module"

/-- An observer is told of every node that a parse makes. -/
class Observer (σ : Type) where
  note : σ → Node → σ

/-- The trivial observer forgets every node. -/
instance : Observer Unit := ⟨fun _ _ => ()⟩

/-- The nodes that a parse made, in order. -/
structure Record where
  made : List Node
  deriving Repr

instance : Observer Record := ⟨fun record node => ⟨record.made ++ [node]⟩⟩

/-- An observer that is lent to a parse passes on to its owner what it is told. -/
structure Lent (σ : Type) where
  owner : σ
  deriving Repr

instance {σ : Type} [Observer σ] : Observer (Lent σ) :=
  ⟨fun lent node => ⟨Observer.note lent.owner node⟩⟩

namespace Parser

/-- The events stand in order. -/
structure State (σ : Type) (ρ : Type := Sink) where
  cursor : TokenCursor
  sink : ρ
  log : List Event
  observed : σ

variable {σ ρ : Type}

/-- A fresh parse stands before all its tokens and has noted nothing. -/
def State.start (tokens : List Token) (sink : ρ) (observed : σ) : State σ ρ :=
  ⟨TokenCursor.ofTokens tokens, sink, [], observed⟩

/-- The position counts the tokens behind the cursor. -/
def State.position (state : State σ ρ) : Nat := state.cursor.position

end Parser

/-- A parser keeps its state when it fails. -/
abbrev Parser (σ ρ α : Type) := EStateM ParseError (Parser.State σ ρ) α

namespace Parser

variable {σ ρ : Type}

/-- A sequence goes on from where its first part succeeded. -/
theorem bind_ok {α β : Type} {first : Parser σ ρ α} {rest : α → Parser σ ρ β}
    {state next : State σ ρ} {value : α} (ran : first state = .ok value next) :
    (first >>= rest) state = rest value next := by
  change EStateM.bind first rest state = _
  simp only [EStateM.bind, ran]

/-- A sequence fails where its first part fails. -/
theorem bind_error {α β : Type} {first : Parser σ ρ α} {rest : α → Parser σ ρ β}
    {state next : State σ ρ} {error : ParseError} (ran : first state = .error error next) :
    (first >>= rest) state = .error error next := by
  change EStateM.bind first rest state = _
  simp only [EStateM.bind, ran]

/-- A sequence succeeds when its parts succeed one after the other. -/
theorem bind_eq_ok {α β : Type} {first : Parser σ ρ α} {rest : α → Parser σ ρ β}
    {state next : State σ ρ} {value : β} :
    (first >>= rest) state = .ok value next ↔
      ∃ middle between, first state = .ok middle between ∧
        rest middle between = .ok value next := by
  cases ran : first state with
  | ok middle between =>
      rw [bind_ok ran]
      simp [and_assoc]
  | error error between =>
      rw [bind_error ran]
      simp

def cursor : Parser σ ρ TokenCursor := fun state => .ok state.cursor state

def current : Parser σ ρ Token := fun state => .ok state.cursor.current state

def hasNext : Parser σ ρ Bool := fun state => .ok state.cursor.hasNext state

def remaining : Parser σ ρ Nat := fun state => .ok state.cursor.remaining state

/-- The token some places away, which must exist. -/
def peekAt (offset : Int) : Parser σ ρ Token := fun state =>
  match state.cursor.peekAt? offset with
  | some token => .ok token state
  | none => .error .endOfFile state

/-- Takes the current token, which must not be an end marker. -/
def advance : Parser σ ρ Token := fun state =>
  match state.cursor.step? with
  | some (token, cursor) => .ok token { state with cursor := cursor }
  | none => .error .endOfFile state

/-- Whether the current token is wanted. An end marker never is. -/
def checkWhere (wanted : Token → Bool) : Parser σ ρ Bool := fun state =>
  .ok (state.cursor.hasNext && wanted state.cursor.current) state

/-- Takes the current token if it is wanted. -/
def eatWhere (wanted : Token → Bool) : Parser σ ρ (Option Token) := fun state =>
  match state.cursor.step? with
  | some (token, cursor) =>
      if wanted token then .ok (some token) { state with cursor := cursor } else .ok none state
  | none => .ok none state

section Stepping

variable {state : State σ ρ} {token : Token} {next : TokenCursor} {wanted : Token → Bool}

/-- Where the cursor can step, advancing takes its token. -/
theorem advance_of_step? (stepped : state.cursor.step? = some (token, next)) :
    (advance : Parser σ ρ Token) state = .ok token { state with cursor := next } := by
  rw [advance, stepped]

/-- A wanted token is taken as advancing takes it. -/
theorem eatWhere_of_step? (stepped : state.cursor.step? = some (token, next))
    (fits : wanted token) :
    (eatWhere wanted : Parser σ ρ (Option Token)) state =
      .ok (some token) { state with cursor := next } := by
  rw [eatWhere, stepped]
  exact if_pos fits

/-- A token that is not wanted stays where it is, as an end marker does. -/
theorem eatWhere_missed
    (misses : ∀ token next, state.cursor.step? = some (token, next) → ¬wanted token) :
    (eatWhere wanted : Parser σ ρ (Option Token)) state = .ok none state := by
  unfold eatWhere
  split
  · next token next stepped => exact if_neg (misses token next stepped)
  · rfl

end Stepping

/-- Takes the current token if it is of a kind. -/
def eat (kind : TokenKind) : Parser σ ρ (Option Token) := eatWhere fun token => token.kind = kind

/-- Takes the current token if it is one of some operators. -/
def eatOneOf (operators : List Operator) : Parser σ ρ (Option Token) :=
  eatWhere fun token => operators.any fun operator => token.kind = .operator operator

/-- Notes an event, which no part of a parse looks at. -/
def note (event : Event) : Parser σ ρ Unit := fun state =>
  .ok () { state with log := state.log ++ [event] }

variable [Receiver ρ]

/-- A diagnostic is noted before the receiver decides about it. What it raises ends the parse. -/
def report (diagnostic : Diagnostic) : Parser σ ρ Unit := fun state =>
  let log := state.log ++ [Event.reported diagnostic]
  match Receiver.accept diagnostic state.sink with
  | .ok () sink => .ok () { state with sink := sink, log := log }
  | .error raised sink => .error (.reported raised) { state with sink := sink, log := log }

section Answers

variable {state : State σ ρ} {sink : ρ} {diagnostic raised : Diagnostic}

/-- A report that is taken changes the receiver and the log. -/
theorem report_of_ok (taken : Receiver.accept diagnostic state.sink = .ok () sink) :
    report diagnostic state =
      .ok () { state with sink := sink, log := state.log ++ [.reported diagnostic] } := by
  rw [report, taken]

/-- A report that is refused ends the parse with what the receiver raised. -/
theorem report_of_error (refused : Receiver.accept diagnostic state.sink = .error raised sink) :
    report diagnostic state = .error (.reported raised)
      { state with sink := sink, log := state.log ++ [.reported diagnostic] } := by
  rw [report, refused]

end Answers

/-- Reports at the current token and puts a placeholder there for what was expected. -/
def recover (code : Code) (kind : TokenKind) (lexeme : String) : Parser σ ρ Token := do
  let found ← current
  report (.atToken found code)
  note (.synthesised code found.offset lexeme)
  return .placeholder found.offset kind lexeme

/-- The observer learns of a node when all its parts are made. -/
def make {α : Type} [Observer σ] (node : α → Node) (value : α) : Parser σ ρ α := fun state =>
  .ok value { state with observed := Observer.note state.observed (node value) }

/-- The meaning of an operator token in its place, reported when there is none. -/
def operation (fixity : Fixity) (token : Token) : Parser σ ρ Operation :=
  match token.operation? fixity with
  | some operation => return operation
  | none => do
      report (.atToken token .invalidOperator)
      return .invalid

/-- The code for a missing bracket. -/
def bracketCode : Bracket → Code
  | .openParen | .closeParen => .expectedParentheses
  | .openCurly | .closeCurly => .expectedCurly

/-- A missing bracket is reported and replaced by a placeholder. -/
def expectBracket (bracket : Bracket) : Parser σ ρ Token := do
  match ← eat (.bracket bracket) with
  | some token => return token
  | none => recover (bracketCode bracket) (.bracket bracket) bracket.spelling

/-- Whether another item stands before a closing bracket. -/
def beforeClose (close : Bracket) : Parser σ ρ Bool := fun state =>
  .ok (state.cursor.hasNext && state.cursor.current.kind != .bracket close) state

/-- A missing comma is reported unless the list ends here. -/
def separator (close : Bracket) : Parser σ ρ Unit := do
  match ← eat (.symbol .comma) with
  | some _ => return ()
  | none =>
      if ← beforeClose close then
        report (.atToken (← current) .expectedComma)

/-- An item takes at least one token, so the tokens that remain bound their number. -/
def itemsWithin {α : Type} (close : Bracket) (item : Parser σ ρ α) : Nat → Parser σ ρ (List α)
  | 0 => return []
  | bound + 1 => do
      if ← beforeClose close then
        let first ← item
        let rest ← itemsWithin close item bound
        return first :: rest
      else
        return []

/-- The items up to a closing bracket or the end. -/
def items {α : Type} (close : Bracket) (item : Parser σ ρ α) : Parser σ ρ (List α) := do
  itemsWithin close item (← remaining)

/-- The items of a list with commas between them, up to its closing parenthesis. -/
def listItems {α : Type} (item : Parser σ ρ α) : Parser σ ρ (List α) :=
  items .closeParen do
    let value ← item
    separator .closeParen
    return value

end Parser

end FrontEnd
