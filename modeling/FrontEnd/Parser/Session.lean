/-
This file drives one parser by a sequence of calls. A call that fails leaves the parser usable.
-/

import FrontEnd.Parser.Entry

namespace FrontEnd

/-- A matcher decides which tokens a caller asks for. -/
class TokenMatcher (μ : Type) where
  accepts : μ → Token → Bool

/-- Any test of tokens is a matcher. -/
instance : TokenMatcher (Token → Bool) := ⟨id⟩

/-- A token fits a pattern by its kind, and by its spelling when the pattern has one. -/
structure TokenPattern where
  kind : TokenKind
  lexeme : Option String
  deriving DecidableEq, Repr

/-- A pattern without a spelling accepts every token of its kind. -/
def TokenPattern.accepts (pattern : TokenPattern) (token : Token) : Bool :=
  token.kind = pattern.kind && pattern.lexeme.all (token.lexeme = ·)

@[default_instance] instance : TokenMatcher TokenPattern := ⟨TokenPattern.accepts⟩

namespace Parser

/-- The calls that a caller can make, with its own matchers. -/
inductive Call (μ : Type := TokenPattern) where
  | hasNext
  | peekAt (offset : Int)
  | advance
  | check (matcher : μ)
  | eat (matcher : μ)
  | eatAny (matchers : List μ)
  | operation (fixity : Fixity) (token : Token)
  | parse (entry : Entry)
  deriving DecidableEq, Repr

/-- What a call gives when it succeeds. -/
inductive Reply where
  | truth (value : Bool)
  | token (found : Option Token)
  | operation (meaning : Operation)
  | node (node : Node)
  deriving Repr

variable {σ ρ μ : Type} [Observer σ] [Receiver ρ] [TokenMatcher μ]

/-- The step of a parser that a call asks for. -/
def Call.perform : Call μ → Parser σ ρ Reply
  | .hasNext => return .truth (← Parser.hasNext)
  | .peekAt offset => return .token (some (← Parser.peekAt offset))
  | .advance => return .token (some (← Parser.advance))
  | .check matcher => return .truth (← checkWhere (TokenMatcher.accepts matcher))
  | .eat matcher => return .token (← eatWhere (TokenMatcher.accepts matcher))
  | .eatAny matchers =>
      return .truth
        (← eatWhere fun token => matchers.any (TokenMatcher.accepts · token)).isSome
  | .operation fixity token => return .operation (← Parser.operation fixity token)
  | .parse entry => return .node (← entry.parser)

/-- A call answers with a reply or an error, and either way with the next state. -/
def Call.answer (call : Call μ) (state : State σ ρ) : Except ParseError Reply × State σ ρ :=
  match call.perform.run state with
  | .ok reply next => (.ok reply, next)
  | .error error next => (.error error, next)

/-- The answers to a sequence of calls, each from the state that the one before it left. -/
def session (state : State σ ρ) : List (Call μ) → List (Except ParseError Reply × State σ ρ)
  | [] => []
  | call :: rest =>
      let answer := call.answer state
      answer :: session answer.2 rest

end Parser

end FrontEnd
