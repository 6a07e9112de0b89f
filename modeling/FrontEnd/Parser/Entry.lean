/-
This file runs the parser on tokens or on a source from one of its entry points.
-/

import FrontEnd.Parser.Module
import FrontEnd.Token.Lexer

namespace FrontEnd

namespace Parser

/-- What a run on tokens gives. -/
abbrev Outcome (σ ρ α : Type) := EStateM.Result ParseError (State σ ρ) α

/-- A run on a source starts with its tokens, and does not start when there are none. -/
def read {σ ρ α : Type} (parser : Parser σ ρ α) (source : Source) (sink : ρ) (observed : σ) :
    Except LexicalError (Outcome σ ρ α) := do
  let tokens ← tokenize source.text
  return (note (.tokenized source.name tokens.length) *> parser).run
    (State.start tokens sink observed)

end Parser

/-- A parse can start at a whole file or at one of its smaller parts. -/
inductive Entry where
  | file | expression | statement | identifier
  deriving DecidableEq, Repr

namespace Entry

variable {σ ρ : Type} [Observer σ] [Receiver ρ]

/-- The parser of an entry point, which gives its part as a node. -/
def parser : Entry → Parser σ ρ Node
  | .file => return .root (← Parser.root)
  | .expression => return .expression (← Parser.expression)
  | .statement => return (← Parser.statement).node
  | .identifier => return (← Parser.identifier).node

/-- A fresh parse of tokens from an entry point. -/
def parse (entry : Entry) (tokens : List Token) (sink : ρ) (observed : σ) :
    Parser.Outcome σ ρ Node :=
  entry.parser.run (Parser.State.start tokens sink observed)

/-- The entry point that reads a node's canonical text. -/
def ofNode : Node → Entry
  | .expression _ => .expression
  | .returned .. | .variable _ | .recovery _ => .statement
  | .block _ | .parameter _ | .parameterList _ | .function _ | .module _ | .root _ => .file

end Entry

end FrontEnd
