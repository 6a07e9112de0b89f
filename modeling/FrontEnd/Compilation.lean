/-
This file takes sources from text to tree.
-/

import FrontEnd.Parser.Entry

namespace FrontEnd

/-- A source fails before it has tokens, or while they are parsed. -/
inductive Failure where
  | lexical (error : LexicalError)
  | syntactic (error : ParseError)
  deriving DecidableEq, Repr

/-- A failure says what stopped it. -/
def Failure.message (source : Source) : Failure → String
  | .lexical error => error.message
  | .syntactic error => error.message source

/-- The result of parsing a source as a file, with the diagnostics that its sink holds. -/
structure Compilation where
  source : Source
  result : Except Failure Root
  diagnostics : List Diagnostic

namespace Compilation

/-- A source that cannot be split into tokens is not parsed. -/
def ofSource (source : Source) (sink : Sink) : Compilation :=
  match Parser.root.read source sink () with
  | .error error => ⟨source, .error (.lexical error), sink.held⟩
  | .ok (.ok root state) => ⟨source, .ok root, state.sink.held⟩
  | .ok (.error error state) => ⟨source, .error (.syntactic error), state.sink.held⟩

/-- A clean source has a tree and no diagnostics. -/
def isClean (compilation : Compilation) : Bool :=
  compilation.result.toBool && compilation.diagnostics.isEmpty

/-- Every source is parsed on its own, and all its diagnostics are held. -/
def batch (sources : List Source) : List Compilation :=
  sources.map fun source => ofSource source (.collect [])

end Compilation

end FrontEnd
