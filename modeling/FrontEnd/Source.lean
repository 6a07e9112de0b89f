/-
This file locates byte offsets of a source text by line and column and cuts spans out of it.
-/

import FrontEnd.Text.Bytes
import FrontEnd.Text.Quoted

namespace FrontEnd

/-- A source text may have the address that it was loaded from. -/
structure Source where
  text : String
  url : Option String
  deriving DecidableEq, Repr

/-- An offset or a pair of offsets that selects no place in a source. -/
inductive SourceError where
  | outOfRange (offset length : Nat)
  | inverted (start stop : Nat)
  | insideCharacter (offset : Nat)
  deriving DecidableEq, Repr

/-- An error names the offset that it is about. -/
def SourceError.message : SourceError → String
  | .outOfRange offset length =>
      s!"offset {offset} is out of range for source of length {length}"
  | .inverted start stop => s!"span start {start} is after end {stop}"
  | .insideCharacter offset => s!"offset {offset} is not on a character boundary"

/-- Lines and columns count from zero, and a column counts bytes. -/
structure Location where
  line : Nat
  column : Nat
  deriving DecidableEq, Repr

/-- A range of bytes with the places of its two ends. -/
structure Span where
  offset : Nat
  text : String
  location : Location
  deriving DecidableEq, Repr

namespace Source

def chars (source : Source) : List Char := source.text.toList

/-- The length of a source is that of its text in bytes. -/
def length (source : Source) : Nat := Text.byteSize source.chars

/-- A source without an address has a stand-in for it. -/
def name (source : Source) : String := source.url.getD "<unknown>"

/-- A line feed ends a line, and so does a carriage return that no line feed follows. -/
def endsLine (char : Char) (rest : List Char) : Bool :=
  char = '\n' || (char = '\r' && rest.head? != some '\n')

/-- The offsets just after the line ends of a text that starts at an offset. -/
def lineStartsFrom : Nat → List Char → List Nat
  | _, [] => []
  | offset, char :: rest =>
      let next := offset + char.utf8Size
      if endsLine char rest then next :: lineStartsFrom next rest
      else lineStartsFrom next rest

/-- The starts of all lines but the first. -/
def lineStarts (source : Source) : List Nat := lineStartsFrom 0 source.chars

/-- An offset has to lie in the text and between two characters. -/
def checkOffset (source : Source) (offset : Nat) : Except SourceError Unit :=
  if offset ≤ source.length then .ok () else .error (.outOfRange offset source.length)

/-- The line of an offset is the number of line starts up to it. -/
def locate (source : Source) (offset : Nat) : Except SourceError Location := do
  source.checkOffset offset
  let starts := source.lineStarts.takeWhile (· ≤ offset)
  return ⟨starts.length, offset - starts.getLast?.getD 0⟩

/-- Both ends are checked for range before their order, and their order before their
boundaries. -/
def span (source : Source) (start stop : Nat) : Except SourceError Span := do
  source.checkOffset start
  source.checkOffset stop
  if stop < start then
    throw (.inverted start stop)
  match Text.slice? start stop source.chars with
  | some middle => return ⟨start, String.ofList middle, ← source.locate start⟩
  | none =>
      throw (.insideCharacter (if Text.isBoundary start source.chars then stop else start))

/-- The text of a line without the characters that end it. -/
def lineText (source : Source) (line : Nat) : List Char :=
  let starts := 0 :: source.lineStarts ++ [source.length]
  let start := starts.getD line source.length
  let stop := starts.getD (line + 1) source.length
  let piece := (Text.slice? start stop source.chars).getD []
  (piece.reverse.dropWhile fun char => char = '\n' || char = '\r').reverse

end Source

namespace Span

/-- A span is shown after its place in the source. -/
def display (span : Span) (source : Source) : String :=
  s!"{source.name}:{span.location.line}:{span.location.column} " ++ Text.quote span.text

/-- The fields of a span by name. -/
def describe (span : Span) : String :=
  s!"Span \x7b offset: {span.offset}, text: " ++ Text.quote span.text ++ " \x7d"

end Span

end FrontEnd
