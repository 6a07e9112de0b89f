/-
This file answers a command line: it chooses what to do from the arguments, loads the sources, and
writes their tokens, canonical forms or outlines.
-/

import FrontEnd.Compilation
import FrontEnd.Diagnostic.Excerpt
import FrontEnd.Exchange
import FrontEnd.Tree.Format
import FrontEnd.Tree.Outline

namespace FrontEnd

namespace CommandLine

/-- What is shown of a source. -/
inductive Mode where
  | format | tree | tokens
  deriving DecidableEq, Repr

def Mode.ofName? : String → Option Mode
  | "format" => some .format
  | "tree" => some .tree
  | "tokens" => some .tokens
  | _ => none

/-- The flags of a run. -/
structure Options where
  mode : Mode
  json : Bool
  collect : Bool
  paths : List String
  deriving DecidableEq, Repr

/-- What can be wrong with the arguments. -/
inductive UsageError where
  | missingMode
  | unknownMode (name : String)
  | unknownFlag (flag : String)
  deriving DecidableEq, Repr

/-- What the arguments ask for. -/
inductive Plan where
  | help
  | refuse (error : UsageError)
  | process (options : Options)
  deriving DecidableEq, Repr

/-- What a run leaves on its two output channels, and whether all went well. -/
structure Report where
  output : String
  errors : String
  succeeded : Bool
  deriving DecidableEq, Repr

/-- A report on nothing is a success. -/
def Report.empty : Report := ⟨"", "", true⟩

/-- Two reports are written one after the other, and both have to succeed. -/
def Report.append (first second : Report) : Report :=
  ⟨first.output ++ second.output, first.errors ++ second.errors,
    first.succeeded && second.succeeded⟩

/-- The reports on several sources are one. -/
def Report.join (reports : List Report) : Report := reports.foldl append empty

/-- A line on the output channel. -/
def Report.ofOutput (line : String) : Report := ⟨line ++ "\n", "", true⟩

/-- A line on the error channel is a failure. -/
def Report.ofError (line : String) : Report := ⟨"", line ++ "\n", false⟩

/-- The exit status is zero for success and two for arguments that make no sense. -/
structure Answer where
  status : Nat
  output : String
  errors : String
  deriving DecidableEq, Repr

/-- The exit code tells whether all went well. -/
def Report.answer (report : Report) : Answer :=
  ⟨if report.succeeded then 0 else 1, report.output, report.errors⟩

def helpText : String :=
  "Lumen front end

Usage:
  lumen [flags] [file ...]

Reads standard input when no file is given.

Flags:
  --output <mode>    format (default): re-render the parsed source
                     tree: dump the syntax tree
                     tokens: list the lexed tokens
  --json             Print tokens and diagnostics as JSON
  --collect          Keep parsing after recoverable errors and report them all
  -h, --help         Show this help

Environment:
  RUST_LOG           Log filter (default: lumen=warn)
"

/-- The mode is taken with its value wherever it stands, and the last one counts. -/
def takeMode : Mode → List String → Except UsageError (Mode × List String)
  | mode, [] => .ok (mode, [])
  | _, ["--output"] => .error .missingMode
  | mode, argument :: value :: rest =>
      if argument = "--output" then
        match Mode.ofName? value with
        | some mode => takeMode mode rest
        | none => .error (.unknownMode value)
      else
        (takeMode mode (value :: rest)).map fun (mode, kept) => (mode, argument :: kept)
  | mode, [argument] => .ok (mode, [argument])

def asksForHelp (argument : String) : Bool :=
  argument = "-h" || argument = "--help" || argument = "help"

/-- A request for help wins, and then the first fault in the arguments. -/
def plan (arguments : List String) : Plan :=
  if arguments.any asksForHelp then .help
  else
    let rest := arguments.filter fun argument => argument != "--json" && argument != "--collect"
    match takeMode .format rest with
    | .error error => .refuse error
    | .ok (mode, paths) =>
        match paths.find? ("--".isPrefixOf ·) with
        | some flag => .refuse (.unknownFlag flag)
        | none =>
            .process ⟨mode, arguments.contains "--json", arguments.contains "--collect", paths⟩

def UsageError.answer : UsageError → Answer
  | .missingMode =>
      ⟨2, "", "Usage: lumen --output <format|tree|tokens> [file ...]\n"⟩
  | .unknownMode name =>
      ⟨2, "", s!"Error: unknown output `{name}`; expected format, tree or tokens.\n"⟩
  | .unknownFlag flag => ⟨2, helpText, s!"Error: unknown flag `{flag}`.\n"⟩

/-- A source that cannot be loaded is missing or is not text. -/
inductive LoadError where
  | missing (path : String)
  | notText (path : Option String)
  deriving DecidableEq, Repr

def LoadError.message : LoadError → String
  | .missing path => s!"{path}: No such file or directory (os error 2)"
  | .notText path =>
      (path.map (· ++ ": ")).getD "" ++ "stream did not contain valid UTF-8"

/-- Where the sources are loaded from. -/
structure Inputs where
  standard : ByteArray
  file? : String → Option ByteArray

/-- A file is a source that is named by its path. -/
def Inputs.loadFile (inputs : Inputs) (path : String) : Except LoadError Source :=
  match inputs.file? path with
  | none => .error (.missing path)
  | some bytes =>
      match String.fromUTF8? bytes with
      | some text => .ok ⟨text, some path⟩
      | none => .error (.notText (some path))

/-- Standard input is the source when no file is named, and the first failure wins. -/
def Inputs.load (inputs : Inputs) (paths : List String) : Except LoadError (List Source) :=
  if paths.isEmpty then
    match String.fromUTF8? inputs.standard with
    | some text => .ok [⟨text, some "<stdin>"⟩]
    | none => .error (.notText none)
  else
    paths.mapM inputs.loadFile

/-- The tokens of a source, or the error that leaves it without any. -/
def reportTokens (json : Bool) (source : Source) : Report :=
  match tokenize source.text with
  | .error error => .ofError s!"{source.name}: {error.message}"
  | .ok tokens =>
      if json then .ofOutput (Json.pretty 0 (.array (tokens.map Token.exchange)))
      else .join (tokens.map fun token => .ofOutput token.display)

/-- A blank line follows the excerpt of a diagnostic. -/
def reportDiagnostic (json : Bool) (source : Source) (diagnostic : Diagnostic) : Report :=
  if json then .ofError (diagnostic.exchange source).compact
  else .ofError (diagnostic.render source ++ "\n")

/-- A tree is shown as canonical text or as its outline. -/
def Mode.render (mode : Mode) (root : Root) : String :=
  match mode with
  | .tree => (Node.root root).outline
  | .format | .tokens => (Node.root root).format

/-- A tree is written out and a failure is written as an error. -/
def reportResult (mode : Mode) (json : Bool) (compilation : Compilation) : Report :=
  let source := compilation.source
  match compilation.result with
  | .ok root => .ofOutput (mode.render root)
  | .error (.lexical error) => .ofError s!"{source.name}: {error.message}"
  | .error (.syntactic error) => reportDiagnostic json source (error.diagnostic source)

/-- The diagnostics come before the result. -/
def reportCompilation (mode : Mode) (json : Bool) (compilation : Compilation) : Report :=
  let diagnostics := compilation.diagnostics.map (reportDiagnostic json compilation.source)
  (Report.join diagnostics).append (reportResult mode json compilation)

/-- Without the flag to collect, every source stops at its first diagnostic. -/
def compile (collect : Bool) (sources : List Source) : List Compilation :=
  if collect then Compilation.batch sources
  else sources.map fun source => Compilation.ofSource source .failFast

/-- Sources are reported on in the order of the arguments. -/
def report (options : Options) (sources : List Source) : Report :=
  match options.mode with
  | .tokens => .join (sources.map (reportTokens options.json))
  | .format | .tree =>
      .join ((compile options.collect sources).map
        (reportCompilation options.mode options.json))

/-- All inputs are loaded before any is reported on. -/
def execute (options : Options) (inputs : Inputs) : Answer :=
  match inputs.load options.paths with
  | .error error => (Report.ofError s!"Error: {error.message}").answer
  | .ok sources => (report options sources).answer

/-- The answer to a command line. -/
def run (arguments : List String) (inputs : Inputs) : Answer :=
  match plan arguments with
  | .help => ⟨0, helpText, ""⟩
  | .refuse error => error.answer
  | .process options => execute options inputs

end CommandLine

end FrontEnd
