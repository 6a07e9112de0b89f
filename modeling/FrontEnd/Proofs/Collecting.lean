/-
This file compares a command line that collects diagnostics with one that stops at the first. The
verdict is the same, and so is all that is written when the verdict is good.
-/

import FrontEnd.CommandLine
import FrontEnd.Proofs.Compilation
import FrontEnd.Proofs.Parser.Endings

namespace FrontEnd

namespace Compilation

/-- What the outcome of a parse comes to. -/
def ofOutcome (source : Source) (outcome : Parser.Outcome Unit Sink Root) : Compilation :=
  ⟨source, outcome.result.mapError .syntactic, outcome.state.sink.held⟩

/-- A source without tokens compiles to its lexical error, and its sink stays as it was. -/
theorem ofSource_lexical {source : Source} {error : LexicalError}
    (lexed : tokenize source.text = .error error) (sink : Sink) :
    ofSource source sink = ⟨source, .error (.lexical error), sink.held⟩ := by
  have read : (Parser.root : Parser Unit Sink Root).read source sink () = .error error := by
    rw [Parser.read, lexed]
    rfl
  rw [ofSource, read]

/-- A source with tokens compiles to what their parse comes to. -/
theorem ofSource_parsed {source : Source} {tokens : List Token}
    (lexed : tokenize source.text = .ok tokens) (sink : Sink) :
    ofSource source sink = ofOutcome source (Parser.root (started source sink tokens)) := by
  have read : Parser.root.read source sink () =
      .ok (Parser.root (started source sink tokens)) := by
    rw [Parser.read, lexed]
    rfl
  rw [ofSource, read]
  cases (Parser.root : Parser Unit Sink Root) (started source sink tokens) <;> rfl

/-- Only the diagnostics of a compilation depend on the sink. -/
theorem ofOutcome_through (source : Source) (outcome : Parser.Outcome Unit Sink Root)
    (sink : Sink) :
    ofOutcome source (outcome.through id sink) =
      { ofOutcome source outcome with diagnostics := sink.held } := by
  cases outcome <;> rfl

/-- A parse that stops at its first diagnostic holds none. -/
theorem held_of_stopped {source : Source} {tokens : List Token} {error : ParseError}
    {state : Parser.State Unit}
    (ran : Parser.root (started source .failFast tokens) = .error error state) :
    state.sink.held = [] := by
  have ranFile : Entry.file.parser (started source .failFast tokens) = .error error state :=
    Parser.bind_error ran
  have ends := Parser.follows_entry Entry.file _ (started source .failFast tokens) rfl
  rw [ranFile] at ends
  cases ends with
  | ended _ taken =>
      rw [(Sink.acceptAll?_failFast taken).2]
      rfl
  | refused _ taken refuses =>
      rw [(Sink.acceptAll?_failFast taken).2] at refuses
      rw [← (EStateM.Result.error.inj refuses).2]
      rfl

/-- A source that stops at its first diagnostic compiles to what collecting gives, unless a
diagnostic is collected. Then it stops at the first of these. -/
theorem ofSource_failFast (source : Source) :
    ofSource source .failFast =
      match (ofSource source (.collect [])).diagnostics with
      | [] => ofSource source (.collect [])
      | first :: _ => ⟨source, .error (.syntactic (.reported first)), []⟩ := by
  cases lexed : tokenize source.text with
  | error error =>
      rw [ofSource_lexical lexed, ofSource_lexical lexed]
      rfl
  | ok tokens =>
      rw [ofSource_parsed lexed, ofSource_parsed lexed]
      obtain ⟨added, holds, -, clean, escalated⟩ :=
        (Parser.sinkSimulation Unit).root (started source .failFast tokens) []
      rw [Root.relocate_id] at clean
      let held : Parser.Outcome Unit Sink Root := Parser.root (started source (.collect []) tokens)
      have collected : (ofOutcome source held).diagnostics = added := congrArg Sink.held holds
      change _ = match (ofOutcome source held).diagnostics with
        | [] => ofOutcome source held
        | first :: _ => _
      cases added with
      | nil =>
          have ran : Parser.root (started source .failFast tokens) = held.through id .failFast :=
            clean rfl
          rw [ran, ofOutcome_through, collected]
          exact congrArg (Compilation.mk source _) collected.symm
      | cons first later =>
          obtain ⟨next, stopped⟩ := escalated first later rfl
          have ran : Parser.root (started source .failFast tokens) = _ := stopped
          rw [ran, ofOutcome, Parser.Outcome.state, held_of_stopped ran, collected]
          rfl

/-- A source without diagnostics compiles alike under both sinks. -/
theorem ofSource_failFast_of_none {source : Source}
    (none : (ofSource source (.collect [])).diagnostics = []) :
    ofSource source .failFast = ofSource source (.collect []) := by
  rw [ofSource_failFast, none]

/-- A sink that fails fast holds no diagnostics, whatever comes. -/
theorem diagnostics_failFast (source : Source) : (ofSource source .failFast).diagnostics = [] := by
  rw [ofSource_failFast]
  cases collected : (ofSource source (.collect [])).diagnostics with
  | nil => exact collected
  | cons first later => rfl

/-- A compilation keeps its source. -/
theorem ofSource_source (source : Source) (sink : Sink) :
    (ofSource source sink).source = source := by
  cases lexed : tokenize source.text with
  | error error => rw [ofSource_lexical lexed]
  | ok tokens =>
      rw [ofSource_parsed lexed]
      rfl

/-- The diagnostics of a compilation in the order in which they are written. The one that ended the
parse comes last. -/
def reported (compilation : Compilation) : List Diagnostic :=
  compilation.diagnostics ++
    match compilation.result with
    | .error (.syntactic error) => [error.diagnostic compilation.source]
    | .error (.lexical _) | .ok _ => []

/-- A source is clean exactly when it compiles without collecting. -/
theorem isClean_collect (source : Source) :
    (ofSource source (.collect [])).isClean = (ofSource source .failFast).result.toBool := by
  rw [ofSource_failFast, isClean]
  cases collected : (ofSource source (.collect [])).diagnostics with
  | nil => simp
  | cons first later => simp [Except.toBool]

/-- Without collecting the first diagnostic is the only one. -/
theorem reported_failFast (source : Source) :
    (ofSource source .failFast).reported = (ofSource source (.collect [])).reported.take 1 := by
  rw [ofSource_failFast]
  cases collected : (ofSource source (.collect [])).diagnostics with
  | nil =>
      have short : (ofSource source (.collect [])).reported.length ≤ 1 := by
        rw [reported, collected, List.nil_append]
        split <;> simp
      exact (List.take_of_length_le short).symm
  | cons first later =>
      rw [reported, reported, collected]
      rfl

end Compilation

namespace CommandLine

@[simp] theorem Report.empty_append (report : Report) : empty.append report = report := by
  simp [append, empty]

@[simp] theorem Report.append_empty (report : Report) : report.append empty = report := by
  simp [append, empty]

/-- The order in which reports are put together does not matter. -/
theorem Report.append_assoc (first second third : Report) :
    (first.append second).append third = first.append (second.append third) := by
  simp [append, String.append_assoc, Bool.and_assoc]

instance : Std.Associative Report.append := ⟨Report.append_assoc⟩

/-- The first report stands before the others. -/
theorem Report.join_cons (first : Report) (reports : List Report) :
    join (first :: reports) = first.append (join reports) := by
  have moved : reports.foldl append (first.append empty) = first.append (join reports) :=
    List.foldl_assoc
  rwa [append_empty, ← empty_append first] at moved

/-- All reports have to succeed. -/
theorem Report.succeeded_join (reports : List Report) :
    (join reports).succeeded = reports.all (·.succeeded) := by
  induction reports with
  | nil => rfl
  | cons first rest inductionHypothesis =>
      rw [join_cons, append, List.all_cons, inductionHypothesis]

/-- Lines of output stand below each other, and are a success. -/
theorem Report.join_ofOutput (lines : List String) :
    join (lines.map ofOutput) = ⟨String.join (lines.map (· ++ "\n")), "", true⟩ := by
  induction lines with
  | nil => rfl
  | cons first rest inductionHypothesis =>
      rw [List.map_cons, join_cons, inductionHypothesis, List.map_cons, String.join_cons]
      rfl

variable (mode : Mode) (json : Bool) (source : Source)

/-- A diagnostic is a failure. -/
theorem succeeded_reportDiagnostic (diagnostic : Diagnostic) :
    (reportDiagnostic json source diagnostic).succeeded = false := by
  cases json <;> rfl

/-- A source is reported as a success when it is clean. -/
theorem succeeded_reportCompilation (compilation : Compilation) :
    (reportCompilation mode json compilation).succeeded = compilation.isClean := by
  have result : (reportResult mode json compilation).succeeded = compilation.result.toBool := by
    rw [reportResult]
    cases compilation.result with
    | ok root => rfl
    | error failure =>
        cases failure with
        | lexical error => rfl
        | syntactic error => exact succeeded_reportDiagnostic ..
  have diagnostics : (Report.join (compilation.diagnostics.map
      (reportDiagnostic json compilation.source))).succeeded = compilation.diagnostics.isEmpty := by
    rw [Report.succeeded_join]
    cases compilation.diagnostics with
    | nil => rfl
    | cons first later => simp [succeeded_reportDiagnostic]
  rw [reportCompilation, Report.append, result, diagnostics, Bool.and_comm, Compilation.isClean]

/-- What is written about a source starts with its first diagnostic. -/
theorem reportCompilation_of_reported {compilation : Compilation} {first : Diagnostic}
    {later : List Diagnostic} (reported : compilation.reported = first :: later) :
    ∃ rest, reportCompilation mode json compilation =
        (reportDiagnostic json compilation.source first).append rest ∧
      (compilation.diagnostics = [] → rest = .empty) := by
  obtain ⟨source, result, diagnostics⟩ := compilation
  cases diagnostics with
  | nil =>
      cases result with
      | ok root => cases reported
      | error failure =>
          cases failure with
          | lexical error => cases reported
          | syntactic error =>
              obtain ⟨rfl, -⟩ := List.cons.inj reported
              have alone := (Report.empty_append (reportDiagnostic json source
                (error.diagnostic source))).trans (Report.append_empty _).symm
              exact ⟨.empty, alone, fun _ => rfl⟩
  | cons diagnostic others =>
      obtain ⟨rfl, -⟩ := List.cons.inj reported
      rw [reportCompilation, List.map_cons, Report.join_cons, Report.append_assoc]
      exact ⟨_, rfl, nofun⟩

/-- Without collecting the only diagnostic written is the first one that collecting writes. -/
theorem reportCompilation_failFast {first : Diagnostic} {later : List Diagnostic}
    (reported : (Compilation.ofSource source (.collect [])).reported = first :: later) :
    reportCompilation mode json (.ofSource source .failFast) =
        reportDiagnostic json source first ∧
      ∃ rest, reportCompilation mode json (.ofSource source (.collect [])) =
        (reportDiagnostic json source first).append rest := by
  have stopped : (Compilation.ofSource source .failFast).reported = [first] := by
    rw [Compilation.reported_failFast, reported, List.take_one]
    rfl
  obtain ⟨rest, written, none⟩ := reportCompilation_of_reported mode json stopped
  obtain ⟨rest', written', -⟩ := reportCompilation_of_reported mode json reported
  rw [Compilation.ofSource_source] at written written'
  rw [none (Compilation.diagnostics_failFast source), Report.append_empty] at written
  exact ⟨written, rest', written'⟩

/-- A source that compiles without collecting is written as its tree, whether it is collected from
or not. -/
theorem reportCompilation_of_root {root : Root} (collect : Bool)
    (parsed : (Compilation.ofSource source .failFast).result = .ok root) :
    reportCompilation mode json (.ofSource source (if collect then .collect [] else .failFast)) =
      .ofOutput (mode.render root) := by
  have clean : (Compilation.ofSource source (.collect [])).isClean := by
    rw [Compilation.isClean_collect, parsed]
    rfl
  have none : (Compilation.ofSource source (.collect [])).diagnostics = [] :=
    List.isEmpty_iff.1 (Bool.and_eq_true_iff.1 clean).2
  have same : Compilation.ofSource source (if collect then .collect [] else .failFast) =
      .ofSource source .failFast := by
    cases collect with
    | false => rfl
    | true => exact (Compilation.ofSource_failFast_of_none none).symm
  rw [same, reportCompilation, Compilation.diagnostics_failFast, reportResult, parsed]
  exact Report.empty_append _

/-- Every source is compiled on its own. -/
theorem compile_eq (collect : Bool) (sources : List Source) :
    compile collect sources = sources.map fun source =>
      .ofSource source (if collect then .collect [] else .failFast) := by
  cases collect <;> rfl

/-- All is well when every source compiles without collecting. -/
theorem succeeded_compile (collect : Bool) (sources : List Source) :
    (Report.join ((compile collect sources).map (reportCompilation mode json))).succeeded =
      sources.all fun source => (Compilation.ofSource source .failFast).result.toBool := by
  have clean : ∀ source,
      (Compilation.ofSource source (if collect then .collect [] else .failFast)).isClean =
        (Compilation.ofSource source .failFast).result.toBool := by
    intro source
    cases collect with
    | false => simp [Compilation.isClean, Compilation.diagnostics_failFast]
    | true => exact Compilation.isClean_collect source
  rw [Report.succeeded_join, compile_eq]
  simp [succeeded_reportCompilation, Function.comp_def, clean]

/-- When all sources compile without collecting, their trees are written in order, whether there is
collecting or not. -/
theorem report_roots {sources : List Source}
    (parsed : ∀ source ∈ sources, (Compilation.ofSource source .failFast).result.toBool) :
    ∃ roots, List.Forall₂
        (fun source root => (Compilation.ofSource source .failFast).result = .ok root)
        sources roots ∧
      ∀ collect, Report.join ((compile collect sources).map (reportCompilation mode json)) =
        .join (roots.map fun root => .ofOutput (mode.render root)) := by
  simp only [compile_eq]
  induction sources with
  | nil => exact ⟨[], .nil, fun _ => rfl⟩
  | cons source rest inductionHypothesis =>
      obtain ⟨first, later⟩ := List.forall_mem_cons.1 parsed
      obtain ⟨roots, areRoots, written⟩ := inductionHypothesis later
      cases result : (Compilation.ofSource source .failFast).result with
      | error failure =>
          rw [result] at first
          cases first
      | ok root =>
          refine ⟨root :: roots, .cons result areRoots, fun collect => ?_⟩
          simp only [List.map_cons, Report.join_cons, written,
            reportCompilation_of_root mode json source collect result]

/-- The same plan with the flag to collect. -/
def Plan.collecting : Plan → Plan
  | .process options => .process { options with collect := true }
  | .help => .help
  | .refuse error => .refuse error

/-- The flag to collect changes nothing else about a plan. -/
theorem plan_collect (arguments : List String) :
    plan ("--collect" :: arguments) = (plan arguments).collecting := by
  have help : asksForHelp "--collect" = false := by decide
  have dropped : ("--collect" :: arguments).filter (fun argument =>
      argument != "--json" && argument != "--collect") =
      arguments.filter fun argument => argument != "--json" && argument != "--collect" :=
    List.filter_cons_of_neg (by decide)
  have json : ("--collect" :: arguments).contains "--json" = arguments.contains "--json" := by
    rw [List.contains_cons]
    exact Bool.false_or _
  have collect : ("--collect" :: arguments).contains "--collect" = true := by
    rw [List.contains_cons]
    exact Bool.true_or _
  unfold plan
  rw [List.any_cons, help, Bool.false_or, dropped, json, collect]
  split
  · rfl
  · dsimp only
    split
    · rfl
    · split <;> rfl

/-- The flag to collect changes neither the verdict nor a good report. -/
theorem report_collect (options : Options) (sources : List Source) :
    (report { options with collect := true } sources).succeeded =
        (report options sources).succeeded ∧
      ((report options sources).succeeded →
        report { options with collect := true } sources = report options sources) := by
  obtain ⟨mode, json, collect, paths⟩ := options
  have trees : ∀ mode,
      let written := fun collect =>
        Report.join ((compile collect sources).map (reportCompilation mode json))
      (written true).succeeded = (written collect).succeeded ∧
        ((written collect).succeeded → written true = written collect) := by
    intro mode written
    refine ⟨by simp only [written, succeeded_compile], fun succeeds => ?_⟩
    simp only [written, succeeded_compile, List.all_eq_true] at succeeds
    obtain ⟨roots, -, same⟩ := report_roots mode json succeeds
    exact (same true).trans (same collect).symm
  cases mode with
  | tokens => exact ⟨rfl, fun _ => rfl⟩
  | format => exact trees .format
  | tree => exact trees .tree

/-- Whether all went well is the same with the flag to collect, and so is the output then. -/
theorem execute_collect (options : Options) (inputs : Inputs) :
    (execute { options with collect := true } inputs).status = (execute options inputs).status ∧
      ((execute options inputs).status = 0 →
        execute { options with collect := true } inputs = execute options inputs) := by
  unfold execute
  cases inputs.load options.paths with
  | error error => exact ⟨rfl, fun _ => rfl⟩
  | ok sources =>
      obtain ⟨verdict, same⟩ := report_collect options sources
      refine ⟨by simp only [Report.answer, verdict], fun zero => ?_⟩
      apply congrArg Report.answer (same ?_)
      by_contra failed
      simp [Report.answer, failed] at zero

/-- The flag to collect changes no exit status, and no output of a success. -/
theorem run_collect (arguments : List String) (inputs : Inputs) :
    (run ("--collect" :: arguments) inputs).status = (run arguments inputs).status ∧
      ((run arguments inputs).status = 0 →
        run ("--collect" :: arguments) inputs = run arguments inputs) := by
  unfold run
  rw [plan_collect]
  cases plan arguments with
  | help => exact ⟨rfl, fun _ => rfl⟩
  | refuse error => exact ⟨rfl, fun _ => rfl⟩
  | process options => exact execute_collect options inputs

/-- The flag to collect never changes the verdict. When all is well the same trees are written with
it and without it, and else what is written without it about a source is the first diagnostic that
is written with it, or the lexical error. -/
theorem verdict_collect (mode : Mode) (json : Bool) (sources : List Source) :
    let written := fun collect =>
      Report.join ((compile collect sources).map (reportCompilation mode json))
    (written false).succeeded = (written true).succeeded ∧
    ((written true).succeeded → written false = written true ∧
      ∃ roots, List.Forall₂
          (fun source root => (Compilation.ofSource source .failFast).result = .ok root)
          sources roots ∧
        written true =
          ⟨String.join (roots.map fun root => mode.render root ++ "\n"), "", true⟩) ∧
    (∀ source : Source,
      let stopped := Compilation.ofSource source .failFast
      let held := Compilation.ofSource source (.collect [])
      held.isClean = stopped.result.toBool ∧
      (∀ error, tokenize source.text = .error error →
        reportCompilation mode json stopped = .ofError s!"{source.name}: {error.message}" ∧
          reportCompilation mode json held = reportCompilation mode json stopped) ∧
      ∀ first later, held.reported = first :: later →
        stopped.reported = [first] ∧
          reportCompilation mode json stopped = reportDiagnostic json source first ∧
          ∃ rest, reportCompilation mode json held =
            (reportDiagnostic json source first).append rest) ∧
    ∀ arguments inputs,
      (run ("--collect" :: arguments) inputs).status = (run arguments inputs).status := by
  intro written
  refine ⟨by simp only [written, succeeded_compile], fun succeeds => ?_, fun source => ?_,
    fun arguments inputs => (run_collect arguments inputs).1⟩
  · simp only [written, succeeded_compile, List.all_eq_true] at succeeds
    obtain ⟨roots, areRoots, same⟩ := report_roots mode json succeeds
    have lines := Report.join_ofOutput (roots.map mode.render)
    rw [List.map_map, List.map_map] at lines
    exact ⟨(same false).trans (same true).symm, roots, areRoots, (same true).trans lines⟩
  · intro stopped held
    refine ⟨Compilation.isClean_collect source, fun error lexed => ?_,
      fun first later reported => ?_⟩
    · have same : ∀ sink : Sink, sink.held = [] →
          reportCompilation mode json (.ofSource source sink) =
            .ofError s!"{source.name}: {error.message}" := by
        intro sink none
        rw [Compilation.ofSource_lexical lexed, reportCompilation, none]
        exact Report.empty_append _
      exact ⟨same _ rfl, (same _ rfl).trans (same _ rfl).symm⟩
    · have one : stopped.reported = held.reported.take 1 := Compilation.reported_failFast source
      rw [reported] at one
      exact ⟨one, reportCompilation_failFast mode json source reported⟩

/-- A clean source, a source with an open quotation, and one that collects two diagnostics of which
the first is also written without the flag. -/
theorem verdict_collect_cases :
    let clean : Source := ⟨"let a", none⟩
    let broken : Source := ⟨"let a = 'x", none⟩
    let faulty : Source := ⟨"let ) let )", none⟩
    let first : Diagnostic := ⟨4, 1, .expectedIdentifier⟩
    let second : Diagnostic := ⟨10, 1, .expectedIdentifier⟩
    let stopped : Source → Compilation := (Compilation.ofSource · .failFast)
    let held : Source → Compilation := (Compilation.ofSource · (.collect []))
    let written := fun collect =>
      Report.join ((compile collect [clean]).map (reportCompilation .tree false))
    ((written true).succeeded = true ∧ ∃ roots : List Root, written false =
      ⟨String.join (roots.map fun root => Mode.render .tree root ++ "\n"), "", true⟩) ∧
    (tokenize broken.text = .error (.unterminated 8) ∧
      reportCompilation .tree false (held broken) =
        reportCompilation .tree false (stopped broken)) ∧
    (held faulty).reported = [first, second] ∧ (stopped faulty).reported = [first] := by
  intro clean broken faulty first second stopped held written
  have succeeds : (written true).succeeded = true := by decide +kernel
  have lexed : tokenize broken.text = .error (.unterminated 8) := by decide +kernel
  have reported : (held faulty).reported = [first, second] := by decide +kernel
  obtain ⟨-, good, ofClean, -⟩ := verdict_collect .tree false [clean]
  obtain ⟨same, roots, -, trees⟩ := good succeeds
  obtain ⟨-, lexical, -⟩ := ofClean broken
  obtain ⟨-, -, syntactic⟩ := ofClean faulty
  exact ⟨⟨succeeds, roots, same.trans trees⟩, ⟨lexed, (lexical _ lexed).2⟩, reported,
    (syntactic first [second] reported).1⟩

end CommandLine

end FrontEnd
