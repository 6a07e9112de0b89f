/-
This file pairs the placeholders of a tree with the reports of the parse that made it, from every
entry point.
-/

import FrontEnd.Parser.Entry
import FrontEnd.Proofs.Parser.RecoveringModules

namespace FrontEnd

/-- The pieces of a node of any sort. -/
def Node.pieces : Node → List Piece
  | .expression value => value.pieces
  | .returned keyword value => Statement.pieces (.returned keyword value)
  | .variable definition => definition.pieces
  | .recovery token => Statement.pieces (.recovery token)
  | .block body => body.pieces
  | .parameter declared => declared.pieces
  | .parameterList list => list.pieces
  | .function declared => declared.pieces
  | .module body => body.pieces
  | .root whole => whole.pieces

/-- Whether a node of any sort is canonical. -/
def Node.Canonical : Node → Prop
  | .expression value => value.Canonical
  | .returned keyword value => Statement.Canonical (.returned keyword value)
  | .variable definition => definition.Canonical
  | .recovery token => Statement.Canonical (.recovery token)
  | .block body => body.Canonical
  | .parameter declared => declared.Canonical
  | .parameterList list => list.Canonical
  | .function declared => declared.Canonical
  | .module body => body.Canonical
  | .root whole => whole.Canonical

theorem Statement.node_slots (statement : Statement) :
    statement.node.slots = statement.slots := by
  cases statement <;> rfl

theorem Statement.node_pieces (statement : Statement) :
    statement.node.pieces = statement.pieces := by
  cases statement <;> rfl

theorem Statement.node_canonical {statement : Statement} :
    statement.node.Canonical ↔ statement.Canonical := by
  cases statement <;> rfl

/-- A node that a parse made with some reports. Where only brackets are missing it is canonical and
made of well-spelled tokens. -/
structure Node.Recovered (node : Node) (reports : List Diagnostic) : Prop where
  accounts : Accounts node.slots reports
  canonical : Repairable node.slots → node.Canonical
  well : Repairable node.slots → ∀ piece ∈ node.pieces, piece.WellSpelled

/-- What is made of written tokens is a recovered node. -/
theorem Made.recovered {node : Node} {before after : List Token} {reports : List Diagnostic}
    (made : Made node.pieces node.slots node.Canonical before after reports)
    (written : Written before) : node.Recovered reports :=
  ⟨made.accounts written, fun repairable => made.shaped (.inr ⟨written, repairable⟩),
    made.well written⟩

/-- The places of a file hold the placeholders of its declarations. -/
theorem Root.placeholders_slots {declarations : List Declaration} {boundary marker : Token}
    (boundaryGenuine : boundary.error = false) (markerGenuine : marker.error = false) :
    placeholders (Root.slots ⟨[⟨declarations, boundary⟩], marker⟩) =
      placeholders (declarations.flatMap Declaration.slots) := by
  simp [slots, Module.slots, placeholders, boundaryGenuine, markerGenuine]

/-- A file is recovered when its declarations are. -/
theorem Root.recovered {declarations : List Declaration} {boundary marker : Token}
    {before after : List Token} {reports : List Diagnostic}
    (made : Made (declarations.flatMap Declaration.pieces) (declarations.flatMap Declaration.slots)
      (∀ declaration ∈ declarations, declaration.Canonical) before after reports)
    (written : Written before) (boundaryGenuine : boundary.error = false)
    (markerGenuine : marker.error = false) :
    (Node.root ⟨[⟨declarations, boundary⟩], marker⟩).Recovered reports := by
  obtain ⟨paired, omissions⟩ := made.accounts written
  have inside : Repairable (Root.slots ⟨[⟨declarations, boundary⟩], marker⟩) →
      Repairable (declarations.flatMap Declaration.slots) := fun repairable slot member =>
    repairable slot (by simp [Root.slots, Module.slots, List.mem_flatMap.1 member])
  refine ⟨⟨?_, omissions⟩, fun repairable => ?_, fun repairable => ?_⟩
  · rw [Node.slots, Root.placeholders_slots boundaryGenuine markerGenuine, paired]
  · have canonical := made.shaped (.inr ⟨written, inside repairable⟩)
    exact ⟨_, rfl, canonical, Declaration.sequenced canonical⟩
  · have well := made.well written (inside repairable)
    simpa [Node.pieces, Root.pieces, Module.pieces] using well

/-- The report on the token where the declarations of a file stop before its end. -/
def Entry.stopReports (entry : Entry) (cursor : TokenCursor) : List Diagnostic :=
  if entry = .file ∧ cursor.current.kind ≠ .eof then
    [⟨cursor.current.offset, 1, .expectedDeclaration⟩]
  else []

namespace Parser

variable {σ α : Type}

/-- Declarations stop with the report of the entry point. -/
theorem Stops.eq_stopReports {cursor : TokenCursor} {last : List Diagnostic}
    (ended : cursor.marker.kind = .eof) (stops : Stops cursor.rest last) :
    last = Entry.file.stopReports cursor := by
  obtain ⟨passed, rest, marker⟩ := cursor
  rcases stops with ⟨kind, rfl⟩ | ⟨token, later, rfl, goesOn, rfl⟩
  · cases rest with
    | nil => exact (if_neg fun goesOn => goesOn.2 ended).symm
    | cons token later => exact (if_neg fun goesOn => goesOn.2 kind).symm
  · exact (if_pos ⟨rfl, goesOn⟩).symm

/-- A run on the tokens of a text holds the diagnostics that the parser adds. -/
theorem Gives.start {parser : Parser σ Sink α} {body : List Token}
    {condition : α → List Token → List Diagnostic → Prop} (gives : Gives parser body condition)
    {stop : Nat} {observed : σ} {value : α} {state : State σ}
    (ran : parser (State.start (body ++ [Token.eof stop]) (.collect []) observed) =
      .ok value state) :
    ∃ added, condition value state.cursor.rest added ∧ state.sink = .collect added ∧
      state.cursor.marker = Token.eof stop := by
  let start : State σ := State.start (body ++ [Token.eof stop]) (.collect []) observed
  have cursor : start.cursor = ⟨[], body, Token.eof stop⟩ := TokenCursor.ofTokens_marked body rfl
  obtain ⟨added, meets, moved⟩ :=
    gives start state value (by rw [cursor]; rfl) (by rw [cursor]) ran
  refine ⟨added, meets, ?_, moved.marker.trans (by rw [cursor])⟩
  have taken := moved.sink
  rw [show start.sink = .collect [] from rfl, Sink.acceptAll?_collect] at taken
  exact (Option.some.inj taken).symm

end Parser

namespace Entry

variable {σ : Type} [Observer σ]

/-- Every entry point recovers a node from the tokens of a text. -/
theorem parse_recovered {entry : Entry} {body : List Token} {stop : Nat} {observed : σ}
    {node : Node} {state : Parser.State σ} (written : Written body)
    (parsed : entry.parse (body ++ [Token.eof stop]) (.collect []) observed = .ok node state) :
    ∃ reports, state.sink = .collect (reports ++ entry.stopReports state.cursor) ∧
      node.Recovered reports := by
  cases entry with
  | expression =>
      have gives : Parser.Gives (parser .expression : Parser σ Sink Node) body fun node _ added =>
          node.Recovered added := by
        apply (Parser.gives_expression body).map
        intro value after added recovered
        have made : Made (Node.expression value).pieces (Node.expression value).slots
            (Node.expression value).Canonical body after added :=
          recovered.made.mono Parser.Shaped.canonical
        exact made.recovered written
      obtain ⟨reports, recovered, held, -⟩ := gives.start parsed
      exact ⟨reports, by simpa [stopReports] using held, recovered⟩
  | statement =>
      have gives : Parser.Gives (parser .statement : Parser σ Sink Node) body fun node _ added =>
          node.Recovered added := by
        apply (Parser.gives_statement body).map
        intro statement after added recovered
        have made := recovered.made.mono Parser.ShapedStatement.canonical
        rw [← statement.node_pieces, ← statement.node_slots, ← Statement.node_canonical] at made
        exact made.recovered written
      obtain ⟨reports, recovered, held, -⟩ := gives.start parsed
      exact ⟨reports, by simpa [stopReports] using held, recovered⟩
  | identifier =>
      have gives : Parser.Gives (parser .identifier : Parser σ Sink Node) body fun node _ added =>
          node.Recovered added := by
        apply (Parser.gives_identifier body).map
        rintro name after added ⟨made, -⟩
        have whole : Made name.node.pieces name.node.slots name.node.Canonical body after added :=
          made.mono fun named => .identifier named.1
        exact whole.recovered written
      obtain ⟨reports, recovered, held, -⟩ := gives.start parsed
      exact ⟨reports, by simpa [stopReports] using held, recovered⟩
  | file =>
      obtain ⟨whole, next, ran, finished⟩ := Parser.bind_eq_ok.1 parsed
      cases finished
      obtain ⟨declarations, between, ranDeclarations, rfl, cursor, sink⟩ := Parser.root_eq_ok ran
      have start : (Parser.State.start (body ++ [Token.eof stop]) (Sink.collect [])
          observed).cursor = ⟨[], body, Token.eof stop⟩ := TokenCursor.ofTokens_marked body rfl
      rw [start, TokenCursor.remaining] at ranDeclarations
      have gives := @Parser.gives_declarationsWithin σ Sink _ _ body.length body le_rfl
      obtain ⟨added, ⟨reports, last, rfl, stops, made⟩, held, marker⟩ :=
        gives.start ranDeclarations
      have genuine : (Parser.State.start (body ++ [Token.eof stop]) (Sink.collect [])
          observed).cursor.current.error = false := by
        rw [start]
        cases body with
        | nil => rfl
        | cons first rest => exact (written first List.mem_cons_self).genuine
      refine ⟨reports, ?_, Root.recovered made written genuine (by rw [marker]; rfl)⟩
      rw [sink, held, cursor, stops.eq_stopReports (by rw [marker]; rfl)]

/-- The placeholders of a tree and the reports of its parse go together. The flagged tokens of the
tree have, in order, the codes and the offsets of the reports that come with a placeholder. All
other reports are on missing separators, but for the one on the token where a file stops early. -/
theorem parse_placeholders {entry : Entry} {text : String} {tokens : List Token} {observed : σ}
    {node : Node} {state : Parser.State σ} (lexed : tokenize text = .ok tokens)
    (parsed : entry.parse tokens (.collect []) observed = .ok node state) :
    placeholders node.slots = (state.sink.held.filter (·.code.leavesPlaceholder)).map
        (fun diagnostic => (some diagnostic.code, diagnostic.offset)) ∧
      ∃ reports, state.sink.held = reports ++ entry.stopReports state.cursor ∧
        ∀ diagnostic ∈ reports, diagnostic.code.leavesPlaceholder ∨ diagnostic.code.isOmission := by
  obtain ⟨body, stop, rfl, written⟩ := tokenize_wellSpelled lexed
  obtain ⟨reports, held, recovered⟩ := parse_recovered written parsed
  rw [held, Sink.held]
  refine ⟨?_, reports, rfl, recovered.accounts.omissions⟩
  have unpaired : (entry.stopReports state.cursor).filter (·.code.leavesPlaceholder) = [] := by
    unfold stopReports
    split <;> rfl
  rw [List.filter_append, unpaired, List.append_nil, recovered.accounts.paired]

/-- A broken file has a placeholder for each report but those on a comma and on where it stops. -/
theorem parse_brokenFile :
    let text := "func f(a b) -> \x7b ) let = (c \x7d d"
    ∃ tokens node state, tokenize text = .ok tokens ∧
      Entry.file.parse tokens (.collect []) () = .ok node state ∧
      placeholders node.slots = [(some .unexpectedToken, 17), (some .expectedIdentifier, 23),
        (some .expectedParentheses, 28)] ∧
      placeholders node.slots = (state.sink.held.filter (·.code.leavesPlaceholder)).map
        (fun diagnostic => (some diagnostic.code, diagnostic.offset)) ∧
      ∃ reports, state.sink.held = reports ++ Entry.file.stopReports state.cursor ∧
        ∀ diagnostic ∈ reports,
          diagnostic.code.leavesPlaceholder ∨ diagnostic.code.isOmission := by
  intro text
  have ran : (match tokenize text with
      | .ok tokens =>
          match Entry.file.parse tokens (.collect []) () with
          | .ok node _ => decide (placeholders node.slots = [(some .unexpectedToken, 17),
              (some .expectedIdentifier, 23), (some .expectedParentheses, 28)])
          | .error .. => false
      | .error _ => false) = true := by decide +kernel
  split at ran
  · rename_i tokens lexed
    split at ran
    · rename_i node state parsed
      exact ⟨tokens, node, state, lexed, parsed, of_decide_eq_true ran,
        parse_placeholders lexed parsed⟩
    · cases ran
  · cases ran

end Entry

end FrontEnd
