/-
This file compiles canonical texts again. The canonical text of a clean source is clean and
canonical exactly when it takes no property of a number with a fraction.
-/

import FrontEnd.Compilation
import FrontEnd.Proofs.Parser.ReadingModules
import FrontEnd.Proofs.Tree.ReprintingModules

namespace FrontEnd

namespace Compilation

/-- The state of a parse of a source after its tokens were noted. -/
def started (source : Source) (sink : Sink) (tokens : List Token) : Parser.State Unit :=
  let state := Parser.State.start tokens sink ()
  { state with log := state.log ++ [.tokenized source.name tokens.length] }

/-- A source has a tree when its text has tokens and these are parsed. -/
theorem ofSource_eq_ok {source : Source} {sink : Sink} {root : Root} :
    (ofSource source sink).result = .ok root ↔ ∃ tokens state, tokenize source.text = .ok tokens ∧
      Parser.root (started source sink tokens) = .ok root state := by
  unfold ofSource
  cases lexed : tokenize source.text with
  | error error =>
      have read : (Parser.root : Parser Unit Sink Root).read source sink () = .error error := by
        rw [Parser.read, lexed]
        rfl
      rw [read]
      simp
  | ok tokens =>
      have read : Parser.root.read source sink () =
          .ok (Parser.root (started source sink tokens)) := by
        rw [Parser.read, lexed]
        rfl
      rw [read]
      cases parsed : (Parser.root : Parser Unit Sink Root) (started source sink tokens) <;>
        simp [parsed]

/-- The tree of a clean source is canonical and made of well-spelled tokens. -/
theorem canonical_of_ofSource {source : Source} {root : Root}
    (parsed : (ofSource source .failFast).result = .ok root) :
    ∃ body, root.modules = [body] ∧ body.Canonical ∧
      ∀ piece ∈ body.pieces, piece.WellSpelled := by
  obtain ⟨tokens, state, lexed, ran⟩ := ofSource_eq_ok.1 parsed
  obtain ⟨taken, stop, rfl, well⟩ := tokenize_wellSpelled lexed
  let start := started source .failFast (taken ++ [Token.eof stop])
  have cursor : start.cursor = ⟨[], taken, Token.eof stop⟩ := TokenCursor.ofTokens_marked taken rfl
  obtain ⟨⟨-, ⟨body, same, canonical⟩, -, spelling, spelled, all⟩, -⟩ :=
    Parser.yields_canonicalRoot (fun token member => (well token member).kind_ne_eof) start state
      root rfl (by rw [cursor]; rfl) (by rw [cursor]) ran
  refine ⟨body, same, canonical, fun piece member => ?_⟩
  cases piece with
  | mark kind => trivial
  | stored token =>
      have inRoot : .stored token ∈ root.pieces := by
        rw [Root.pieces, same]
        simpa using member
      have inTokens := List.mem_append_left (withoutTrailingCommas state.cursor.rest)
        (spelled.mem inRoot)
      rw [← all] at inTokens
      exact (well token (withoutTrailingCommas_subset taken inTokens)).spelled

/-- A text whose tokens spell a canonical module is a clean source with its declarations. -/
theorem ofSource_canonical {source : Source} {body : Module} {taken : List Token} {stop : Nat}
    (canonical : body.Canonical) (spelled : Spells body.pieces taken)
    (lexed : tokenize source.text = .ok (taken ++ [Token.eof stop])) (sink : Sink) :
    ∃ boundary, (ofSource source sink).result =
      .ok ⟨[⟨body.declarations, boundary⟩], Token.eof stop⟩ := by
  let start := started source sink (taken ++ [Token.eof stop])
  have cursor : start.cursor = ⟨[], taken, Token.eof stop⟩ := TokenCursor.ofTokens_marked taken rfl
  have ended : start.cursor.marker.kind = .eof := by rw [cursor]; rfl
  obtain ⟨boundary, state, ran, -, -⟩ :=
    Parser.reads_root (Parser.reads_declarations canonical spelled) ended (by rw [cursor])
  rw [cursor] at ran
  exact ⟨boundary, ofSource_eq_ok.2 ⟨_, state, lexed, ran⟩⟩

/-- The canonical text of a clean source is a clean source with the same canonical text exactly when
no property is taken of a number that is written with a fraction. -/
theorem format_fixed_iff {source : Source} {root : Root}
    (parsed : (ofSource source .failFast).result = .ok root) (url : Option String) :
    (∃ again, (ofSource ⟨(Node.root root).format, url⟩ .failFast).result = .ok again ∧
      (Node.root again).format = (Node.root root).format) ↔
      ∀ entry ∈ (Node.root root).nodes 0, entry.2.IsReadable := by
  obtain ⟨body, same, canonical, well⟩ := canonical_of_ofSource parsed
  have text : (Node.root root).format = String.ofList body.text :=
    Root.format_eq_text same canonical well
  have readable : Readable (body.nodes 1) ↔ Readable ((Node.root root).nodes 0) := by
    simp [Node.nodes, Root.nodes, same, Node.IsReadable]
  show _ ↔ Readable _
  rw [text, ← readable]
  rcases canonical.scans well 1 0 with
    ⟨holds, taken, ⟨body', spelled, reprints⟩, split⟩ | ⟨fails, error, split⟩
  · refine iff_of_true ?_ holds
    rw [List.append_nil] at split
    let stop := 0 + Text.byteSize body.text
    have lexed : tokenize (String.ofList body.text) = .ok (taken ++ [Token.eof stop]) := by
      rw [tokenize, String.toList_ofList, split]
      rfl
    let printed : Source := ⟨String.ofList body.text, url⟩
    have lexedPrinted : tokenize printed.text = .ok (taken ++ [Token.eof stop]) := lexed
    obtain ⟨boundary, result⟩ :=
      ofSource_canonical reprints.canonical spelled lexedPrinted .failFast
    refine ⟨_, result, ?_⟩
    let file : Module := ⟨body'.declarations, boundary⟩
    have fileCanonical : file.Canonical :=
      ⟨reprints.canonical.declarations, reprints.canonical.sequenced⟩
    have again : (Node.root ⟨[file], Token.eof stop⟩).format = String.ofList file.text :=
      Root.format_eq_text rfl fileCanonical reprints.well
    rw [again]
    exact congrArg String.ofList reprints.text
  · refine iff_of_false ?_ fails
    rintro ⟨again, result, -⟩
    obtain ⟨tokens, state, lexed, -⟩ := ofSource_eq_ok.1 result
    rw [List.append_nil] at split
    rw [tokenize, String.toList_ofList, split] at lexed
    cases lexed

/-- A property of a number with a fraction is clean, and its canonical text is not. -/
theorem format_not_fixed :
    ∃ root, (ofSource ⟨"let a = 1.5 .x", none⟩ .failFast).result = .ok root ∧
      ¬∃ again, (ofSource ⟨(Node.root root).format, none⟩ .failFast).result = .ok again ∧
        (Node.root again).format = (Node.root root).format := by
  have found : (ofSource ⟨"let a = 1.5 .x", none⟩ .failFast).result.toOption.any
      (fun root => ¬∀ entry ∈ (Node.root root).nodes 0, entry.2.IsReadable) = true := by
    decide +kernel
  cases parsed : (ofSource ⟨"let a = 1.5 .x", none⟩ .failFast).result with
  | error error =>
      rw [parsed] at found
      cases found
  | ok root =>
      rw [parsed] at found
      exact ⟨root, rfl, fun fixed =>
        of_decide_eq_true found ((format_fixed_iff parsed none).1 fixed)⟩

end Compilation

end FrontEnd
