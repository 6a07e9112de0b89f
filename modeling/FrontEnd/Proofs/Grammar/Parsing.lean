/-
This file characterises the modules that are parsed without a report. Their tokens are those that
the grammar derives with signs kept apart, and the tokens determine the declarations.
-/

import FrontEnd.Proofs.Compilation
import FrontEnd.Proofs.Grammar.Acceptance
import FrontEnd.Proofs.Grammar.Deriving

namespace FrontEnd

open Grammar (Derives)

/-- Declarations are parsed from tokens that the grammar derives when they are canonical and the
tokens spell them, trailing commas aside. -/
structure ParsedFrom (tokens : List Token) (declarations : List Declaration) : Prop where
  written : Written tokens
  derives : Derives .module tokens
  canonical : ∀ declaration ∈ declarations, declaration.Canonical
  spelled : Spells (declarations.flatMap Declaration.pieces) (withoutTrailingCommas tokens)

/-- What a file without a report holds is parsed from its tokens. -/
theorem Parser.yields_parsedRoot {σ : Type} [Observer σ] {tokens : List Token}
    (written : Written tokens) :
    Yields (root : Parser σ Sink Root) tokens fun whole _ => ∃ declarations boundary,
      whole.modules = [⟨declarations, boundary⟩] ∧ ParsedFrom tokens declarations := by
  have unmarked : ∀ token ∈ tokens, token.kind ≠ .eof := fun token member =>
    (written token member).kind_ne_eof
  intro state next whole fails ends starts ran
  obtain ⟨⟨done, ⟨body, same, canonical⟩, -, spelling, spelled, all⟩, kept⟩ :=
    yields_canonicalRoot unmarked state next whole fails ends starts ran
  obtain ⟨derives, -⟩ := yields_derivedRoot unmarked state next whole fails ends starts ran
  rw [done, withoutTrailingCommas, List.append_nil] at all
  rw [Root.pieces, same, List.flatMap_singleton, ← all] at spelled
  have parsed : ParsedFrom tokens body.declarations :=
    ⟨written, derives, canonical.declarations, spelled⟩
  exact ⟨⟨body.declarations, body.boundary, same, parsed⟩, kept⟩

/-- Two runs of a parser from one place read the same. -/
theorem Parser.Reads.unique {α : Type} {parser : Parser Unit Sink α}
    {before after after' : List Token}
    {value value' : α} (reads : Reads parser before value after)
    (reads' : Reads parser before value' after') : value = value' := by
  let state : State Unit := ⟨⟨[], before, Token.eof 0⟩, .failFast, [], ()⟩
  obtain ⟨next, ran, -, -⟩ := reads state rfl rfl
  obtain ⟨next', ran', -, -⟩ := reads' state rfl rfl
  rw [ran] at ran'
  cases ran'
  rfl

namespace ParsedFrom

variable {tokens : List Token} {declarations declarations' : List Declaration}

theorem module (parsed : ParsedFrom tokens declarations) (boundary : Token) :
    Module.Canonical ⟨declarations, boundary⟩ :=
  ⟨parsed.canonical, Declaration.sequenced parsed.canonical⟩

/-- Tokens that spell canonical declarations keep signs apart. -/
theorem fit (parsed : ParsedFrom tokens declarations) : Fit tokens := by
  refine ⟨parsed.written, SignsApart.ofWithoutTrailingCommas ?_⟩
  rw [parsed.spelled.kinds]
  exact (parsed.module (Token.eof 0)).signsApart

/-- The tokens determine the declarations. -/
theorem unique (parsed : ParsedFrom tokens declarations)
    (parsed' : ParsedFrom tokens declarations') : declarations = declarations' :=
  Parser.Reads.unique
    (Parser.reads_declarations (parsed.module (Token.eof 0)) parsed.spelled)
    (Parser.reads_declarations (parsed'.module (Token.eof 0)) parsed'.spelled)

theorem wellSpelled (parsed : ParsedFrom tokens declarations) :
    ∀ piece ∈ declarations.flatMap Declaration.pieces, piece.WellSpelled := by
  intro piece member
  cases piece with
  | mark kind => trivial
  | stored token =>
      have inTokens := withoutTrailingCommas_subset tokens (parsed.spelled.mem member)
      exact (parsed.written token inTokens).spelled

/-- The canonical text of a file is the text of its declarations. -/
theorem format (parsed : ParsedFrom tokens declarations) {root : Root} {boundary : Token}
    (same : root.modules = [⟨declarations, boundary⟩]) :
    (Node.root root).format =
      String.ofList ((declarations.map Declaration.text).intersperse ['\n']).flatten :=
  Root.format_eq_text same (parsed.module boundary) parsed.wellSpelled

/-- Derived tokens with signs apart are read, and what is read is parsed from them. -/
theorem exists_reads (derives : Derives .module tokens) (fit : Fit tokens) :
    ∃ declarations, ParsedFrom tokens declarations ∧
      Parser.Reads (Parser.declarationsWithin tokens.length : Parser Unit Sink _) tokens
        declarations [] := by
  have accepts : Parser.Accepts
      (Parser.declarationsWithin tokens.length : Parser Unit Sink _) tokens (· = []) :=
    Parser.accepts_declarationsWithin derives fit _ le_rfl
  -- The run that is accepted also takes tokens that its declarations spell.
  obtain ⟨declarations, _, reads, -, rfl⟩ := accepts
  let start : Parser.State Unit := ⟨⟨[], tokens, Token.eof 0⟩, .failFast, [], ()⟩
  have ended : start.cursor.marker.kind = .eof := rfl
  obtain ⟨boundary, next, ran, -⟩ := Parser.reads_root reads ended rfl
  obtain ⟨⟨others, _, same, parsed⟩, -⟩ :=
    Parser.yields_parsedRoot fit.written start next _ rfl rfl rfl ran
  obtain ⟨rfl, -⟩ := Module.mk.inj (List.cons.inj same).1
  exact ⟨declarations, parsed, reads⟩

theorem reads (parsed : ParsedFrom tokens declarations) :
    Parser.Reads (Parser.declarationsWithin tokens.length : Parser Unit Sink _) tokens
      declarations [] := by
  obtain ⟨declarations', parsed', reads⟩ := exists_reads parsed.derives parsed.fit
  rwa [parsed.unique parsed']

end ParsedFrom

namespace Compilation

/-- The declarations of a clean source are parsed from its tokens. -/
theorem parsedFrom_of_ofSource {source : Source} {root : Root}
    (clean : (ofSource source .failFast).result = .ok root) :
    ∃ body stop declarations boundary, tokenize source.text = .ok (body ++ [Token.eof stop]) ∧
      root.modules = [⟨declarations, boundary⟩] ∧ ParsedFrom body declarations := by
  obtain ⟨tokens, state, lexed, ran⟩ := ofSource_eq_ok.1 clean
  obtain ⟨body, stop, rfl, well⟩ := tokenize_wellSpelled lexed
  let start := started source .failFast (body ++ [Token.eof stop])
  have cursor : start.cursor = ⟨[], body, Token.eof stop⟩ := TokenCursor.ofTokens_marked body rfl
  obtain ⟨⟨declarations, boundary, same, parsed⟩, -⟩ := Parser.yields_parsedRoot well start state
    root rfl (by rw [cursor]; rfl) (by rw [cursor]) ran
  exact ⟨body, stop, declarations, boundary, lexed, same, parsed⟩

/-- A text is a clean source with the declarations that are parsed from its tokens. -/
theorem ofSource_parsedFrom {source : Source} {body : List Token} {stop : Nat}
    {declarations : List Declaration} (parsed : ParsedFrom body declarations)
    (lexed : tokenize source.text = .ok (body ++ [Token.eof stop])) :
    ∃ boundary, (ofSource source .failFast).result =
      .ok ⟨[⟨declarations, boundary⟩], Token.eof stop⟩ := by
  let start := started source .failFast (body ++ [Token.eof stop])
  have cursor : start.cursor = ⟨[], body, Token.eof stop⟩ := TokenCursor.ofTokens_marked body rfl
  have ended : start.cursor.marker.kind = .eof := by rw [cursor]; rfl
  obtain ⟨boundary, state, ran, -, -⟩ := Parser.reads_root parsed.reads ended (by rw [cursor])
  rw [cursor] at ran
  exact ⟨boundary, ofSource_eq_ok.2 ⟨_, state, lexed, ran⟩⟩

/-- A source is clean exactly when its text has tokens that the grammar derives, and no sign of an
increment or a decrement stands directly before an `if`. -/
theorem ofSource_clean_iff {source : Source} :
    (∃ root, (ofSource source .failFast).result = .ok root) ↔
      ∃ body stop, tokenize source.text = .ok (body ++ [Token.eof stop]) ∧
        Derives .module body ∧ SignsApart (body.map Token.kind) := by
  constructor
  · rintro ⟨root, clean⟩
    obtain ⟨body, stop, declarations, boundary, lexed, -, parsed⟩ := parsedFrom_of_ofSource clean
    exact ⟨body, stop, lexed, parsed.derives, parsed.fit.apart⟩
  · rintro ⟨body, stop, lexed, derives, apart⟩
    obtain ⟨body', stop', same, well⟩ := tokenize_wellSpelled lexed
    obtain ⟨rfl, -⟩ := List.append_inj' same rfl
    obtain ⟨declarations, parsed, -⟩ := ParsedFrom.exists_reads derives ⟨well, apart⟩
    obtain ⟨boundary, clean⟩ := ofSource_parsedFrom parsed lexed
    exact ⟨_, clean⟩

end Compilation

end FrontEnd
