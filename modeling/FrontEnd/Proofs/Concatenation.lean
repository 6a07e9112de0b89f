/-
This file writes one module behind another one. A declaration begins with its keyword, so the last
rule of the first module stops there as it does at the end, and both modules are found again.
-/

import FrontEnd.Proofs.Grammar.Parsing
import FrontEnd.Proofs.Parser.Offsets
import FrontEnd.Proofs.Token.Passing

namespace FrontEnd

open Grammar (Derives Nonterminal)

theorem Grammar.Derives.module_append {first second : List Token} (derives : Derives .module first)
    (later : Derives .module second) : Derives .module (first ++ second) := by
  generalize same : Nonterminal.module = nonterminal at derives
  induction derives with
  | none =>
      cases same
      exact later
  | more firstDerives _ _ inductionHypothesis =>
      cases same
      rw [List.append_assoc]
      exact .more firstDerives (inductionHypothesis rfl)
  | _ => cases same

/-- Commas trail in both of two parts when the second one does not begin with a parenthesis. -/
theorem withoutTrailingCommas_append {second : List Token}
    (opens : kindAhead second ≠ .bracket .closeParen) (first : List Token) :
    withoutTrailingCommas (first ++ second) =
      withoutTrailingCommas first ++ withoutTrailingCommas second := by
  induction first with
  | nil => rfl
  | cons token rest inductionHypothesis =>
      have ahead : kindAhead (rest ++ second) = .bracket .closeParen ↔
          kindAhead rest = .bracket .closeParen := by
        cases rest with
        | nil => simpa using opens
        | cons next later => rfl
      rw [List.cons_append, withoutTrailingCommas, withoutTrailingCommas]
      simp only [ahead, inductionHypothesis]
      split <;> rfl

namespace ParsedFrom

variable {tokens tokens' : List Token} {declarations declarations' : List Declaration}

/-- Modules that are parsed from two parts are parsed from both together. -/
theorem append (parsed : ParsedFrom tokens declarations)
    (parsed' : ParsedFrom tokens' declarations') :
    ParsedFrom (tokens ++ tokens') (declarations ++ declarations') where
  written := List.forall_mem_append.2 ⟨parsed.written, parsed'.written⟩
  derives := parsed.derives.module_append parsed'.derives
  canonical := List.forall_mem_append.2 ⟨parsed.canonical, parsed'.canonical⟩
  spelled := by
    have opens : kindAhead tokens' ≠ .bracket .closeParen := by
      rcases Parser.startsDeclaration_ofModule parsed'.derives with kind | kind | kind
      all_goals simp [kind]
    rw [withoutTrailingCommas_append opens, List.flatMap_append]
    exact spells_append.2 ⟨_, _, parsed.spelled, parsed'.spelled, rfl⟩

/-- Moved declarations are parsed from moved tokens. -/
theorem relocate (parsed : ParsedFrom tokens declarations) (move : Nat → Nat) :
    ParsedFrom (tokens.map (Token.relocate move))
      (declarations.map (Declaration.relocate move)) := by
  have written : Written (tokens.map (Token.relocate move)) := by
    intro token member
    obtain ⟨token, inside, rfl⟩ := List.mem_map.1 member
    exact ⟨(parsed.written token inside).genuine, (parsed.written token inside).spelled⟩
  let start : Parser.State Unit := ⟨⟨[], tokens, Token.eof 0⟩, .failFast, [], ()⟩
  let start' : Parser.State Unit := { start with cursor := start.cursor.relocate move }
  have ended : start.cursor.marker.kind = .eof := rfl
  -- The run on the moved tokens gives the moved declarations, and it has no report either.
  obtain ⟨boundary, next, ran, -⟩ := Parser.reads_root parsed.reads ended rfl
  have moved := (Parser.moveSimulation move Unit Unit).root start start' ⟨rfl, rfl⟩
  rw [ran] at moved
  generalize ran' : Parser.root start' = outcome at moved
  cases moved with
  | ok =>
      obtain ⟨⟨others, _, same, parsed'⟩, -⟩ :=
        Parser.yields_parsedRoot written start' _ _ rfl rfl rfl ran'
      obtain ⟨rfl, -⟩ := Module.mk.inj (List.cons.inj same).1
      exact parsed'

end ParsedFrom

/-- Texts between separators stand side by side with a separator between them. -/
theorem flatten_intersperse_append {α : Type} (separator : List α) {first second : List (List α)}
    (some : first ≠ []) (some' : second ≠ []) :
    ((first ++ second).intersperse separator).flatten =
      (first.intersperse separator).flatten ++ separator ++
        (second.intersperse separator).flatten := by
  induction first with
  | nil => exact absurd rfl some
  | cons part rest inductionHypothesis =>
      cases rest with
      | nil =>
          obtain ⟨part', rest', rfl⟩ := List.exists_cons_of_ne_nil some'
          simp
      | cons next later =>
          have along := inductionHypothesis (List.cons_ne_nil next later)
          simp only [List.cons_append, List.intersperse_cons_cons, List.flatten_cons] at along ⊢
          rw [along]
          simp

/-- The tokens of a text on the line after another one are moved behind the tokens of the other
one. -/
theorem tokenize_nextLine {first second : String} {tokens tokens' : List Token} {stop stop' : Nat}
    (lexed : tokenize first = .ok (tokens ++ [Token.eof stop]))
    (lexed' : tokenize second = .ok (tokens' ++ [Token.eof stop'])) :
    let move := (· + (Text.byteSize first.toList + 1))
    tokenize (first ++ "\n" ++ second) =
      .ok (tokens ++ tokens'.map (Token.relocate move) ++ [Token.eof (move stop')]) := by
  intro move
  have joined := Lexer.tokensFrom_joined lexed (List.cons_ne_nil '\n' [])
    (List.forall_mem_singleton.2 rfl) second.toList
  have found : Lexer.tokensFrom 0 second.toList = _ := lexed'
  rw [found, List.dropLast_concat] at joined
  rw [tokenize, String.toList_append, String.toList_append, List.append_assoc tokens]
  refine joined.trans ?_
  simp only [Lexer.moved, Except.map, Except.mapError, List.map_append]
  rfl

namespace Compilation

/-- Two clean sources, the second one on the line after the first one, are a clean source together.
It has the declarations of the first one and the moved declarations of the second one, and its
canonical text is put together from theirs. -/
theorem ofSource_joined {first second : Source} {root root' : Root}
    (clean : (ofSource first .failFast).result = .ok root)
    (clean' : (ofSource second .failFast).result = .ok root') (url : Option String) :
    ∃ whole body body' joined,
      (ofSource ⟨first.text ++ "\n" ++ second.text, url⟩ .failFast).result = .ok whole ∧
        root.modules = [body] ∧ root'.modules = [body'] ∧ whole.modules = [joined] ∧
        joined.declarations = body.declarations ++ body'.declarations.map
          (Declaration.relocate (· + (Text.byteSize first.text.toList + 1))) ∧
        (body.declarations ≠ [] → body'.declarations ≠ [] → (Node.root whole).format =
          (Node.root root).format ++ "\n" ++ (Node.root root').format) := by
  obtain ⟨tokens, stop, declarations, boundary, lexed, same, parsed⟩ :=
    parsedFrom_of_ofSource clean
  obtain ⟨tokens', stop', declarations', boundary', lexed', same', parsed'⟩ :=
    parsedFrom_of_ofSource clean'
  let move := (· + (Text.byteSize first.text.toList + 1))
  have parsedMoved := parsed'.relocate move
  have parsedAll := parsed.append parsedMoved
  let source : Source := ⟨first.text ++ "\n" ++ second.text, url⟩
  have lexedAll : tokenize source.text = _ := tokenize_nextLine lexed lexed'
  obtain ⟨boundaryAll, result⟩ := ofSource_parsedFrom parsedAll lexedAll
  refine ⟨_, ⟨declarations, boundary⟩, ⟨declarations', boundary'⟩, _, result, same, same', rfl, rfl,
    fun some some' => ?_⟩
  have sameMoved : (root'.relocate move).modules =
      [⟨declarations'.map (Declaration.relocate move), boundary'.relocate move⟩] := by
    rw [Root.relocate, same']
    rfl
  have formatMoved : (Node.root (root'.relocate move)).format = (Node.root root').format :=
    (Node.root root').relocate_format move
  have filled : declarations.map Declaration.text ≠ [] := List.map_eq_nil_iff.not.2 some
  have filledMoved : (declarations'.map (Declaration.relocate move)).map Declaration.text ≠ [] :=
    List.map_eq_nil_iff.not.2 (List.map_eq_nil_iff.not.2 some')
  rw [parsedAll.format rfl, parsed.format same, ← formatMoved, parsedMoved.format sameMoved,
    List.map_append, flatten_intersperse_append ['\n'] filled filledMoved, String.ofList_append,
    String.ofList_append]

/-- A binding that ends with a wide string and a function with a trailing comma are put together. -/
theorem ofSource_joinedModules :
    ∃ root root' whole : Root,
      (ofSource ⟨"let a: b = 'é'", none⟩ .failFast).result = .ok root ∧
        (ofSource ⟨"func f(x,) -> \x7b -x \x7d", none⟩ .failFast).result = .ok root' ∧
        (ofSource ⟨"let a: b = 'é'\nfunc f(x,) -> \x7b -x \x7d", none⟩ .failFast).result =
          .ok whole ∧
        (Node.root whole).format =
          (Node.root root).format ++ "\n" ++ (Node.root root').format := by
  have filled (text : String) (found : (ofSource ⟨text, none⟩ .failFast).result.toOption.any
      (fun root => root.modules.all fun body => body.declarations ≠ []) = true) :
      ∃ root, (ofSource ⟨text, none⟩ .failFast).result = .ok root ∧
        ∀ body, root.modules = [body] → body.declarations ≠ [] := by
    cases result : (ofSource ⟨text, none⟩ .failFast).result with
    | error error =>
        rw [result] at found
        cases found
    | ok root =>
        rw [result] at found
        refine ⟨root, rfl, fun body same => ?_⟩
        have all : root.modules.all (fun body => body.declarations ≠ []) = true := found
        simpa [same] using all
  obtain ⟨root, clean, some⟩ := filled "let a: b = 'é'" (by decide +kernel)
  obtain ⟨root', clean', some'⟩ := filled "func f(x,) -> \x7b -x \x7d" (by decide +kernel)
  obtain ⟨whole, body, body', joined, result, same, same', -, -, text⟩ :=
    ofSource_joined clean clean' none
  exact ⟨root, root', whole, clean, clean', result, text (some body same) (some' body' same')⟩

end Compilation

end FrontEnd
