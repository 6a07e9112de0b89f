/-
This file derives the tokens that the rules take. A parse that fails at its first report only takes
what the grammar derives, so a module that is parsed is one that is derived.
-/

import FrontEnd.Proofs.Grammar.Prospects
import FrontEnd.Proofs.Parser.Accounting

namespace FrontEnd

open Grammar (Derives Nonterminal)

namespace Parser

variable {σ α β : Type}

/-- A parser obeys a form when, failing at the first report, it can only succeed after it took
tokens of the form. -/
def Obeys (parser : Parser σ Sink α) (form : List Token → Prop) : Prop :=
  ∀ before, Yields parser before fun _ after => ∃ taken, before = taken ++ after ∧ form taken

/-- The rest of a sequence may assume what its first part yields. -/
theorem Yields.bind {first : Parser σ Sink α} {rest : α → Parser σ Sink β} {before : List Token}
    {condition : α → List Token → Prop} {condition' : β → List Token → Prop}
    (yields : Yields first before condition)
    (later : ∀ value middle, condition value middle → Yields (rest value) middle condition') :
    Yields (first >>= rest) before condition' := by
  intro state next value fails ends starts run
  obtain ⟨middle, between, ranFirst, ranRest⟩ := bind_eq_ok.1 run
  obtain ⟨meets, kept⟩ := yields state between middle fails ends starts ranFirst
  obtain ⟨meets', keptRest⟩ := later middle _ meets between next value (kept.sink.trans fails)
    (by rw [kept.marker, ends]) rfl ranRest
  exact ⟨meets', kept.trans keptRest⟩

/-- What yields a condition yields a weaker one. -/
theorem Yields.mono {parser : Parser σ Sink α} {before : List Token}
    {condition condition' : α → List Token → Prop} (yields : Yields parser before condition)
    (weaker : ∀ value after, condition value after → condition' value after) :
    Yields parser before condition' := by
  intro state next value fails ends starts run
  obtain ⟨meets, kept⟩ := yields state next value fails ends starts run
  exact ⟨weaker value _ meets, kept⟩

/-- A step that reports nothing yields what it ensures. -/
theorem Quiet.yields {parser : Parser σ Sink α} {before : List Token}
    {condition : α → List Token → Prop} (quiet : Quiet parser before condition) :
    Yields parser before condition :=
  fun state next value _ ends starts run => quiet state next value ends starts run

theorem yields_pure {value : α} {before : List Token} {condition : α → List Token → Prop}
    (meets : condition value before) : Yields (pure value : Parser σ Sink α) before condition := by
  rintro state next value' - - rfl run
  cases run
  exact ⟨meets, Kept.refl state⟩

/-- No parse goes on after a report. -/
theorem yields_report (diagnostic : Diagnostic) (before : List Token)
    (condition : Unit → List Token → Prop) :
    Yields (report diagnostic : Parser σ Sink Unit) before condition := by
  intro state next value fails _ _ run
  have refused : Receiver.accept diagnostic state.sink = .error diagnostic .failFast := by
    rw [fails]
    rfl
  rw [report_of_error refused] at run
  cases run

/-- The cursor stands before the tokens that are left. -/
theorem yields_cursor {use : TokenCursor → Parser σ Sink α} {before : List Token}
    {condition : α → List Token → Prop}
    (yields : ∀ cursor : TokenCursor, cursor.marker.kind = .eof → cursor.rest = before →
      Yields (use cursor) before condition) : Yields (cursor >>= use) before condition :=
  fun state next value fails ends starts run =>
    yields state.cursor ends starts state next value fails ends starts run

section Obeys

variable {parser first : Parser σ Sink α} {rest : α → Parser σ Sink β}
  {form form' : List Token → Prop}
  {value : α}

/-- What obeys a form obeys a wider one. -/
theorem Obeys.mono (obeys : Obeys parser form) (weaker : ∀ taken, form taken → form' taken) :
    Obeys parser form' := by
  refine fun before => (obeys before).mono ?_
  rintro value after ⟨taken, whole, formed⟩
  exact ⟨taken, whole, weaker taken formed⟩

/-- What comes after a parser goes on with what it took. -/
theorem Obeys.bind (obeys : Obeys first form)
    (later : ∀ value taken, form taken → Obeys (rest value) fun more => form' (taken ++ more)) :
    Obeys (first >>= rest) form' := by
  intro before
  refine (obeys before).bind ?_
  rintro value middle ⟨taken, rfl, formed⟩
  refine (later value taken formed middle).mono ?_
  rintro value' after ⟨more, rfl, formedRest⟩
  exact ⟨taken ++ more, (List.append_assoc ..).symm, formedRest⟩

/-- What comes after a parser that takes nothing takes the whole form. -/
theorem Obeys.bindSilent (silent : Obeys first (· = []))
    (later : ∀ value, Obeys (rest value) form) : Obeys (first >>= rest) form := by
  refine silent.bind ?_
  rintro value _ rfl
  exact later value

theorem obeys_pure (formed : form []) : Obeys (pure value : Parser σ Sink α) form :=
  fun _ => yields_pure ⟨[], rfl, formed⟩

/-- With a sink that fails fast no run goes on behind a report, so any form is obeyed. -/
theorem obeys_report (diagnostic : Diagnostic) (rest : Unit → Parser σ Sink β)
    (form : List Token → Prop) : Obeys (report diagnostic >>= rest) form :=
  fun before => (yields_report diagnostic before fun _ _ => False).bind fun _ _ none => none.elim

/-- A quiet parser that takes nothing has no part in the form. -/
theorem obeys_still {condition : List Token → α → List Token → Prop}
    (quiet : ∀ before, Quiet first before (condition before))
    (still : ∀ before value after, condition before value after → after = before)
    (later : ∀ value, Obeys (rest value) form) : Obeys (first >>= rest) form := by
  refine fun before => (quiet before).yields.bind fun value middle meets => ?_
  rw [← still before value middle meets]
  exact later value middle

/-- Making a node takes no token. -/
theorem obeys_make [Observer σ] {node : α → Node} (formed : form []) :
    Obeys (make node value : Parser σ Sink α) form := by
  refine fun before => (quiet_make node value before).yields.mono ?_
  rintro _ _ ⟨-, same⟩
  exact ⟨[], same.symm, formed⟩

theorem obeys_remaining {use : Nat → Parser σ Sink α} (later : ∀ count, Obeys (use count) form) :
    Obeys (remaining >>= use) form :=
  obeys_still quiet_remaining (fun _ _ _ same => same.2) later

theorem obeys_current {use : Token → Parser σ Sink α} (later : ∀ token, Obeys (use token) form) :
    Obeys (current >>= use) form :=
  obeys_still quiet_current (fun _ _ _ same => same.1) later

/-- A parser that takes a token or none is followed by what is done with the one or the other. -/
theorem obeys_taking {takes : Parser σ Sink (Option Token)} {fits : Token → Prop}
    {rest : Option Token → Parser σ Sink β}
    (quiet : ∀ before, Quiet takes before fun found after =>
      match found with
      | some token => fits token ∧ before = token :: after
      | none => after = before)
    (taken : ∀ token, fits token → Obeys (rest (some token)) fun more => form (token :: more))
    (missed : Obeys (rest none) form) : Obeys (takes >>= rest) form := by
  refine fun before => (quiet before).yields.bind fun found middle shown => ?_
  cases found with
  | none =>
      obtain rfl := shown
      exact missed middle
  | some token =>
      obtain ⟨fit, rfl⟩ := shown
      refine (taken token fit middle).mono ?_
      rintro value after ⟨more, rfl, formed⟩
      exact ⟨token :: more, rfl, formed⟩

/-- A wanted token is taken in front of what the rest takes. -/
theorem obeys_eatWhere {wanted : Token → Bool} {rest : Option Token → Parser σ Sink β}
    (taken : ∀ token, wanted token →
      Obeys (rest (some token)) fun more => form (token :: more))
    (missed : Obeys (rest none) form) : Obeys (eatWhere wanted >>= rest) form := by
  refine obeys_taking (fun before => (quiet_eatWhere wanted before).mono fun found _ shown => ?_)
    taken missed
  cases found with
  | none => exact shown.1
  | some token => exact shown.2

/-- The token that is taken has the kind. -/
theorem obeys_eat {kind : TokenKind} {rest : Option Token → Parser σ Sink β}
    (taken : ∀ token, token.kind = kind →
      Obeys (rest (some token)) fun more => form (token :: more))
    (missed : Obeys (rest none) form) : Obeys (eat kind >>= rest) form :=
  obeys_eatWhere (fun token fits => taken token (of_decide_eq_true fits)) missed

theorem obeys_eatOneOf {operators : List Operator} {rest : Option Token → Parser σ Sink β}
    (taken : ∀ token sign, token.kind = .operator sign → sign ∈ operators →
      Obeys (rest (some token)) fun more => form (token :: more))
    (missed : Obeys (rest none) form) : Obeys (eatOneOf operators >>= rest) form := by
  refine obeys_eatWhere (fun token fits => ?_) missed
  obtain ⟨sign, member, kind⟩ := List.any_eq_true.1 fits
  exact taken token sign (of_decide_eq_true kind) member

/-- Without a report the bracket was there. -/
theorem obeys_expectBracket (bracket : Bracket) :
    Obeys (expectBracket bracket : Parser σ Sink Token) fun taken =>
      ∃ token, token.kind = .bracket bracket ∧ taken = [token] := by
  refine obeys_eat (fun token kind => obeys_pure ⟨token, kind, rfl⟩) ?_
  exact obeys_current fun found => obeys_report _ _ _

/-- The meaning of an operator takes no token. -/
theorem obeys_operation (fixity : Fixity) (token : Token) :
    Obeys (operation fixity token : Parser σ Sink Operation) (· = []) := by
  unfold operation
  cases token.operation? fixity with
  | some meaning => exact obeys_pure rfl
  | none => exact obeys_report _ _ _

/-- An optional part stands behind its mark. -/
theorem obeys_optional {kind : TokenKind} {item : Parser σ Sink α} (obeys : Obeys item form) :
    Obeys (optional kind item) fun taken =>
      taken = [] ∨ ∃ token inside, token.kind = kind ∧ form inside ∧ taken = token :: inside := by
  refine obeys_eat (fun token same => ?_) (obeys_pure (.inl rfl))
  exact obeys.bind fun value inside formed =>
    obeys_pure (.inr ⟨token, inside, same, formed, by rw [List.append_nil]⟩)

end Obeys

section Items

variable {item : Parser σ Sink α} {part : Nonterminal}

/-- Items without commas follow one another. -/
theorem obeys_itemsWithin (obeys : Obeys item (Derives part)) (close : Bracket) (bound : Nat) :
    Obeys (itemsWithin close item bound) (Derives (.many part)) := by
  induction bound with
  | zero => exact obeys_pure .none
  | succ bound inductionHypothesis =>
      refine obeys_still (quiet_beforeClose close) (fun _ _ _ same => same.1) fun more => ?_
      cases more with
      | false => exact obeys_pure .none
      | true =>
          refine obeys.bind fun first taken derives => ?_
          refine inductionHypothesis.bind fun others more derivesMore => obeys_pure ?_
          rw [List.append_nil]
          exact .more derives derivesMore

/-- Items of a part are many of this part. -/
theorem obeys_items (obeys : Obeys item (Derives part)) (close : Bracket) :
    Obeys (items close item) (Derives (.many part)) :=
  obeys_remaining fun count => obeys_itemsWithin obeys close count

/-- Another item is ahead before the end and the closing bracket. -/
def Opens (close : Bracket) (tokens : List Token) : Prop :=
  kindAhead tokens ≠ .eof ∧ kindAhead tokens ≠ .bracket close

/-- No items are taken where no other one is ahead. -/
theorem yields_itemsWithin_nil {close : Bracket} {before : List Token}
    (stops : ¬Opens close before) (item : Parser σ Sink α) (bound : Nat) :
    Yields (itemsWithin close item bound) before fun _ after => after = before := by
  cases bound with
  | zero => exact yields_pure rfl
  | succ bound =>
      refine (quiet_beforeClose close before).yields.bind ?_
      rintro more _ ⟨rfl, opens⟩
      cases more with
      | false => exact yields_pure rfl
      | true => exact absurd (opens.1 rfl) stops

/-- A separator is a comma unless no other item is ahead. -/
theorem yields_separator (close : Bracket) (before : List Token) :
    Yields (separator close : Parser σ Sink Unit) before fun _ after =>
      (∃ comma, comma.kind = .symbol .comma ∧ before = comma :: after) ∨
        after = before ∧ ¬Opens close before := by
  refine (quiet_eat _ before).yields.bind fun found middle shown => ?_
  cases found with
  | some token =>
      obtain ⟨kind, rfl⟩ := shown
      exact yields_pure (.inl ⟨token, kind, rfl⟩)
  | none =>
      obtain ⟨rfl, -⟩ := shown
      refine (quiet_beforeClose close middle).yields.bind ?_
      rintro more _ ⟨rfl, opens⟩
      cases more with
      | true => exact (quiet_current _).yields.bind fun token _ _ => yields_report _ _ _
      | false => exact yields_pure (.inr ⟨rfl, fun both => absurd (opens.2 both) (by decide)⟩)

/-- Items with commas form a list. After an item without a comma no other one is taken. -/
theorem obeys_listItems (obeys : Obeys item (Derives part)) :
    Obeys (listItems item) (Derives (.list part)) := by
  let separated : Parser σ Sink α := do
    let value ← item
    separator .closeParen
    return value
  have each (before : List Token) : Yields separated before fun _ after =>
      ∃ inside, Derives part inside ∧
        ((∃ comma, comma.kind = .symbol .comma ∧ before = inside ++ comma :: after) ∨
          before = inside ++ after ∧ ¬Opens .closeParen after) := by
    refine (obeys before).bind ?_
    rintro value _ ⟨inside, rfl, derives⟩
    refine (yields_separator .closeParen _).bind ?_
    rintro _ after (⟨comma, kind, rfl⟩ | ⟨rfl, stops⟩)
    · exact yields_pure ⟨inside, derives, .inl ⟨comma, kind, rfl⟩⟩
    · exact yields_pure ⟨inside, derives, .inr ⟨rfl, stops⟩⟩
  refine obeys_remaining fun count => ?_
  induction count with
  | zero => exact obeys_pure .noItem
  | succ count inductionHypothesis =>
      intro before
      refine (quiet_beforeClose .closeParen before).yields.bind ?_
      rintro more _ ⟨rfl, -⟩
      cases more with
      | false => exact yields_pure ⟨[], rfl, .noItem⟩
      | true =>
          refine (each _).bind ?_
          rintro first middle ⟨inside, derives, ⟨comma, kind, rfl⟩ | ⟨rfl, stops⟩⟩
          · refine (inductionHypothesis middle).bind ?_
            rintro others after ⟨more, rfl, derivesMore⟩
            have derivesAll := Derives.moreItems derives kind derivesMore
            exact yields_pure ⟨inside ++ comma :: more, by simp, derivesAll⟩
          · refine (yields_itemsWithin_nil stops separated count).bind ?_
            rintro others _ rfl
            exact yields_pure ⟨inside, rfl, .lastItem derives⟩

end Items

section Expressions

variable [Observer σ] {inner operand : Parser σ Sink Expression} {rank : Nat}

/-- Without a report the name was there. -/
theorem obeys_identifier : Obeys (identifier : Parser σ Sink Identifier) fun taken =>
    ∃ name, name.kind = .identifier ∧ taken = [name] := by
  refine obeys_eat (fun token kind => obeys_make ⟨token, kind, rfl⟩) ?_
  intro before
  refine (quiet_advance before).yields.bind fun token middle _ => ?_
  exact (yields_report _ middle fun _ _ => False).bind fun _ _ none => none.elim

/-- Operands with operators of one level after a first one form an expression of the level. -/
theorem obeys_binaryWithin (low : rank < 8)
    (obeys : Obeys operand (Derives (.expression (rank + 1)))) (bound : Nat) (left : Expression)
    {front : List Token} (derives : Derives (.expression rank) front) :
    Obeys (binaryWithin (signs rank) operand bound left) fun taken =>
      Derives (.expression rank) (front ++ taken) := by
  -- The loop extends its expression to the left, so the induction carries the tokens in front.
  induction bound generalizing left front with
  | zero => exact obeys_pure (by rwa [List.append_nil])
  | succ bound inductionHypothesis =>
      refine obeys_eatOneOf (fun token sign kind member => ?_)
        (obeys_pure (by rwa [List.append_nil]))
      refine (obeys_operation _ token).bindSilent fun meaning => ?_
      refine obeys.bind fun right taken rightDerives => ?_
      refine (obeys_make rfl : Obeys _ (· = [])).bindSilent fun node => ?_
      rw [← Grammar.binarySigns_eq low] at member
      have whole : Derives (.expression rank) (front ++ token :: taken) :=
        .binary kind member derives rightDerives
      exact (inductionHypothesis node whole).mono fun more formed => by simpa using formed

/-- A chain of operators of a rank is derived from operands of the next one. -/
theorem obeys_binary (low : rank < 8)
    (obeys : Obeys operand (Derives (.expression (rank + 1)))) :
    Obeys (binary (signs rank) operand) (Derives (.expression rank)) :=
  obeys.bind fun left _ derives => obeys_remaining fun bound =>
    obeys_binaryWithin low obeys bound left (.tighter derives)

/-- By induction on the bound, signs stand before an operand. -/
theorem obeys_prefixedWithin (obeys : Obeys operand (Derives (.expression 9))) (bound : Nat) :
    Obeys (prefixedWithin operand bound) (Derives (.expression 8)) := by
  induction bound with
  | zero => exact obeys.mono fun _ derives => .tighter derives
  | succ bound inductionHypothesis =>
      refine obeys_eatOneOf (fun token sign kind member => ?_)
        (obeys.mono fun _ derives => .tighter derives)
      refine (obeys_operation _ token).bindSilent fun meaning => ?_
      refine inductionHypothesis.bind fun inner taken derives => obeys_make ?_
      rw [List.append_nil]
      exact .prefixed kind member derives

/-- A sign that completes an operand is taken behind it. -/
theorem obeys_postfixed (obeys : Obeys operand (Derives (.expression 10))) :
    Obeys (postfixed operand) (Derives (.expression 9)) := by
  refine obeys.bind fun value front derives before => ?_
  refine yields_cursor fun cursor ended stands => ?_
  rw [closesOperand_eq ended, stands]
  cases closes : closesAhead (before.map Token.kind) with
  | false => exact yields_pure ⟨[], rfl, by simpa using Derives.tighter derives⟩
  | true =>
      obtain ⟨sign, member, ahead, -⟩ := closesAhead_iff.1 closes
      refine (quiet_advance before).yields.bind ?_
      rintro token middle ⟨-, rfl⟩
      have kind : token.kind = .operator sign := ahead
      have silent : Obeys ((operation .after token : Parser σ Sink Operation) >>= fun meaning =>
          makeExpression (.postfixed value meaning token)) (· = []) :=
        (obeys_operation _ token).bindSilent fun meaning => obeys_make rfl
      refine (silent middle).mono ?_
      rintro _ after ⟨_, rfl, rfl⟩
      exact ⟨[token], rfl, .postfixed derives kind member⟩

/-- Arguments and properties after a first receiver form an expression of their level. -/
theorem obeys_callWithin (obeys : Obeys inner (Derives (.expression 0))) (bound : Nat)
    (receiver : Expression) {front : List Token} (derives : Derives (.expression 10) front) :
    Obeys (callWithin inner bound receiver) fun taken =>
      Derives (.expression 10) (front ++ taken) := by
  induction bound generalizing receiver front with
  | zero => exact obeys_pure (by rwa [List.append_nil])
  | succ bound inductionHypothesis =>
      refine obeys_eat (fun opening openingKind => ?_) ?_
      · refine (obeys_listItems obeys).bind fun arguments inside argumentsDerive => ?_
        refine (obeys_expectBracket _).bind ?_
        rintro close _ ⟨last, closeKind, rfl⟩
        refine (obeys_make rfl : Obeys _ (· = [])).bindSilent fun node => ?_
        have whole : Derives (.expression 10) (front ++ opening :: (inside ++ [last])) :=
          .call derives openingKind argumentsDerive closeKind
        exact (inductionHypothesis node whole).mono fun more formed => by simpa using formed
      · refine obeys_eat (fun dot dotKind => ?_) (obeys_pure (by rwa [List.append_nil]))
        refine obeys_identifier.bind ?_
        rintro name _ ⟨named, nameKind, rfl⟩
        refine (obeys_make rfl : Obeys _ (· = [])).bindSilent fun node => ?_
        have whole : Derives (.expression 10) (front ++ [dot, named]) :=
          .property derives dotKind nameKind
        exact (inductionHypothesis node whole).mono fun more formed => by simpa using formed

/-- A literal or a name is derived as an atom. -/
theorem obeys_literal : Obeys (literal : Parser σ Sink Expression) (Derives (.expression 11)) := by
  refine obeys_eat (fun token kind => ?_) (obeys_eat (fun token kind => ?_)
    (obeys_eat (fun token kind => ?_) ?_))
  · have value : Obeys (numberValue token : Parser σ Sink Binary64) (· = []) := by
      unfold numberValue
      cases Binary64.read? token.lexeme with
      | some value => exact obeys_pure rfl
      | none => exact obeys_report _ _ _
    exact value.bindSilent fun value => obeys_make (.literal kind)
  · exact obeys_make (.literal kind)
  · exact obeys_make (.literal kind)
  · refine obeys_identifier.bind ?_
    rintro name _ ⟨token, kind, rfl⟩
    exact obeys_pure (.identifier kind)

/-- A group is derived from the expression between its parentheses. -/
theorem obeys_primary (obeys : Obeys inner (Derives (.expression 0))) :
    Obeys (primary inner) (Derives (.expression 11)) := by
  refine obeys_eat (fun opening openingKind => ?_) obeys_literal
  refine obeys.bind fun content inside derives => ?_
  refine (obeys_expectBracket _).bind ?_
  rintro close _ ⟨last, closeKind, rfl⟩
  exact obeys_make (by simpa using .group openingKind derives closeKind)

theorem obeys_call (obeys : Obeys inner (Derives (.expression 0))) :
    Obeys (call inner) (Derives (.expression 10)) :=
  (obeys_primary obeys).bind fun receiver _ derives => obeys_remaining fun bound =>
    obeys_callWithin obeys bound receiver (.tighter derives)

omit [Observer σ] in
/-- Without a report the keyword was there. -/
theorem obeys_passKeyword (keyword : Keyword) (code : Code) :
    Obeys (passKeyword keyword code : Parser σ Sink Unit) fun taken =>
      ∃ token, token.kind = .keyword keyword ∧ taken = [token] := by
  refine obeys_eat (fun token kind => obeys_pure ⟨token, kind, rfl⟩) ?_
  exact obeys_current fun token before => yields_report _ _ _

/-- A conditional is derived from its three parts, and anything else from the tighter ranks. -/
theorem obeys_conditional (obeys : Obeys inner (Derives (.expression 0)))
    (tighter : Obeys (disjunction inner) (Derives (.expression 2))) :
    Obeys (conditional inner) (Derives (.expression 1)) := by
  refine obeys_eat (fun keyword kind => ?_) (tighter.mono fun _ derives => .tighter derives)
  refine obeys.bind fun condition conditionTaken conditionDerives => ?_
  refine (obeys_passKeyword _ _).bind ?_
  rintro _ _ ⟨thenWord, thenKind, rfl⟩
  refine obeys.bind fun consequent consequentTaken consequentDerives => ?_
  refine (obeys_passKeyword _ _).bind ?_
  rintro _ _ ⟨elseWord, elseKind, rfl⟩
  refine obeys.bind fun alternative alternativeTaken alternativeDerives => obeys_make ?_
  simpa using .conditional kind conditionDerives thenKind consequentDerives elseKind
    alternativeDerives

/-- The rule of each rank takes what the grammar derives from it. -/
theorem obeys_atRank (obeys : Obeys inner (Derives (.expression 0))) :
    ∀ rank ≤ 8, Obeys (atRank inner rank) (Derives (.expression rank)) := by
  intro rank loose
  induction loose using Nat.decreasingInduction with
  | self => exact obeys_remaining (obeys_prefixedWithin (obeys_postfixed (obeys_call obeys)))
  | of_succ rank below inductionHypothesis =>
      by_cases loops : rank = 1
      · subst loops
        exact obeys_conditional obeys inductionHypothesis
      · rw [atRank_binary inner below loops]
        exact obeys_binary below inductionHypothesis

/-- By induction on the bound, the expressions inside an expression are derived too. -/
theorem obeys_expression :
    Obeys (expression : Parser σ Sink Expression) (Derives (.expression 0)) := by
  refine obeys_remaining fun bound => ?_
  induction bound with
  | zero =>
      refine obeys_identifier.bind ?_
      rintro name _ ⟨token, kind, rfl⟩
      have leaf : Derives (.expression 11) [token] := .identifier kind
      exact obeys_pure (leaf.loosen (by decide))
  | succ bound inductionHypothesis => exact obeys_atRank inductionHypothesis 0 (by decide)

end Expressions

section Modules

variable [Observer σ]

/-- A type is derived from its colon and its name, or is missing. -/
theorem obeys_typeName :
    Obeys (typeName : Parser σ Sink (Option Identifier)) (Derives (.optional .typeName)) := by
  refine (obeys_optional obeys_identifier).mono ?_
  rintro taken (rfl | ⟨colon, _, colonKind, ⟨name, nameKind, rfl⟩, rfl⟩)
  · exact .absent
  · exact .present (.typeName colonKind nameKind)

/-- A value is derived from its sign and its expression, or is missing. -/
theorem obeys_assigned :
    Obeys (assigned : Parser σ Sink (Option Expression)) (Derives (.optional .initializer)) := by
  refine (obeys_optional obeys_expression).mono ?_
  rintro taken (rfl | ⟨equals, value, kind, derives, rfl⟩)
  · exact .absent
  · exact .present (.initializer kind derives)

/-- A binding is taken before what is done with it, which takes nothing. -/
theorem obeys_binding {use : Identifier → Option Identifier → Option Expression → Parser σ Sink α}
    (still : ∀ name type value, Obeys (use name type value) (· = [])) :
    Obeys (do
      let name ← identifier
      let type ← typeName
      let value ← assigned
      use name type value) (Derives .binding) := by
  refine obeys_identifier.bind ?_
  rintro name _ ⟨token, kind, rfl⟩
  refine obeys_typeName.bind fun type typeTaken typeDerives => ?_
  refine obeys_assigned.bind fun value valueTaken valueDerives => ?_
  refine (still name type value).mono ?_
  rintro _ rfl
  simpa using .binding kind typeDerives valueDerives

theorem obeys_variable (keyword : Token) :
    Obeys (binding keyword : Parser σ Sink Variable) (Derives .binding) :=
  obeys_binding fun _ _ _ => obeys_make rfl

/-- Without a report no token was put aside. -/
theorem obeys_statement : Obeys (statement : Parser σ Sink Statement) (Derives .statement) := by
  refine obeys_eat (fun keyword kind => ?_) (obeys_eat (fun keyword kind => ?_)
    (obeys_eatWhere (fun token _ => obeys_report _ _ _) ?_))
  · refine obeys_expression.bind fun value taken derives => obeys_make ?_
    rw [List.append_nil]
    exact .returned kind derives
  · refine (obeys_variable keyword).bind fun definition taken derives => obeys_pure ?_
    rw [List.append_nil]
    exact .defined (.definition kind derives)
  · refine obeys_expression.bind fun value taken derives => obeys_pure ?_
    rw [List.append_nil]
    exact .evaluated derives

/-- A block is taken from its opening bracket to its closing one. -/
theorem obeys_block : Obeys (block : Parser σ Sink Block) fun taken =>
    ∀ arrow : Token, arrow.kind = .symbol .arrow → Derives .body (arrow :: taken) := by
  refine (obeys_expectBracket _).bind ?_
  rintro opening _ ⟨first, openingKind, rfl⟩
  refine (obeys_items obeys_statement _).bind fun statements inside derives => ?_
  refine (obeys_expectBracket _).bind ?_
  rintro close _ ⟨last, closeKind, rfl⟩
  refine obeys_make fun arrow arrowKind => ?_
  simpa using .body arrowKind openingKind derives closeKind

theorem obeys_body :
    Obeys (optional (.symbol .arrow) block : Parser σ Sink (Option Block))
      (Derives (.optional .body)) := by
  refine (obeys_optional obeys_block).mono ?_
  rintro taken (rfl | ⟨arrow, inside, kind, derives, rfl⟩)
  · exact .absent
  · exact .present (derives arrow kind)

/-- Without a report the parameters stand between parentheses. -/
theorem obeys_parameterList : Obeys (parameterList : Parser σ Sink ParameterList) fun taken =>
    ∃ opening inside close, opening.kind = .bracket .openParen ∧ Derives (.list .binding) inside ∧
      close.kind = .bracket .closeParen ∧ taken = opening :: (inside ++ [close]) := by
  have each : Obeys (parameter : Parser σ Sink Parameter) (Derives .binding) :=
    obeys_binding fun _ _ _ => obeys_make rfl
  refine (obeys_expectBracket _).bind ?_
  rintro opening _ ⟨first, openingKind, rfl⟩
  refine (obeys_listItems each).bind fun parameters inside derives => ?_
  refine (obeys_expectBracket _).bind ?_
  rintro close _ ⟨last, closeKind, rfl⟩
  exact obeys_make ⟨first, inside, last, openingKind, derives, closeKind, by simp⟩

/-- A function is derived together with the keyword before it. -/
theorem obeys_function {keyword : Token} (kind : keyword.kind = .keyword .funcWord) :
    Obeys (function keyword : Parser σ Sink FunctionDeclaration) fun taken =>
      Derives .declaration (keyword :: taken) := by
  refine obeys_identifier.bind ?_
  rintro name _ ⟨token, nameKind, rfl⟩
  refine obeys_parameterList.bind ?_
  rintro parameters _ ⟨opening, inside, close, openingKind, derives, closeKind, rfl⟩
  refine obeys_typeName.bind fun result resultTaken resultDerives => ?_
  refine obeys_body.bind fun body bodyTaken bodyDerives => obeys_make ?_
  simpa using .function kind nameKind openingKind derives closeKind resultDerives bodyDerives

/-- Declarations follow one another up to the end. -/
theorem obeys_declarationsWithin (bound : Nat) :
    Obeys (declarationsWithin bound : Parser σ Sink (List Declaration)) (Derives .module) := by
  induction bound with
  | zero => exact obeys_pure .none
  | succ bound inductionHypothesis =>
      refine obeys_still quiet_hasNext (fun _ _ _ same => same.1) fun more => ?_
      cases more with
      | false => exact obeys_pure .none
      | true =>
          refine obeys_eat (fun keyword kind => ?_) (obeys_eat (fun keyword kind => ?_)
            (obeys_current fun token => obeys_report _ _ _))
          · refine (obeys_function kind).bind fun first taken derives => ?_
            refine inductionHypothesis.bind fun rest others derivesRest => obeys_pure ?_
            rw [List.append_nil]
            exact .more derives derivesRest
          · refine (obeys_variable keyword).bind fun first taken derives => ?_
            refine inductionHypothesis.bind fun rest others derivesRest => obeys_pure ?_
            rw [List.append_nil]
            exact .more (.declared (.definition kind derives)) derivesRest

theorem obeys_module : Obeys (module : Parser σ Sink Module) (Derives .module) := by
  refine obeys_current fun boundary => obeys_remaining fun count => ?_
  refine (obeys_declarationsWithin count).bind fun declarations taken derives => obeys_make ?_
  rwa [List.append_nil]

/-- Without a report the whole file is derived. -/
theorem obeys_root : Obeys (root : Parser σ Sink Root) (Derives .module) := by
  refine obeys_module.bind fun body taken derives => ?_
  refine obeys_still (quiet_note _) (fun _ _ _ same => same) fun _ before => ?_
  refine yields_cursor fun cursor _ _ => obeys_make ?_ before
  rwa [List.append_nil]

/-- The tokens of a file that is parsed without a report are derived from the grammar. -/
theorem yields_derivedRoot {body : List Token} (unmarked : ∀ token ∈ body, token.kind ≠ .eof) :
    Yields (root : Parser σ Sink Root) body fun _ _ => Derives .module body := by
  intro state next whole fails ends starts ran
  obtain ⟨⟨taken, same, derives⟩, kept⟩ := obeys_root body state next whole fails ends starts ran
  obtain ⟨⟨done, -⟩, -⟩ := yields_canonicalRoot unmarked state next whole fails ends starts ran
  rw [done, List.append_nil] at same
  exact ⟨same ▸ derives, kept⟩

end Modules

end Parser

end FrontEnd
