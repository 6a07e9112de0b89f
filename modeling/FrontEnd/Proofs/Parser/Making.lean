/-
This file relates what a parse makes of some tokens to these tokens and to the reports on the way.
The placeholders that it makes and its reports go together one by one, and where only brackets are
missing it makes what a parse without reports would.
-/

import FrontEnd.Proofs.Parser.Recovering
import FrontEnd.Proofs.Tree.Text

namespace FrontEnd

/-- The tokens without the commas that stand directly before a closing parenthesis. -/
def withoutTrailingCommas : List Token → List Token
  | [] => []
  | token :: rest =>
      if token.kind = .symbol .comma ∧ kindAhead rest = .bracket .closeParen then
        withoutTrailingCommas rest
      else
        token :: withoutTrailingCommas rest

/-- Pieces span the tokens between two places when those tokens spell them, trailing commas
aside. -/
def Spans (pieces : List Piece) (before after : List Token) : Prop :=
  (∃ taken, before = taken ++ after) ∧
    ∃ kept, Spells pieces kept ∧
      withoutTrailingCommas before = kept ++ withoutTrailingCommas after

theorem Spans.refl (tokens : List Token) : Spans [] tokens tokens :=
  ⟨⟨[], rfl⟩, [], .nil, rfl⟩

/-- The tokens of two parts follow each other. -/
theorem Spans.append {first second : List Piece} {before middle after : List Token}
    (start : Spans first before middle) (finish : Spans second middle after) :
    Spans (first ++ second) before after := by
  obtain ⟨⟨taken, rfl⟩, kept, spelled, same⟩ := start
  obtain ⟨⟨taken', rfl⟩, kept', spelled', same'⟩ := finish
  refine ⟨⟨taken ++ taken', by rw [List.append_assoc]⟩, kept ++ kept',
    spells_append.2 ⟨kept, kept', spelled, spelled', rfl⟩, ?_⟩
  rw [same, same', List.append_assoc]

/-- A token that is no trailing comma spans the piece that it fits. -/
theorem Spans.token {piece : Piece} {token : Token} {rest : List Token} (fits : piece.Fits token)
    (keeps : token.kind = .symbol .comma → kindAhead rest ≠ .bracket .closeParen) :
    Spans [piece] (token :: rest) rest := by
  refine ⟨⟨[token], rfl⟩, [token], .cons fits .nil, ?_⟩
  rw [withoutTrailingCommas, if_neg fun trails => keeps trails.1 trails.2]
  rfl

/-- A comma before a closing parenthesis belongs to no piece. -/
theorem Spans.trailingComma {comma : Token} {rest : List Token}
    (kind : comma.kind = .symbol .comma) (closes : kindAhead rest = .bracket .closeParen) :
    Spans [] (comma :: rest) rest := by
  refine ⟨⟨[comma], rfl⟩, [], .nil, ?_⟩
  rw [withoutTrailingCommas, if_pos ⟨kind, closes⟩]
  rfl

/-- The codes of the reports that come with a placeholder. -/
def Code.leavesPlaceholder : Code → Bool
  | .expectedIdentifier | .unexpectedToken | .expectedParentheses | .expectedCurly => true
  | _ => false

/-- The codes of the reports on tokens that a tree does not store. -/
def Code.isOmission : Code → Bool
  | .expectedComma | .expectedThen | .expectedElse => true
  | _ => false

/-- Diagnostics account for the tokens in some places when the placeholders among these come with
the reports of their codes one by one, and the other reports are on tokens of no place. -/
structure Accounts (slots : List Slot) (added : List Diagnostic) : Prop where
  paired : placeholders slots = (added.filter (·.code.leavesPlaceholder)).map
    fun diagnostic => (some diagnostic.code, diagnostic.offset)
  omissions : ∀ diagnostic ∈ added,
    diagnostic.code.leavesPlaceholder ∨ diagnostic.code.isOmission

theorem Accounts.nil : Accounts [] [] := ⟨rfl, by simp⟩

/-- The placeholders of two parts follow each other as their reports do. -/
theorem Accounts.append {first second : List Slot} {added more : List Diagnostic}
    (start : Accounts first added) (finish : Accounts second more) :
    Accounts (first ++ second) (added ++ more) := by
  refine ⟨?_, List.forall_mem_append.2 ⟨start.omissions, finish.omissions⟩⟩
  rw [placeholders_append, List.filter_append, List.map_append, start.paired, finish.paired]

/-- A token that was written needs no report. -/
theorem Accounts.token {token : Token} (well : token.WellSpelled) (code : Option Code) :
    Accounts [⟨code, token⟩] [] :=
  ⟨by simp [placeholders, well.genuine], by simp⟩

/-- A placeholder has the report of its place. -/
theorem Accounts.placeholder {token : Token} {code : Code} (missing : token.error)
    (leaves : code.leavesPlaceholder) (length : Nat) :
    Accounts [⟨some code, token⟩] [⟨token.offset, length, code⟩] :=
  ⟨by simp [placeholders, missing, leaves], by simp [leaves]⟩

/-- A report on a token that is left out has no placeholder. -/
theorem Accounts.omission {diagnostic : Diagnostic} (omits : diagnostic.code.isOmission) :
    Accounts [] [diagnostic] := by
  have leavesNone : diagnostic.code.leavesPlaceholder = false := by
    cases code : diagnostic.code <;> first | rfl | simp [code, Code.isOmission] at omits
  exact ⟨by simp [placeholders, leavesNone], by simp [omits]⟩

/-- What was made can be trusted when there was no report, or when only brackets are missing among
written tokens. -/
def Sound (before : List Token) (slots : List Slot) (added : List Diagnostic) : Prop :=
  added = [] ∨ (Written before ∧ Repairable slots)

/-- The first part of sound places is sound. -/
theorem Sound.left {before : List Token} {first second : List Slot}
    {added more : List Diagnostic} (sound : Sound before (first ++ second) (added ++ more)) :
    Sound before first added :=
  sound.imp (fun none => (List.append_eq_nil_iff.1 none).1)
    fun ⟨written, repairable⟩ => ⟨written, (repairable_append.1 repairable).1⟩

/-- The second part of sound places is sound on what is left. -/
theorem Sound.right {before middle : List Token} {first second : List Slot}
    {added more : List Diagnostic} (sound : Sound before (first ++ second) (added ++ more))
    (suffix : middle <:+ before) : Sound middle second more :=
  sound.imp (fun none => (List.append_eq_nil_iff.1 none).2)
    fun ⟨written, repairable⟩ => ⟨written.suffix suffix, (repairable_append.1 repairable).2⟩

/-- What is made of the tokens between two places is accounted for by reports. When only brackets
are missing its pieces are well spelled, and when it can be trusted it has some shape. -/
structure Accounted (pieces : List Piece) (slots : List Slot) (shape : Prop)
    (before after : List Token) (added : List Diagnostic) : Prop where
  suffix : after <:+ before
  accounts : Written before → Accounts slots added
  well : Written before → Repairable slots → ∀ piece ∈ pieces, piece.WellSpelled
  shaped : Sound before slots added → shape

/-- Without reports, what is made is also spelled by the tokens that were taken. -/
structure Made (pieces : List Piece) (slots : List Slot) (shape : Prop)
    (before after : List Token) (added : List Diagnostic) : Prop
    extends Accounted pieces slots shape before after added where
  spans : added = [] → Spans pieces before after

section Made

variable {pieces pieces' : List Piece} {slots slots' : List Slot} {shape shape' : Prop}
  {before after last : List Token} {added more : List Diagnostic}

/-- No part gives tokens back. -/
theorem Accounted.length_le (accounted : Accounted pieces slots shape before after added) :
    after.length ≤ before.length :=
  accounted.suffix.length_le

theorem Accounted.mono (accounted : Accounted pieces slots shape before after added)
    (weaker : shape → shape') : Accounted pieces slots shape' before after added :=
  { accounted with shaped := fun sound => weaker (accounted.shaped sound) }

/-- Two parts that account for their tokens account for them together. -/
theorem Accounted.append (start : Accounted pieces slots shape before after added)
    (finish : Accounted pieces' slots' shape' after last more) :
    Accounted (pieces ++ pieces') (slots ++ slots') (shape ∧ shape') before last
      (added ++ more) := by
  refine ⟨finish.suffix.trans start.suffix, fun written => ?_, fun written repairable => ?_,
    fun sound => ?_⟩
  · exact (start.accounts written).append (finish.accounts (written.suffix start.suffix))
  · obtain ⟨first, second⟩ := repairable_append.1 repairable
    exact List.forall_mem_append.2
      ⟨start.well written first, finish.well (written.suffix start.suffix) second⟩
  · exact ⟨start.shaped sound.left, finish.shaped (sound.right start.suffix)⟩

theorem Made.mono (made : Made pieces slots shape before after added)
    (weaker : shape → shape') : Made pieces slots shape' before after added :=
  ⟨made.toAccounted.mono weaker, made.spans⟩

/-- Two parts that are made of their tokens are made of them together. -/
theorem Made.append (start : Made pieces slots shape before after added)
    (finish : Made pieces' slots' shape' after last more) :
    Made (pieces ++ pieces') (slots ++ slots') (shape ∧ shape') before last (added ++ more) := by
  refine ⟨start.toAccounted.append finish.toAccounted, fun none => ?_⟩
  obtain ⟨noneAdded, noMore⟩ := List.append_eq_nil_iff.1 none
  exact (start.spans noneAdded).append (finish.spans noMore)

/-- Nothing is made of no tokens. -/
theorem Made.nothing (tokens : List Token) : Made [] [] True tokens tokens [] :=
  ⟨⟨List.suffix_refl tokens, fun _ => .nil, by simp, fun _ => trivial⟩, fun _ => Spans.refl tokens⟩

/-- A token that is no comma is stored as it is. -/
theorem Made.token {token : Token} {kind : TokenKind} (same : token.kind = kind)
    (keeps : kind ≠ .symbol .comma) (code : Option Code) (rest : List Token) :
    Made [.stored token] [⟨code, token⟩] (token.kind = kind) (token :: rest) rest [] := by
  have first : Written (token :: rest) → token.WellSpelled := fun written =>
    written token List.mem_cons_self
  refine ⟨⟨List.suffix_cons token rest, fun written => .token (first written) code,
    fun written _ => List.forall_mem_singleton.2 (first written).spelled, fun _ => same⟩,
    fun _ => ?_⟩
  exact Spans.token rfl fun comma => absurd (same.symm.trans comma) keeps

/-- A token of a fixed kind is left out of the tree. -/
theorem Made.mark {token : Token} {kind : TokenKind} (same : token.kind = kind)
    (keeps : kind ≠ .symbol .comma) (rest : List Token) :
    Made [.mark kind] [] True (token :: rest) rest [] := by
  refine ⟨⟨List.suffix_cons token rest, fun _ => .nil,
    fun _ _ => List.forall_mem_singleton.2 trivial, fun _ => trivial⟩, fun _ => ?_⟩
  exact Spans.token same fun comma => absurd (same.symm.trans comma) keeps

/-- A token that is left out of the tree may also be reported as missing. -/
theorem Made.omission {diagnostic : Diagnostic} (omits : diagnostic.code.isOmission)
    (kind : TokenKind) (tokens : List Token) :
    Made [.mark kind] [] True tokens tokens [diagnostic] :=
  ⟨⟨List.suffix_refl tokens, fun _ => .omission omits,
    fun _ _ => List.forall_mem_singleton.2 trivial, fun _ => trivial⟩, by simp⟩

/-- A bracket that is missing is put in with its spelling. -/
theorem Made.bracket (bracket : Bracket) (found : Token) (tokens : List Token) :
    Made [.stored (.placeholder found.offset (.bracket bracket) bracket.spelling)]
      [⟨some (Parser.bracketCode bracket),
        .placeholder found.offset (.bracket bracket) bracket.spelling⟩]
      True tokens tokens [.atToken found (Parser.bracketCode bracket)] := by
  have leaves : (Parser.bracketCode bracket).leavesPlaceholder := by cases bracket <;> rfl
  exact ⟨⟨List.suffix_refl tokens, fun _ => .placeholder rfl leaves found.length,
    fun _ _ => List.forall_mem_singleton.2 rfl, fun _ => trivial⟩, by simp⟩

/-- A placeholder for a name or a statement stands for a token, and has no shape to be trusted. -/
theorem Made.unusable {token : Token} {code : Code} {rest : List Token}
    (unusable : code = .expectedIdentifier ∨ code = .unexpectedToken) (pieces : List Piece)
    (shape : Prop) :
    Made pieces [⟨some code, token.toPlaceholder⟩] shape (token :: rest) rest
      [.atToken token code] := by
  have lost : ¬Repairable [⟨some code, token.toPlaceholder⟩] := by
    intro repairable
    have slot := repairable _ List.mem_cons_self
    rcases unusable with rfl | rfl <;> simp [Slot.IsRepairable, Token.toPlaceholder] at slot
  have leaves : code.leavesPlaceholder := by rcases unusable with rfl | rfl <;> rfl
  exact ⟨⟨List.suffix_cons token rest, fun _ => .placeholder rfl leaves token.length,
    fun _ repairable => absurd repairable lost,
    fun sound => absurd (sound.resolve_left (by simp)).2 lost⟩, by simp⟩

end Made

namespace Parser

variable {σ ρ α β : Type} [Receiver ρ]

/-- A missing bracket leaves a placeholder that is spelled as the bracket. -/
theorem gives_expectBracket (bracket : Bracket) (before : List Token) :
    Gives (expectBracket bracket : Parser σ ρ Token) before fun token after added =>
      Made [.stored token] [⟨some (bracketCode bracket), token⟩] (token.kind = .bracket bracket)
          before after added ∧
        (added = [] → kindAhead before = .bracket bracket) := by
  apply (quiet_eat _ before).bind
  intro found middle
  cases found with
  | some token =>
      rintro ⟨kind, rfl⟩
      exact gives_pure ⟨.token kind (by simp) _ middle, fun _ => kind⟩
  | none =>
      rintro ⟨rfl, -⟩
      apply (quiet_current middle).bind
      rintro found after ⟨rfl, -⟩
      apply (gives_report _ after).bind
      rintro _ last _ ⟨rfl, rfl⟩
      apply (quiet_note _ last).bind
      rintro _ _ rfl
      exact gives_pure ⟨(Made.bracket bracket found _).mono fun _ => rfl, by simp⟩

/-- An item of a list stands before a comma, or before the end of the list. -/
def Separated (pieces : List Piece) (before after : List Token) : Prop :=
  ∃ middle, Spans pieces before middle ∧
    ((∃ comma, comma.kind = .symbol .comma ∧ middle = comma :: after) ∨
      (after = middle ∧ (kindAhead middle = .eof ∨ kindAhead middle = .bracket .closeParen)))

/-- Values stand one after the other when each of them links two places, and their diagnostics
too. -/
inductive Trail (link : List Token → α → List Token → List Diagnostic → Prop) :
    List Token → List α → List Token → List Diagnostic → Prop
  | nil (before : List Token) : Trail link before [] before []
  | cons {before middle after : List Token} {value : α} {values : List α}
      {added more : List Diagnostic} (first : link before value middle added)
      (others : Trail link middle values after more) :
      Trail link before (value :: values) after (added ++ more)

section Trails

variable {link : List Token → α → List Token → List Diagnostic → Prop}
  {before after : List Token} {values : List α} {added : List Diagnostic}

/-- Links that say less are links too. -/
theorem Trail.mono {link' : List Token → α → List Token → List Diagnostic → Prop}
    (trail : Trail link before values after added)
    (weaker : ∀ before value after added, link before value after added →
      link' before value after added) :
    Trail link' before values after added := by
  induction trail with
  | nil before => exact .nil before
  | cons first _ inductionHypothesis => exact .cons (weaker _ _ _ _ first) inductionHypothesis

/-- Without diagnostics, separated items are spelled with commas between them, and one after them at
most. -/
theorem Trail.spans {pieces : α → List Piece} {before after : List Token} {values : List α}
    (trail : Trail (fun before value after added =>
      (kindAhead before ≠ .eof ∧ kindAhead before ≠ .bracket .closeParen) ∧
        (added = [] → Separated (pieces value) before after)) before values after added)
    (none : added = []) (closes : kindAhead after = .bracket .closeParen) :
    Spans (commaSeparated (values.map pieces)) before after := by
  induction trail with
  | nil before => exact Spans.refl before
  | cons first others inductionHypothesis =>
      obtain ⟨noneFirst, noneOthers⟩ := List.append_eq_nil_iff.1 none
      obtain ⟨middle, spans, separated⟩ := first.2 noneFirst
      have rest := inductionHypothesis noneOthers closes
      cases others with
      | nil before =>
          rw [List.map_cons, List.map_nil, commaSeparated_singleton]
          rcases separated with ⟨comma, kind, rfl⟩ | ⟨rfl, -⟩
          · simpa using spans.append (Spans.trailingComma kind closes)
          · exact spans
      | cons second others =>
          obtain ⟨⟨notEnd, notClose⟩, -⟩ := second
          rw [List.map_cons, List.map_cons, commaSeparated_cons_cons]
          rcases separated with ⟨comma, kind, rfl⟩ | ⟨rfl, ended | closed⟩
          · have fits : (Piece.mark (.symbol .comma)).Fits comma := kind
            exact spans.append ((Spans.token fits fun _ => notClose).append rest)
          · exact absurd ended notEnd
          · exact absurd closed notClose

/-- By induction on the trail, its values account for the tokens one after the other. -/
theorem Trail.accounted {pieces : α → List Piece} {slots : α → List Slot} {shape : α → Prop}
    (trail : Trail (fun before value after added =>
      Accounted (pieces value) (slots value) (shape value) before after added)
      before values after added) :
    Accounted (values.flatMap pieces) (values.flatMap slots) (∀ value ∈ values, shape value)
      before after added := by
  induction trail with
  | nil before => exact (Made.nothing before).toAccounted.mono (by simp)
  | cons first _ inductionHypothesis =>
      exact (first.append inductionHypothesis).mono List.forall_mem_cons.2

/-- The items up to a closing bracket stand one after the other. -/
theorem gives_itemsWithin {close : Bracket} {item : Parser σ ρ α} {bound : Nat}
    (givesItem : ∀ before, before.length ≤ bound → Gives item before (link before))
    (shorter : ∀ before value after added, link before value after added →
      after.length < before.length)
    (count : Nat) (before : List Token) (counted : before.length ≤ count)
    (within : before.length ≤ bound) :
    Gives (itemsWithin close item count) before fun values after added =>
      Trail (fun before value after added =>
          (kindAhead before ≠ .eof ∧ kindAhead before ≠ .bracket close) ∧
            link before value after added) before values after added ∧
        (kindAhead after = .eof ∨ kindAhead after = .bracket close) := by
  induction count generalizing before with
  | zero =>
      obtain rfl := List.eq_nil_of_length_eq_zero (Nat.le_zero.1 counted)
      exact gives_pure ⟨.nil [], .inl rfl⟩
  | succ count inductionHypothesis =>
      apply (quiet_beforeClose close before).bind
      rintro more after ⟨rfl, shows⟩
      cases more with
      | false =>
          refine gives_pure ⟨.nil after, ?_⟩
          by_contra neither
          exact absurd (shows.2 (not_or.1 neither)) (by simp)
      | true =>
          have opens := shows.1 rfl
          apply (givesItem after within).bind
          intro first middle added linked
          have less := shorter after first middle added linked
          apply (inductionHypothesis middle (by omega) (by omega)).map
          rintro rest last more ⟨trail, stops⟩
          exact ⟨.cons ⟨opens, linked⟩ trail, stops⟩

theorem gives_items {close : Bracket} {item : Parser σ ρ α} {bound : Nat}
    (givesItem : ∀ before, before.length ≤ bound → Gives item before (link before))
    (shorter : ∀ before value after added, link before value after added →
      after.length < before.length)
    (before : List Token) (within : before.length ≤ bound) :
    Gives (items close item) before fun values after added =>
      Trail (fun before value after added =>
          (kindAhead before ≠ .eof ∧ kindAhead before ≠ .bracket close) ∧
            link before value after added) before values after added ∧
        (kindAhead after = .eof ∨ kindAhead after = .bracket close) := by
  apply (quiet_remaining before).bind
  rintro count middle ⟨rfl, rfl⟩
  exact gives_itemsWithin givesItem shorter _ middle le_rfl within

end Trails

/-- After an item of a list stands a comma, the end of the list, or a report. -/
theorem gives_separator (before : List Token) :
    Gives (separator .closeParen : Parser σ ρ Unit) before fun _ after added =>
      Accounted [] [] True before after added ∧
        (added = [] → (∃ comma, comma.kind = .symbol .comma ∧ before = comma :: after) ∨
          (after = before ∧ (kindAhead before = .eof ∨
            kindAhead before = .bracket .closeParen))) := by
  apply (quiet_eat _ before).bind
  intro found middle
  cases found with
  | some comma =>
      rintro ⟨kind, rfl⟩
      exact gives_pure ⟨⟨List.suffix_cons comma middle, fun _ => .nil, by simp,
        fun _ => trivial⟩, fun _ => .inl ⟨comma, kind, rfl⟩⟩
  | none =>
      rintro ⟨rfl, -⟩
      apply (quiet_beforeClose .closeParen middle).bind
      rintro more after ⟨rfl, shows⟩
      cases more with
      | false =>
          refine gives_pure ⟨(Made.nothing after).toAccounted, fun _ => .inr ⟨rfl, ?_⟩⟩
          by_contra neither
          exact absurd (shows.2 (not_or.1 neither)) (by simp)
      | true =>
          apply (quiet_current after).bind
          rintro token _ ⟨rfl, -⟩
          apply (gives_report _ _).mono
          rintro _ _ _ ⟨rfl, rfl⟩
          exact ⟨⟨List.suffix_refl _, fun _ => .omission rfl, by simp, fun _ => trivial⟩, by simp⟩

/-- The items of a list with the parenthesis that closes it are made of their tokens. -/
theorem gives_closedList {item : Parser σ ρ α} {rest : List α → Token → Parser σ ρ β} {bound : Nat}
    {pieces : α → List Piece} {slots : α → List Slot} {shape : α → Prop}
    {condition : β → List Token → List Diagnostic → Prop}
    (givesItem : ∀ before, before.length ≤ bound → Gives item before fun value after added =>
      Made (pieces value) (slots value) (shape value) before after added ∧
        after.length < before.length)
    (before : List Token) (within : before.length ≤ bound)
    (givesRest : ∀ values close after added,
      Made (commaSeparated (values.map pieces) ++ [.stored close])
        (values.flatMap slots ++ [⟨some .expectedParentheses, close⟩])
        ((∀ value ∈ values, shape value) ∧ close.kind = .bracket .closeParen)
        before after added →
      Gives (rest values close) after fun value last more => condition value last (added ++ more)) :
    Gives (do
      let values ← listItems item
      let close ← expectBracket .closeParen
      rest values close) before condition := by
  let link (before : List Token) (value : α) (after : List Token) (added : List Diagnostic) :=
    Accounted (pieces value) (slots value) (shape value) before after added ∧
      (added = [] → Separated (pieces value) before after) ∧ after.length < before.length
  have givesBoth : ∀ before, before.length ≤ bound → Gives (do
      let value ← item
      separator .closeParen
      return value) before (link before) := by
    intro before within
    apply (givesItem before within).bind
    rintro value middle added ⟨made, less⟩
    refine Gives.bind (gives_separator middle) ?_
    rintro _ after more ⟨separates, separated⟩
    refine gives_pure ?_
    rw [List.append_nil]
    have below := separates.length_le
    have accounted := (made.toAccounted.append separates).mono And.left
    rw [List.append_nil, List.append_nil] at accounted
    refine ⟨accounted, fun none => ?_, by omega⟩
    obtain ⟨noneAdded, noMore⟩ := List.append_eq_nil_iff.1 none
    exact ⟨middle, made.spans noneAdded, separated noMore⟩
  refine (gives_items givesBoth (fun _ _ _ _ linked => linked.2.2) before within).bind ?_
  rintro values middle added ⟨trail, -⟩
  refine Gives.bind (gives_expectBracket .closeParen middle) ?_
  rintro close after more ⟨stops, closes⟩
  have flat : Accounted (values.flatMap pieces) (values.flatMap slots)
      (∀ value ∈ values, shape value) before middle added :=
    Trail.accounted (trail.mono fun _ _ _ _ linked => linked.2.1)
  have accounted : Accounted (commaSeparated (values.map pieces)) (values.flatMap slots)
      (∀ value ∈ values, shape value) before middle added := by
    refine { flat with well := fun written repairable => ?_ }
    exact forall_mem_commaSeparated trivial fun value member piece inside =>
      flat.well written repairable piece (List.mem_flatMap.2 ⟨value, member, inside⟩)
  have spans : added = [] → more = [] →
      Spans (commaSeparated (values.map pieces)) before middle := by
    intro none noMore
    have separated := trail.mono fun _ _ _ _ linked => And.intro linked.1 linked.2.2.1
    exact separated.spans none (closes noMore)
  have made : Made (commaSeparated (values.map pieces) ++ [.stored close])
      (values.flatMap slots ++ [⟨some .expectedParentheses, close⟩])
      ((∀ value ∈ values, shape value) ∧ close.kind = .bracket .closeParen)
      before after (added ++ more) := by
    refine ⟨accounted.append stops.toAccounted, fun none => ?_⟩
    obtain ⟨noneAdded, noMore⟩ := List.append_eq_nil_iff.1 none
    exact (spans noneAdded noMore).append (stops.spans noMore)
  exact (givesRest values close after (added ++ more) made).mono fun _ _ _ meets => by
    rwa [← List.append_assoc]

end Parser

end FrontEnd
