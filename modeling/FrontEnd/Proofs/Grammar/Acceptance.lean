/-
This file tells the derivable modules that are parsed without a report from those that are not. In a
tree no sign that completes an operand stands directly before an `if`, so a module with such a sign
is not parsed, and all others are.
-/

import FrontEnd.Proofs.Grammar.AcceptingModules
import FrontEnd.Proofs.Parser.Accounting

namespace FrontEnd

open Grammar (Derives Nonterminal)

/-- Signs are kept apart when the first kind and the others keep them apart. -/
theorem signsApart_cons {kind : TokenKind} {kinds : List TokenKind} :
    SignsApart (kind :: kinds) ↔
      (kind.isPostfixSign → kinds.headD .eof ≠ .keyword .ifWord) ∧ SignsApart kinds := by
  cases kinds with
  | nil => simp [SignsApart]
  | cons next later => exact List.isChain_cons_cons

namespace SignsApart

/-- A kind that is no such sign can stand before all others. -/
theorem cons {kind : TokenKind} {kinds : List TokenKind} (apart : SignsApart kinds)
    (free : kind.isPostfixSign = false) : SignsApart (kind :: kinds) :=
  signsApart_cons.2 ⟨by simp [free], apart⟩

/-- A trailing comma stands between no sign and an `if`. -/
theorem ofWithoutTrailingCommas {tokens : List Token}
    (apart : SignsApart ((withoutTrailingCommas tokens).map Token.kind)) :
    SignsApart (tokens.map Token.kind) := by
  induction tokens with
  | nil => exact apart
  | cons token rest inductionHypothesis =>
      rw [withoutTrailingCommas] at apart
      rw [List.map_cons]
      split at apart
      · rename_i trails
        rw [trails.1]
        exact (inductionHypothesis apart).cons rfl
      · rw [List.map_cons, signsApart_cons] at apart
        refine signsApart_cons.2 ⟨fun sign word => apart.1 sign ?_, inductionHypothesis apart.2⟩
        obtain ⟨next, later, rfl⟩ := exists_cons_of_kindAhead word (by simp)
        have kind : next.kind = .keyword .ifWord := word
        rw [withoutTrailingCommas, if_neg (by simp [kind])]
        exact kind

end SignsApart

/-- Items with commas between them keep signs apart when each of them does. -/
theorem signsApart_commaSeparated {α : Type} {pieces : α → List Piece} {items : List α}
    (each : ∀ item ∈ items, ∀ ahead, SignsApart ahead → ahead.headD .eof ≠ .keyword .ifWord →
      SignsApart ((pieces item).map Piece.kind ++ ahead))
    {ahead : List TokenKind} (apart : SignsApart ahead)
    (free : ahead.headD .eof ≠ .keyword .ifWord) :
    SignsApart ((commaSeparated (items.map pieces)).map Piece.kind ++ ahead) := by
  induction items with
  | nil => exact apart
  | cons first rest inductionHypothesis =>
      obtain ⟨firstApart, restApart⟩ := List.forall_mem_cons.1 each
      cases rest with
      | nil => simpa using firstApart ahead apart free
      | cons second later =>
          rw [List.map_cons, List.map_cons, commaSeparated_cons_cons, List.map_append,
            List.append_assoc]
          have comma : Piece.kind (.mark (.symbol .comma)) = .symbol .comma := rfl
          exact firstApart _ ((inductionHypothesis restApart).cons rfl) (by simp [comma])

/-- Items in a sequence keep signs apart when each does so before what it ends before. -/
theorem signsApart_sequenced {α : Type} {pieces : α → List Piece}
    {ends : α → List TokenKind → Prop} {ahead : List TokenKind} {values : List α}
    (each : ∀ value ∈ values, ∀ ahead, SignsApart ahead → ends value ahead →
      SignsApart ((pieces value).map Piece.kind ++ ahead))
    (sequenced : Sequenced pieces ends ahead values) (apart : SignsApart ahead) :
    SignsApart ((values.flatMap pieces).map Piece.kind ++ ahead) := by
  induction values with
  | nil => exact apart
  | cons first rest inductionHypothesis =>
      obtain ⟨firstApart, restApart⟩ := List.forall_mem_cons.1 each
      obtain ⟨endsFirst, sequencedRest⟩ := sequenced
      rw [List.flatMap_cons, List.map_append, List.append_assoc]
      exact firstApart _ (inductionHypothesis restApart sequencedRest) endsFirst

/-- An operator between operands completes no operand. -/
theorem Token.notPostfix_of_between {token : Token} {operation : Operation}
    (meaning : token.operation? .between = some operation) : token.kind.isPostfixSign = false := by
  obtain ⟨sign, kind, meaning⟩ := Token.operation?_eq_some.1 meaning
  rw [kind]
  cases sign <;> first | rfl | simp [Operator.operation?] at meaning

/-- An expression that is not completed by a sign before an `if` keeps signs apart. -/
theorem Expression.Canonical.signsApart {value : Expression} (canonical : value.Canonical)
    {ahead : List TokenKind} (apart : SignsApart ahead)
    (closed : value.endsInPostfix → ahead.headD .eof ≠ .keyword .ifWord) :
    SignsApart (value.pieces.map Piece.kind ++ ahead) := by
  induction canonical generalizing ahead with
  | identifier kind | boolean kind _ | number kind _ | string kind _ =>
      simp only [pieces, Identifier.pieces, List.map_cons, List.map_nil, Piece.kind, kind]
      exact apart.cons rfl
  | binary meaning _ _ _ _ _ leftApart rightApart =>
      simp only [pieces, List.map_append, List.map_cons, List.append_assoc, List.cons_append]
      refine leftApart ((rightApart apart closed).cons (Token.notPostfix_of_between meaning)) ?_
      obtain ⟨sign, kind, -⟩ := Token.operation?_eq_some.1 meaning
      simp [Piece.kind, kind]
  | @prefixed operand operation token meaning operandCanonical operandRank operandApart =>
      refine signsApart_cons.2 ⟨fun _ => ?_, operandApart apart closed⟩
      obtain ⟨rest, starts⟩ := operand.pieces_eq_cons
      rw [starts]
      intro word
      have kind : operand.first.kind = .keyword .ifWord := word
      rcases operandCanonical.first_kind with primary | ⟨-, sign⟩ | ⟨loose, -⟩
      · simp [kind, TokenKind.beginsPrimary] at primary
      · simp [kind, TokenKind.isPrefixSign] at sign
      · omega
  | postfixed meaning _ operandRank operandApart =>
      simp only [pieces, List.map_append, List.map_cons, List.append_assoc, List.cons_append]
      refine operandApart (signsApart_cons.2 ⟨fun _ => closed rfl, apart⟩) fun _ => ?_
      obtain ⟨sign, kind, -⟩ := Token.operation?_eq_some.1 meaning
      simp [Piece.kind, kind]
  | call _ _ _ closeKind receiverApart argumentsApart =>
      simp only [pieces, piecesOfAll_eq_map, List.map_append, List.map_cons, List.map_nil,
        List.append_assoc, List.cons_append, List.nil_append, Piece.kind, closeKind]
      have arguments := signsApart_commaSeparated
        (fun argument member ahead apart free => argumentsApart argument member apart fun _ => free)
        (apart.cons rfl) (show TokenKind.bracket .closeParen ≠ .keyword .ifWord by decide)
      exact receiverApart (arguments.cons rfl) (by simp)
  | property _ _ kind receiverApart =>
      simp only [pieces, Identifier.pieces, List.map_append, List.map_cons, List.map_nil,
        List.append_assoc, List.cons_append, List.nil_append, Piece.kind, kind]
      exact receiverApart ((apart.cons rfl).cons rfl) (by simp)
  | group openingKind _ closeKind contentApart =>
      simp only [pieces, List.map_append, List.map_cons, List.map_nil, List.append_assoc,
        List.cons_append, List.nil_append, Piece.kind, openingKind, closeKind]
      exact (contentApart (apart.cons rfl) (by simp)).cons rfl
  | conditional kind _ _ _ conditionApart consequentApart alternativeApart =>
      simp only [pieces, List.map_append, List.map_cons, List.append_assoc, List.cons_append,
        Piece.kind, kind]
      refine SignsApart.cons ?_ rfl
      refine conditionApart (SignsApart.cons ?_ rfl) (by simp)
      refine consequentApart (SignsApart.cons ?_ rfl) (by simp)
      exact alternativeApart apart closed

/-- An expression that is completed by a sign does not end before an `if`. -/
theorem Expression.EndsBefore.noWord {rank : Nat} {value : Expression} {ahead : List TokenKind}
    (ends : value.EndsBefore rank ahead) (closed : value.endsInPostfix) :
    ahead.headD .eof ≠ .keyword .ifWord := by
  intro word
  have free := ends.closed closed
  rw [word] at free
  cases free

/-- In a variable or a parameter signs stand apart when they do in its value. -/
theorem BindingCanonical.signsApart {name : Identifier} {type : Option Identifier}
    {value : Option Expression} (canonical : BindingCanonical name type value)
    {ahead : List TokenKind} (apart : SignsApart ahead)
    (closed : ∀ given ∈ value, given.endsInPostfix → ahead.headD .eof ≠ .keyword .ifWord) :
    SignsApart ((piecesOfBinding name type value).map Piece.kind ++ ahead) := by
  have valued : SignsApart ((value.toList.flatMap fun value =>
      .mark (.operator .equals) :: value.pieces).map Piece.kind ++ ahead) := by
    cases value with
    | none => exact apart
    | some given =>
        simp only [Option.toList_some, List.flatMap_singleton, List.map_cons, List.cons_append]
        exact ((canonical.assigned given rfl).signsApart apart (closed given rfl)).cons rfl
  cases type with
  | none =>
      simp only [piecesOfBinding, Identifier.pieces, Option.toList_none, List.flatMap_nil,
        List.append_nil, List.map_cons, List.cons_append, List.nil_append, Piece.kind,
        canonical.named]
      exact valued.cons rfl
  | some annotation =>
      simp only [piecesOfBinding, Identifier.pieces, Option.toList_some, List.flatMap_singleton,
        List.map_cons, List.cons_append, List.nil_append, Piece.kind, canonical.named,
        canonical.typed annotation rfl]
      exact ((valued.cons rfl).cons rfl).cons rfl

theorem Variable.Canonical.signsApart {definition : Variable} (canonical : definition.Canonical)
    {ahead : List TokenKind} (apart : SignsApart ahead) (ends : definition.EndsBefore ahead) :
    SignsApart (definition.pieces.map Piece.kind ++ ahead) := by
  obtain ⟨kind, bindingCanonical⟩ := canonical
  simp only [pieces, List.map_cons, List.cons_append, Piece.kind, kind]
  have closed := fun given same => (ends.assigned given same).noWord
  exact (bindingCanonical.signsApart apart closed).cons rfl

/-- In a statement signs stand apart when they do in what follows. -/
theorem Statement.Canonical.signsApart {statement : Statement} (canonical : statement.Canonical)
    {ahead : List TokenKind} (apart : SignsApart ahead) (ends : statement.EndsBefore ahead) :
    SignsApart (statement.pieces.map Piece.kind ++ ahead) := by
  cases statement with
  | expression value => exact Expression.Canonical.signsApart canonical apart ends.noWord
  | returned keyword value =>
      obtain ⟨kind, valueCanonical⟩ := canonical
      simp only [pieces, List.map_cons, List.cons_append, Piece.kind, kind]
      exact (valueCanonical.signsApart apart ends.noWord).cons rfl
  | «variable» definition => exact Variable.Canonical.signsApart canonical apart ends
  | recovery token => exact canonical.elim

theorem Block.Canonical.signsApart {block : Block} (canonical : block.Canonical)
    {ahead : List TokenKind} (apart : SignsApart ahead) :
    SignsApart (block.pieces.map Piece.kind ++ ahead) := by
  have statements := signsApart_sequenced
    (fun statement member ahead apart => (canonical.statements statement member).signsApart apart)
    canonical.sequenced (List.isChain_singleton _)
  have close : SignsApart ([.bracket .closeCurly] ++ ahead) := apart.cons rfl
  have whole := List.IsChain.append_overlap statements close (by simp)
  simp only [pieces, List.map_append, List.map_cons, List.map_nil, List.cons_append, Piece.kind,
    canonical.opening, canonical.close]
  exact SignsApart.cons whole rfl

theorem ParameterList.Canonical.signsApart {list : ParameterList} (canonical : list.Canonical)
    {ahead : List TokenKind} (apart : SignsApart ahead) :
    SignsApart (list.pieces.map Piece.kind ++ ahead) := by
  have parameters := signsApart_commaSeparated
    (fun parameter member ahead apart free =>
      BindingCanonical.signsApart (canonical.parameters parameter member) apart fun _ _ _ => free)
    (apart.cons rfl) (show TokenKind.bracket .closeParen ≠ .keyword .ifWord by decide)
  simp only [pieces, List.map_append, List.map_cons, List.map_nil, List.append_assoc,
    List.cons_append, List.nil_append, Piece.kind, canonical.opening, canonical.close]
  exact parameters.cons rfl

/-- In a function signs stand apart when they do in what follows. -/
theorem FunctionDeclaration.Canonical.signsApart {declared : FunctionDeclaration}
    (canonical : declared.Canonical) {ahead : List TokenKind} (apart : SignsApart ahead) :
    SignsApart (declared.pieces.map Piece.kind ++ ahead) := by
  have body : SignsApart ((declared.body.toList.flatMap fun body =>
      .mark (.symbol .arrow) :: body.pieces).map Piece.kind ++ ahead) := by
    cases given : declared.body with
    | none => exact apart
    | some block =>
        simp only [Option.toList_some, List.flatMap_singleton, List.map_cons, List.cons_append]
        exact ((canonical.body block given).signsApart apart).cons rfl
  have result : SignsApart ((declared.result.toList.flatMap fun result =>
      .mark (.symbol .colon) :: result.pieces).map Piece.kind ++
        ((declared.body.toList.flatMap fun body =>
          .mark (.symbol .arrow) :: body.pieces).map Piece.kind ++ ahead)) := by
    cases given : declared.result with
    | none => exact body
    | some annotation =>
        simp only [Option.toList_some, List.flatMap_singleton, Identifier.pieces, List.map_cons,
          List.map_nil, List.cons_append, List.nil_append, Piece.kind,
          canonical.result annotation given]
        exact (body.cons rfl).cons rfl
  simp only [pieces, Identifier.pieces, List.map_append, List.map_cons, List.append_assoc,
    List.cons_append, List.nil_append, Piece.kind, canonical.keyword, canonical.name]
  exact ((canonical.parameters.signsApart result).cons rfl).cons rfl

theorem Declaration.Canonical.signsApart {declaration : Declaration}
    (canonical : declaration.Canonical) {ahead : List TokenKind} (apart : SignsApart ahead)
    (ends : declaration.EndsBefore ahead) :
    SignsApart (declaration.pieces.map Piece.kind ++ ahead) := by
  cases declaration with
  | function declared => exact FunctionDeclaration.Canonical.signsApart canonical apart
  | «variable» definition => exact Variable.Canonical.signsApart canonical apart ends

/-- The tree of a module keeps signs apart. -/
theorem Module.Canonical.signsApart {body : Module} (canonical : body.Canonical) :
    SignsApart (body.pieces.map Piece.kind) := by
  have apart := signsApart_sequenced
    (fun declaration member ahead apart =>
      (canonical.declarations declaration member).signsApart apart)
    canonical.sequenced List.isChain_nil
  rwa [List.append_nil] at apart

/-- A module that the grammar derives is parsed without a report exactly when no sign of an
increment or a decrement stands directly before an `if`. -/
theorem Entry.parse_derivable {σ : Type} [Observer σ] {body : List Token} {marker : Token}
    (derives : Derives .module body) (written : Written body) (ended : marker.kind = .eof)
    (observed : σ) :
    (∃ node state, Entry.file.parse (body ++ [marker]) .failFast observed = .ok node state) ↔
      SignsApart (body.map Token.kind) := by
  constructor
  · rintro ⟨node, state, parsed⟩
    obtain ⟨root, between, ranRoot, -⟩ := Parser.bind_eq_ok.1 parsed
    let start : Parser.State σ := Parser.State.start (body ++ [marker]) .failFast observed
    have cursor : start.cursor = ⟨[], body, marker⟩ := TokenCursor.ofTokens_marked body ended
    obtain ⟨⟨done, ⟨module, same, canonical⟩, -, kept, spelled, whole⟩, -⟩ :=
      Parser.yields_canonicalRoot (fun token member => (written token member).kind_ne_eof) start
        between root rfl (by rw [cursor]; exact ended) (by rw [cursor]) ranRoot
    rw [done, withoutTrailingCommas, List.append_nil] at whole
    rw [Root.pieces, same, List.flatMap_singleton] at spelled
    apply SignsApart.ofWithoutTrailingCommas
    rw [whole, spelled.kinds]
    exact canonical.signsApart
  · intro apart
    have accepts :
        Parser.Accepts (Parser.declarationsWithin body.length : Parser σ Sink _) body _ :=
      Parser.accepts_declarationsWithin derives ⟨written, apart⟩ _ le_rfl
    obtain ⟨declarations, _, reads, -, rfl⟩ := accepts
    obtain ⟨boundary, state, parsed, -⟩ := Entry.parse_ofReads reads ended .failFast observed
    exact ⟨_, state, parsed⟩

/-- An increment is not parsed before a statement that begins with an `if`. -/
theorem Entry.parse_incrementBeforeIf :
    let body : List Token := [⟨0, .keyword .funcWord, "func", false⟩, ⟨5, .identifier, "f", false⟩,
      ⟨6, .bracket .openParen, "(", false⟩, ⟨7, .bracket .closeParen, ")", false⟩,
      ⟨9, .symbol .arrow, "->", false⟩, ⟨12, .bracket .openCurly, "\x7b", false⟩,
      ⟨14, .identifier, "a", false⟩, ⟨15, .operator .plusPlus, "++", false⟩,
      ⟨18, .keyword .ifWord, "if", false⟩, ⟨21, .identifier, "x", false⟩,
      ⟨23, .keyword .thenWord, "then", false⟩, ⟨28, .identifier, "y", false⟩,
      ⟨30, .keyword .elseWord, "else", false⟩, ⟨35, .identifier, "z", false⟩,
      ⟨37, .bracket .closeCurly, "\x7d", false⟩]
    tokenize "func f() -> \x7b a++ if x then y else z \x7d" = .ok (body ++ [Token.eof 38]) ∧
      Derives .module body ∧ Written body ∧
      ¬∃ node state, Entry.file.parse (body ++ [Token.eof 38]) .failFast () = .ok node state := by
  intro body
  have lexed : tokenize "func f() -> \x7b a++ if x then y else z \x7d" =
      .ok (body ++ [Token.eof 38]) := by rfl
  have written : Written body := by
    obtain ⟨taken, stop, same, well⟩ := tokenize_wellSpelled lexed
    obtain ⟨rfl, -⟩ := List.append_inj' same rfl
    exact well
  have name (offset : Nat) (lexeme : String) :
      Derives (.expression 11) [⟨offset, .identifier, lexeme, false⟩] := .identifier rfl
  have increment : Derives (.expression 9)
      ([⟨14, .identifier, "a", false⟩] ++ [⟨15, .operator .plusPlus, "++", false⟩]) :=
    .postfixed ((name 14 "a").loosen (by decide)) rfl (by decide)
  have conditional : Derives (.expression 1) (⟨18, .keyword .ifWord, "if", false⟩ ::
      ([⟨21, .identifier, "x", false⟩] ++ ⟨23, .keyword .thenWord, "then", false⟩ ::
        ([⟨28, .identifier, "y", false⟩] ++ ⟨30, .keyword .elseWord, "else", false⟩ ::
          [⟨35, .identifier, "z", false⟩]))) :=
    .conditional rfl ((name 21 "x").loosen (by decide)) rfl ((name 28 "y").loosen (by decide)) rfl
      ((name 35 "z").loosen (by decide))
  have statements := Derives.more (.evaluated (increment.loosen (by decide)))
    (.more (.evaluated (conditional.loosen (by decide))) .none)
  have block : Derives .body (⟨9, .symbol .arrow, "->", false⟩ ::
      ⟨12, .bracket .openCurly, "\x7b", false⟩ ::
        (_ ++ [⟨37, .bracket .closeCurly, "\x7d", false⟩])) := .body rfl rfl statements rfl
  have function : Derives .declaration (⟨0, .keyword .funcWord, "func", false⟩ ::
      ⟨5, .identifier, "f", false⟩ :: ⟨6, .bracket .openParen, "(", false⟩ ::
        ([] ++ ⟨7, .bracket .closeParen, ")", false⟩ :: ([] ++ _))) :=
    .function rfl rfl rfl .noItem rfl .absent (.present block)
  have derives : Derives .module body := Derives.more function .none
  refine ⟨lexed, derives, written, fun parsed => ?_⟩
  have apart := (Entry.parse_derivable derives written rfl ()).1 parsed
  revert apart
  unfold SignsApart
  decide

end FrontEnd
