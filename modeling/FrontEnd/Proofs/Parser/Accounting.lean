/-
This file accounts for the tokens of a clean file. The tree of the file is spelled by all its
tokens but the trailing commas, and every literal in the tree has the value that its token spells.
-/

import FrontEnd.Proofs.Parser.RecoveringModules
import FrontEnd.Tree.Nodes

namespace FrontEnd

/-- What the pieces of a tree and the text of its tokens say about one of its nodes. A literal has
a piece for its token and the value that the token spells. -/
def Node.IsLiteralAmong (pieces : List Piece) : Node → Prop
  | .expression (.boolean token value) =>
      .stored token ∈ pieces ∧ value = decide (token.lexeme = "true")
  | .expression (.number token value) =>
      .stored token ∈ pieces ∧ Binary64.read? token.lexeme = some value
  | .expression (.string token value) =>
      .stored token ∈ pieces ∧ token.kind = .literal .string ∧
        value = Parser.stringContents token.lexeme
  | _ => True

theorem Node.IsLiteralAmong.mono {pieces pieces' : List Piece} {node : Node}
    (literal : node.IsLiteralAmong pieces) (subset : pieces ⊆ pieces') :
    node.IsLiteralAmong pieces' := by
  unfold IsLiteralAmong at literal ⊢
  split <;> first | exact ⟨subset literal.1, literal.2⟩ | trivial

/-- All literals among some nodes are spelled by some pieces. -/
def LiteralsAmong (pieces : List Piece) (nodes : List Leveled) : Prop :=
  ∀ entry ∈ nodes, entry.2.IsLiteralAmong pieces

/-- What is among some pieces is among more. -/
theorem LiteralsAmong.mono {pieces pieces' : List Piece} {nodes : List Leveled}
    (literals : LiteralsAmong pieces nodes) (subset : pieces ⊆ pieces') :
    LiteralsAmong pieces' nodes :=
  fun entry member => (literals entry member).mono subset

theorem literalsAmong_append {pieces : List Piece} {first second : List Leveled} :
    LiteralsAmong pieces (first ++ second) ↔
      LiteralsAmong pieces first ∧ LiteralsAmong pieces second :=
  List.forall_mem_append

theorem literalsAmong_cons {pieces : List Piece} {entry : Leveled} {nodes : List Leveled} :
    LiteralsAmong pieces (entry :: nodes) ↔
      entry.2.IsLiteralAmong pieces ∧ LiteralsAmong pieces nodes :=
  List.forall_mem_cons

theorem literalsAmong_flatMap {α : Type} {pieces : List Piece} {values : List α}
    {nodes : α → List Leveled} :
    LiteralsAmong pieces (values.flatMap nodes) ↔
      ∀ value ∈ values, LiteralsAmong pieces (nodes value) := by
  simp only [LiteralsAmong, List.mem_flatMap]
  constructor
  · exact fun all value member entry inside => all entry ⟨value, member, inside⟩
  · rintro all entry ⟨value, member, inside⟩
    exact all value member entry inside

/-- By induction, the literals of an expression are among its pieces. -/
theorem Expression.Canonical.literals {value : Expression} (canonical : value.Canonical)
    (depth : Nat) : LiteralsAmong value.pieces (value.nodes depth) := by
  induction canonical generalizing depth with
  | identifier kind => exact literalsAmong_cons.2 ⟨trivial, by simp [LiteralsAmong]⟩
  | boolean kind decoded => simpa [LiteralsAmong, nodes, Node.IsLiteralAmong, pieces] using decoded
  | number kind decoded => simpa [LiteralsAmong, nodes, Node.IsLiteralAmong, pieces] using decoded
  | string kind decoded =>
      simpa [LiteralsAmong, nodes, Node.IsLiteralAmong, pieces] using ⟨kind, decoded⟩
  | binary _ _ _ _ _ _ leftLiterals rightLiterals =>
      refine literalsAmong_cons.2 ⟨trivial, literalsAmong_append.2 ⟨?_, ?_⟩⟩
      · exact (leftLiterals _).mono (by simp [pieces])
      · exact (rightLiterals _).mono (by simp [pieces])
  | prefixed _ _ _ literals =>
      exact literalsAmong_cons.2 ⟨trivial, (literals _).mono (by simp [pieces])⟩
  | postfixed _ _ _ literals =>
      exact literalsAmong_cons.2 ⟨trivial, (literals _).mono (by simp [pieces])⟩
  | call _ _ _ _ receiverLiterals argumentLiterals =>
      rw [nodes, nodesOfAll_eq_flatMap]
      refine literalsAmong_cons.2 ⟨trivial, literalsAmong_append.2 ⟨?_, ?_⟩⟩
      · exact (receiverLiterals _).mono (by simp [pieces])
      · refine literalsAmong_flatMap.2 fun argument member => ?_
        apply (argumentLiterals argument member _).mono
        have inList := subset_commaSeparated Expression.pieces member
        intro piece inside
        rw [pieces, piecesOfAll_eq_map]
        simp [inList inside]
  | property _ _ _ literals =>
      refine literalsAmong_cons.2 ⟨trivial, literalsAmong_append.2 ⟨?_, ?_⟩⟩
      · exact (literals _).mono (by simp [pieces])
      · exact literalsAmong_cons.2 ⟨trivial, by simp [LiteralsAmong]⟩
  | group _ _ _ literals =>
      exact literalsAmong_cons.2 ⟨trivial, (literals _).mono (by simp [pieces])⟩
  | conditional _ _ _ _ conditionLiterals consequentLiterals alternativeLiterals =>
      refine literalsAmong_cons.2 ⟨trivial, literalsAmong_append.2
        ⟨literalsAmong_append.2 ⟨?_, ?_⟩, ?_⟩⟩
      · exact (conditionLiterals _).mono (by simp [pieces])
      · exact (consequentLiterals _).mono fun piece inside => by simp [pieces, inside]
      · exact (alternativeLiterals _).mono fun piece inside => by simp [pieces, inside]

/-- A name is no literal. -/
theorem Identifier.literals (name : Identifier) (pieces : List Piece) (depth : Nat) :
    LiteralsAmong pieces (name.nodes depth) :=
  literalsAmong_cons.2 ⟨trivial, by simp [LiteralsAmong]⟩

/-- The literals of a variable or a parameter are among its pieces. -/
theorem BindingCanonical.literals {name : Identifier} {type : Option Identifier}
    {value : Option Expression} (canonical : BindingCanonical name type value) (depth : Nat) :
    LiteralsAmong (piecesOfBinding name type value) (nodesOfBinding depth name type value) := by
  refine literalsAmong_append.2 ⟨literalsAmong_append.2 ⟨name.literals _ _, ?_⟩, ?_⟩
  · exact literalsAmong_flatMap.2 fun annotation _ => annotation.literals _ _
  · refine literalsAmong_flatMap.2 fun given member => ?_
    have same : value = some given := by simpa using member
    subst same
    exact ((canonical.assigned given rfl).literals depth).mono fun piece inside => by
      simp [piecesOfBinding, inside]

theorem Variable.Canonical.literals {definition : Variable} (canonical : definition.Canonical)
    (depth : Nat) : LiteralsAmong definition.pieces (definition.nodes depth) :=
  literalsAmong_cons.2 ⟨trivial, (canonical.2.literals _).mono (List.subset_cons_self _ _)⟩

/-- The literals of a statement are among its pieces. -/
theorem Statement.Canonical.literals {statement : Statement} (canonical : statement.Canonical)
    (depth : Nat) : LiteralsAmong statement.pieces (statement.nodes depth) := by
  cases statement with
  | expression value => exact Expression.Canonical.literals canonical depth
  | returned keyword value =>
      exact literalsAmong_cons.2
        ⟨trivial, (canonical.2.literals _).mono (List.subset_cons_self _ _)⟩
  | «variable» definition => exact Variable.Canonical.literals canonical depth
  | recovery token => exact canonical.elim

theorem Block.Canonical.literals {block : Block} (canonical : block.Canonical) (depth : Nat) :
    LiteralsAmong block.pieces (block.nodes depth) := by
  refine literalsAmong_cons.2 ⟨trivial, literalsAmong_flatMap.2 fun statement member => ?_⟩
  refine ((canonical.statements statement member).literals _).mono fun piece inside => ?_
  have inStatements := List.mem_flatMap.2 ⟨statement, member, inside⟩
  simp [Block.pieces, inStatements]

theorem ParameterList.Canonical.literals {list : ParameterList} (canonical : list.Canonical)
    (depth : Nat) : LiteralsAmong list.pieces (list.nodes depth) := by
  refine literalsAmong_cons.2 ⟨trivial, literalsAmong_flatMap.2 fun parameter member => ?_⟩
  have literals : LiteralsAmong parameter.pieces (parameter.nodes (depth + 1)) :=
    literalsAmong_cons.2 ⟨trivial, (canonical.parameters parameter member).literals _⟩
  refine literals.mono fun piece inside => ?_
  have inList := subset_commaSeparated Parameter.pieces member inside
  simp [ParameterList.pieces, inList]

/-- The literals of a function are among its pieces. -/
theorem FunctionDeclaration.Canonical.literals {declared : FunctionDeclaration}
    (canonical : declared.Canonical) (depth : Nat) :
    LiteralsAmong declared.pieces (declared.nodes depth) := by
  refine literalsAmong_cons.2 ⟨trivial, literalsAmong_append.2 ⟨literalsAmong_append.2
    ⟨literalsAmong_append.2 ⟨declared.name.literals _ _, ?_⟩, ?_⟩, ?_⟩⟩
  · refine (canonical.parameters.literals _).mono fun piece inside => ?_
    simp [FunctionDeclaration.pieces, inside]
  · exact literalsAmong_flatMap.2 fun annotation _ => annotation.literals _ _
  · refine literalsAmong_flatMap.2 fun body member => ?_
    have same : declared.body = some body := by simpa using member
    refine ((canonical.body body same).literals _).mono fun piece inside => ?_
    simp [FunctionDeclaration.pieces, same, inside]

theorem Declaration.Canonical.literals {declaration : Declaration}
    (canonical : declaration.Canonical) (depth : Nat) :
    LiteralsAmong declaration.pieces (declaration.nodes depth) := by
  cases declaration with
  | function declared => exact FunctionDeclaration.Canonical.literals canonical depth
  | «variable» definition => exact Variable.Canonical.literals canonical depth

theorem Module.Canonical.literals {module : Module} (canonical : module.Canonical) (depth : Nat) :
    LiteralsAmong module.pieces (module.nodes depth) := by
  refine literalsAmong_cons.2 ⟨trivial, literalsAmong_flatMap.2 fun declaration member => ?_⟩
  refine ((canonical.declarations declaration member).literals _).mono fun piece inside => ?_
  exact List.mem_flatMap.2 ⟨declaration, member, inside⟩

/-- The literals of a file are among its pieces. -/
theorem Root.Canonical.literals {root : Root} (canonical : root.Canonical) (depth : Nat) :
    LiteralsAmong root.pieces (root.nodes depth) := by
  obtain ⟨body, same, bodyCanonical⟩ := canonical
  refine literalsAmong_cons.2 ⟨trivial, ?_⟩
  rw [Root.pieces, same]
  simpa using bodyCanonical.literals (depth + 1)

namespace Parser

/-- A file that is parsed without a report is canonical, and its tokens span its tree. -/
theorem yields_canonicalRoot {σ : Type} [Observer σ] {body : List Token}
    (unmarked : ∀ token ∈ body, token.kind ≠ .eof) :
    Yields (root : Parser σ Sink Root) body fun whole after =>
      after = [] ∧ whole.Canonical ∧ Spans whole.pieces body after := by
  intro state next whole fails ended starts ran
  obtain ⟨declarations, between, ranDeclarations, rfl, cursor, sink⟩ := root_eq_ok ran
  rw [TokenCursor.remaining, starts] at ranDeclarations
  have gives := @gives_declarationsWithin σ Sink _ _ body.length body le_rfl
  obtain ⟨⟨inside, last, none, stops, made⟩, kept⟩ :=
    gives.yields state between declarations fails ended starts ranDeclarations
  obtain ⟨rfl, rfl⟩ := List.append_eq_nil_iff.1 none.symm
  have spans := made.spans rfl
  have done : between.cursor.rest = [] := by
    obtain ⟨kind, -⟩ := stops.resolve_right (by simp)
    obtain ⟨taken, same⟩ := spans.1
    cases left : between.cursor.rest with
    | nil => rfl
    | cons token rest =>
        rw [left] at kind same
        exact absurd kind (unmarked token (by simp [same]))
  have canonical := made.shaped (.inl rfl)
  have keptAll : Kept state next :=
    ⟨by rw [cursor, kept.tokens], by rw [cursor, kept.marker], sink.trans kept.sink⟩
  rw [cursor]
  refine ⟨⟨done, ⟨_, rfl, canonical, Declaration.sequenced canonical⟩, ?_⟩, keptAll⟩
  simpa [Root.pieces, Module.pieces] using spans

end Parser

/-- The contents of a quotation lie between its first and its last byte. -/
theorem IsQuotation.slice?_contents {chars contents : List Char}
    (quotation : IsQuotation chars contents) :
    Text.slice? 1 (Text.byteSize chars - 1) chars = some contents := by
  obtain ⟨quote, isQuote, -, rfl⟩ := isQuotation_iff.1 quotation
  have narrow := Lexer.utf8Size_of_isQuote isQuote
  have size : Text.byteSize [quote] = 1 := by rw [Text.byteSize_cons, narrow, Text.byteSize_nil]
  have total : Text.byteSize (quote :: (contents ++ [quote])) - 1 =
      Text.byteSize contents + 1 := by
    rw [Text.byteSize_cons, Text.byteSize_append, size, narrow]
    omega
  have opens : Text.splitBytes? 1 (quote :: (contents ++ [quote])) =
      some ([quote], contents ++ [quote]) := by
    rw [← size]
    exact Text.splitBytes?_append [quote] (contents ++ [quote])
  have closes := Text.splitBytes?_append contents [quote]
  rw [total]
  simp [Text.slice?, opens, closes]

/-- The value of a string is what stands between its quotes. -/
theorem Parser.stringContents_quotation {lexeme : String} {contents : List Char}
    (quotation : IsQuotation lexeme.toList contents) :
    stringContents lexeme = String.ofList contents := by
  unfold stringContents
  simp only [quotation.slice?_contents, Option.getD_some]

/-- Leaving commas out brings no token in. -/
theorem withoutTrailingCommas_subset (tokens : List Token) :
    withoutTrailingCommas tokens ⊆ tokens := by
  induction tokens with
  | nil => exact List.Subset.refl []
  | cons token rest inductionHypothesis =>
      rw [withoutTrailingCommas]
      split
      · exact fun kept member => List.mem_cons_of_mem _ (inductionHypothesis member)
      · exact List.cons_subset_cons _ inductionHypothesis

/-- A token that is stored in a piece is one of those that spell it. -/
theorem Spells.mem {pieces : List Piece} {tokens : List Token} (spelled : Spells pieces tokens)
    {token : Token} (member : .stored token ∈ pieces) : token ∈ tokens := by
  induction spelled with
  | nil => cases member
  | cons fits _ inductionHypothesis =>
      rcases List.mem_cons.1 member with rfl | later
      · obtain rfl := fits
        exact List.mem_cons_self
      · exact List.mem_cons_of_mem _ (inductionHypothesis later)

/-- Whether a literal has the value that its token spells. -/
def Node.DecodesToken : Node → Prop
  | .expression (.boolean token value) => value = decide (token.lexeme = "true")
  | .expression (.number token value) => Binary64.read? token.lexeme = some value
  | .expression (.string token value) => value.toList = token.lexeme.toList.tail.dropLast
  | _ => True

/-- A literal that well-spelled tokens spell has the value of its token. -/
theorem Node.IsLiteralAmong.decodesToken {pieces : List Piece} {node : Node}
    (literal : node.IsLiteralAmong pieces)
    (well : ∀ token, .stored token ∈ pieces → token.WellSpelled) : node.DecodesToken := by
  unfold IsLiteralAmong at literal
  split at literal
  · exact literal.2
  · exact literal.2
  · rename_i token value
    obtain ⟨stored, kind, decoded⟩ := literal
    have spelled := (well token stored).spelled
    rw [kind] at spelled
    obtain ⟨contents, quotation⟩ := spelled
    have contentsOf := Parser.stringContents_quotation quotation
    obtain ⟨quote, -, -, whole⟩ := quotation
    simp [DecodesToken, decoded, contentsOf, whole]
  · unfold DecodesToken
    split <;> first | trivial | simp_all

/-- A file that is parsed without a report accounts for all its tokens. The parse stops at the
marker, the tokens before it spell the tree when the trailing commas are dropped, none of them is
a placeholder, and every literal has the value of its token. -/
theorem Entry.parse_accounts {σ : Type} [Observer σ] {text : String} {tokens : List Token}
    {observed : σ} {root : Root} {state : Parser.State σ} (lexed : tokenize text = .ok tokens)
    (parsed : Entry.file.parse tokens .failFast observed = .ok (.root root) state) :
    ∃ body marker, tokens = body ++ [marker] ∧ marker.kind = .eof ∧
      state.position = body.length ∧ Spells root.pieces (withoutTrailingCommas body) ∧
      (∀ token ∈ tokens, token.error = false) ∧
      ∀ entry ∈ (Node.root root).nodes 0, entry.2.DecodesToken := by
  obtain ⟨body, stop, rfl, well⟩ := tokenize_wellSpelled lexed
  obtain ⟨made, between, ranRoot, finished⟩ := Parser.bind_eq_ok.1 parsed
  cases finished
  let start : Parser.State σ := Parser.State.start (body ++ [Token.eof stop]) .failFast observed
  have cursor : start.cursor = ⟨[], body, Token.eof stop⟩ := by
    simp [start, Parser.State.start, TokenCursor.ofTokens, Token.isEof, Token.eof]
  obtain ⟨⟨done, canonical, spans⟩, kept⟩ := Parser.yields_canonicalRoot
    (fun token member => (well token member).kind_ne_eof) start state root rfl (by rw [cursor]; rfl)
    (by rw [cursor]) ranRoot
  obtain ⟨-, spelling, spelled, same⟩ := spans
  rw [done, withoutTrailingCommas, List.append_nil] at same
  rw [← same] at spelled
  have moved := kept.position
  simp only [Parser.State.position, cursor, done, TokenCursor.position, List.length_nil] at moved
  have stored : ∀ token, .stored token ∈ root.pieces → token.WellSpelled := fun token member =>
    well token (withoutTrailingCommas_subset body (spelled.mem member))
  refine ⟨body, Token.eof stop, rfl, rfl, ?_, spelled, ?_, ?_⟩
  · simp only [Parser.State.position, TokenCursor.position]
    omega
  · refine List.forall_mem_append.2 ⟨fun token member => (well token member).genuine, ?_⟩
    simp [Token.eof]
  · exact fun entry member => (canonical.literals 0 entry member).decodesToken stored

/-- A call with a trailing comma is accounted for. -/
theorem Entry.parse_trailingComma :
    let tokens : List Token := [⟨0, .keyword .letWord, "let", false⟩, ⟨4, .identifier, "a", false⟩,
      ⟨6, .operator .equals, "=", false⟩, ⟨8, .identifier, "f", false⟩,
      ⟨9, .bracket .openParen, "(", false⟩, ⟨10, .literal .string, "'b'", false⟩,
      ⟨13, .symbol .comma, ",", false⟩, ⟨14, .bracket .closeParen, ")", false⟩, Token.eof 15]
    tokenize "let a = f('b',)" = .ok tokens ∧
      ∃ root state, Entry.file.parse tokens .failFast () = .ok (.root root) state ∧
        ∃ body marker, tokens = body ++ [marker] ∧ marker.kind = .eof ∧
          state.position = body.length ∧ Spells root.pieces (withoutTrailingCommas body) ∧
          (∀ token ∈ tokens, token.error = false) ∧
          ∀ entry ∈ (Node.root root).nodes 0, entry.2.DecodesToken := by
  intro tokens
  have lexed : tokenize "let a = f('b',)" = .ok tokens := by rfl
  have clean : (match Entry.file.parse tokens .failFast () with
      | .ok (.root _) _ => true
      | _ => false) = true := by decide +kernel
  split at clean
  · rename_i root state parsed
    exact ⟨lexed, root, state, parsed, Entry.parse_accounts lexed parsed⟩
  · cases clean

end FrontEnd
