/-
This file gives the nodes of a parse their places in the text. The tokens of a tree stand in the
text in order, and so the spans of its nodes nest.
-/

import FrontEnd.Proofs.Parser.Filling
import FrontEnd.Proofs.Source
import FrontEnd.Proofs.Tree.Nesting

namespace FrontEnd

/-- A token does not end before it starts. -/
theorem Token.offset_le_stop (token : Token) : token.offset ≤ token.stop := by
  unfold stop
  split <;> omega

/-- A token stands between two boundaries of a text, and the text between them is its lexeme, or
nothing for a placeholder. -/
structure Token.StandsIn (token : Token) (chars : List Char) : Prop where
  starts : Text.isBoundary token.offset chars
  stops : Text.isBoundary token.stop chars
  sliced : Text.slice? token.offset token.stop chars =
    some (if token.error then [] else token.lexeme.toList)

/-- A token that lies in a text stands between two of its boundaries. -/
theorem Token.LiesIn.standsIn {token : Token} {chars : List Char} (lies : token.LiesIn chars) :
    token.StandsIn chars := by
  refine ⟨lies.starts, lies.stops, ?_⟩
  obtain ⟨before, after, rfl, size⟩ := lies.stands
  rw [lies.stop_eq, lies.genuine, if_neg (by decide), ← size, length, Text.slice?_append]

/-- A placeholder stands at any boundary. -/
theorem Token.standsIn_placeholder {offset : Nat} {chars : List Char}
    (boundary : Text.isBoundary offset chars) (kind : TokenKind) (lexeme : String) :
    (Token.placeholder offset kind lexeme).StandsIn chars :=
  ⟨boundary, boundary, Text.slice?_self boundary⟩

/-- Places are laid out in a text when their tokens stand in it one after the other. -/
structure LaidOut (slots : List Slot) (chars : List Char) : Prop where
  stands : ∀ slot ∈ slots, slot.token.StandsIn chars
  apart : slots.Pairwise fun earlier later => earlier.token.stop ≤ later.token.offset

namespace LaidOut

variable {slots some : List Slot} {chars : List Char} {token : Token}

/-- Some of the places that are laid out are laid out. -/
theorem sublist (laid : LaidOut slots chars) (part : some.Sublist slots) : LaidOut some chars :=
  ⟨fun slot member => laid.stands slot (part.subset member), laid.apart.sublist part⟩

/-- Nothing stands before the first token. -/
theorem first_le (laid : LaidOut slots chars) (begins : BeginsWith slots token) :
    ∀ slot ∈ slots, token.offset ≤ slot.token.offset := by
  obtain ⟨code, rest, rfl⟩ := begins
  have before := (List.pairwise_cons.1 laid.apart).1
  refine List.forall_mem_cons.2 ⟨le_rfl, fun slot member => ?_⟩
  exact token.offset_le_stop.trans (before slot member)

/-- Nothing stands behind the last token. -/
theorem le_last (laid : LaidOut slots chars) (ends : EndsWith slots token) :
    ∀ slot ∈ slots, slot.token.stop ≤ token.stop := by
  obtain ⟨code, front, rfl⟩ := ends
  have behind := (List.pairwise_append.1 laid.apart).2.2
  intro slot member
  rcases List.mem_append.1 member with inside | last
  · exact (behind slot inside _ (List.mem_singleton_self _)).trans token.offset_le_stop
  · rw [List.mem_singleton.1 last]

end LaidOut

/-- Places that are laid out between two offsets of a text. -/
structure LaidBetween (slots : List Slot) (chars : List Char) (start stop : Nat) : Prop extends
    LaidOut slots chars where
  bounds : ∀ slot ∈ slots, start ≤ slot.token.offset ∧ slot.token.stop ≤ stop

namespace LaidBetween

variable {slots : List Slot} {chars : List Char} {start middle stop : Nat}

theorem nil (chars : List Char) (start stop : Nat) : LaidBetween [] chars start stop :=
  ⟨⟨by simp, .nil⟩, by simp⟩

/-- Places that are laid out behind an offset are laid out behind any offset before it. -/
theorem mono (laid : LaidBetween slots chars middle stop) (before : start ≤ middle) :
    LaidBetween slots chars start stop :=
  ⟨laid.toLaidOut, fun slot member =>
    ⟨before.trans (laid.bounds slot member).1, (laid.bounds slot member).2⟩⟩

/-- Another place is put before the others. -/
theorem cons (laid : LaidBetween slots chars middle stop) {slot : Slot}
    (stands : slot.token.StandsIn chars) (starts : start ≤ slot.token.offset)
    (ends : slot.token.stop ≤ middle) (within : middle ≤ stop) :
    LaidBetween (slot :: slots) chars start stop := by
  have before : ∀ later ∈ slots, slot.token.stop ≤ later.token.offset :=
    fun later member => ends.trans (laid.bounds later member).1
  have offset := slot.token.offset_le_stop
  refine ⟨⟨List.forall_mem_cons.2 ⟨stands, laid.stands⟩, List.pairwise_cons.2 ⟨before, laid.apart⟩⟩,
    List.forall_mem_cons.2 ⟨⟨starts, by omega⟩, ?_⟩⟩
  exact (laid.mono (by omega)).bounds

/-- Another place is put behind the others. -/
theorem concat (laid : LaidBetween slots chars start middle) {slot : Slot}
    (stands : slot.token.StandsIn chars) (behind : middle ≤ slot.token.offset) :
    LaidOut (slots ++ [slot]) chars := by
  have single : ∀ other ∈ [slot], other = slot := fun _ => List.mem_singleton.1
  constructor
  · exact List.forall_mem_append.2 ⟨laid.stands, fun other member => single other member ▸ stands⟩
  · refine List.pairwise_append.2 ⟨laid.apart, List.pairwise_singleton _ _, ?_⟩
    intro earlier member later last
    rw [single later last]
    exact (laid.bounds earlier member).2.trans behind

end LaidBetween

theorem BeginsWith.mem {slots : List Slot} {token : Token} (begins : BeginsWith slots token) :
    ∃ slot ∈ slots, slot.token = token := by
  obtain ⟨code, rest, rfl⟩ := begins
  exact ⟨_, List.mem_cons_self, rfl⟩

theorem EndsWith.mem {slots : List Slot} {token : Token} (ends : EndsWith slots token) :
    ∃ slot ∈ slots, slot.token = token := by
  obtain ⟨code, front, rfl⟩ := ends
  exact ⟨_, List.mem_append_right _ List.mem_cons_self, rfl⟩

/-- The token of a node that is made of a single one. -/
def Node.leaf? : Node → Option Token
  | .expression (.identifier name) => some name.token
  | .expression (.boolean token _) | .expression (.number token _)
  | .expression (.string token _) => some token
  | .recovery token => some token
  | _ => none

/-- The span of a node is a piece of the text with the spans of its children inside, one after the
other. A diagnostic on the node covers the same piece. -/
structure Node.Spanned (node : Node) (source : Source) : Prop where
  ordered : node.first.offset ≤ node.last.stop
  starts : Text.isBoundary node.first.offset source.chars
  stops : Text.isBoundary node.last.stop source.chars
  within : node.last.stop ≤ source.length
  spans : ∃ span, node.span source = .ok span ∧ span.offset = node.first.offset ∧
    Text.slice? node.first.offset node.last.stop source.chars = some span.text.toList
  inside : ∀ child ∈ node.children,
    node.first.offset ≤ child.first.offset ∧ child.last.stop ≤ node.last.stop
  apart : node.children.Pairwise fun earlier later => earlier.last.stop ≤ later.first.offset
  leaf : ∀ token, node.leaf? = some token → ∃ span, node.span source = .ok span ∧
    span.text = if token.error then "" else token.lexeme
  reported : ∀ code, (node.diagnostic code).offset = node.first.offset ∧
    (node.diagnostic code).offset + (node.diagnostic code).length = node.last.stop ∧
      (node.diagnostic code).span source = node.span source

section Spans

variable {node : Node} {source : Source}

/-- The span of a node whose tokens are in order ends where the last of them does. -/
theorem Node.span_eq (ordered : node.first.offset ≤ node.last.stop) :
    node.span source = source.span node.first.offset node.last.stop := by
  rw [span, stop, max_eq_left ordered]

/-- Nodes whose places are laid out in a text hand this down to their children. -/
theorem Node.laidOut_child {chars : List Char} (laid : LaidOut node.extent chars) {child : Node}
    (member : child ∈ node.children) : LaidOut child.extent chars := by
  have part : child.extent.Sublist (node.children.flatMap Node.extent) := by
    obtain ⟨front, rest, children⟩ := List.append_of_mem member
    rw [children, List.flatMap_append, List.flatMap_cons]
    exact (List.sublist_append_left _ _).trans (List.sublist_append_right _ _)
  exact laid.sublist (part.trans node.children_extent)

/-- The tokens of a child stand among those of its parent. -/
theorem Node.inside_of_laidOut {chars : List Char} (laid : LaidOut node.extent chars) {child : Node}
    (member : child ∈ node.children) :
    node.first.offset ≤ child.first.offset ∧ child.last.stop ≤ node.last.stop := by
  have among : child.extent ⊆ node.extent := by
    intro slot inside
    exact node.children_extent.subset (List.mem_flatMap.2 ⟨child, member, inside⟩)
  obtain ⟨first, firstMember, firstIs⟩ := child.beginsWith.mem
  obtain ⟨last, lastMember, lastIs⟩ := child.endsWith.mem
  rw [← firstIs, ← lastIs]
  exact ⟨laid.first_le node.beginsWith first (among firstMember),
    laid.le_last node.endsWith last (among lastMember)⟩

/-- A child ends before the next one begins. -/
theorem Node.apart_of_laidOut {chars : List Char} (laid : LaidOut node.extent chars) :
    node.children.Pairwise fun earlier later => earlier.last.stop ≤ later.first.offset := by
  have apart := (List.pairwise_flatMap.1 (laid.apart.sublist node.children_extent)).2
  apply apart.imp
  intro earlier later between
  obtain ⟨last, lastMember, lastIs⟩ := earlier.endsWith.mem
  obtain ⟨first, firstMember, firstIs⟩ := later.beginsWith.mem
  rw [← lastIs, ← firstIs]
  exact between last lastMember first firstMember

/-- The token of a node that has just one is its first and its last. -/
theorem Node.leaf?_eq_some {token : Token} (leaf : node.leaf? = some token) :
    node.first = token ∧ node.last = token := by
  unfold Node.leaf? at leaf
  split at leaf
  all_goals first
    | cases leaf
      exact ⟨rfl, rfl⟩
    | cases leaf

/-- A node whose places are laid out spans them. -/
theorem Node.spanned_of_laidOut (laid : LaidOut node.extent source.chars) :
    node.Spanned source := by
  obtain ⟨first, firstMember, firstIs⟩ := node.beginsWith.mem
  obtain ⟨last, lastMember, lastIs⟩ := node.endsWith.mem
  have firstStands := laid.stands first firstMember
  have lastStands := laid.stands last lastMember
  rw [firstIs] at firstStands
  rw [lastIs] at lastStands
  have ordered : node.first.offset ≤ node.last.stop := by
    have bound := laid.le_last node.endsWith first firstMember
    rw [firstIs] at bound
    exact node.first.offset_le_stop.trans bound
  have within : node.last.stop ≤ source.length := Text.isBoundary_le lastStands.stops
  have spanEq : node.span source = source.span node.first.offset node.last.stop :=
    Node.span_eq ordered
  refine ⟨ordered, firstStands.starts, lastStands.stops, within, ?_,
    fun _ member => Node.inside_of_laidOut laid member, Node.apart_of_laidOut laid, ?_, ?_⟩
  · obtain ⟨middle, cut⟩ := Text.exists_slice firstStands.starts lastStands.stops ordered
    obtain ⟨location, spanned⟩ := Source.span_eq_ok cut within
    exact ⟨_, spanEq.trans spanned, rfl, by rw [cut, String.toList_ofList]⟩
  · intro token leaf
    obtain ⟨rfl, same⟩ := Node.leaf?_eq_some leaf
    have firstWithin : node.first.stop ≤ source.length := Text.isBoundary_le firstStands.stops
    obtain ⟨location, spanned⟩ := Source.span_eq_ok firstStands.sliced firstWithin
    rw [spanEq, same]
    refine ⟨_, spanned, ?_⟩
    cases node.first.error <;> simp
  · intro code
    have stops :
        (node.diagnostic code).offset + (node.diagnostic code).length = node.last.stop := by
      show node.first.offset + (max node.last.stop node.first.offset - node.first.offset) = _
      omega
    refine ⟨rfl, stops, ?_⟩
    rw [Diagnostic.span_eq (stops ▸ lastStands.stops), stops, spanEq]
    rfl

/-- All nodes of a tree have their spans when the tokens of the tree are laid out. -/
theorem Node.spanned_nodes (laid : LaidOut node.extent source.chars) (depth : Nat) :
    ∀ inner ∈ node.nodes depth, inner.2.Spanned source := by
  intro inner member
  have laidInner : LaidOut inner.2.extent source.chars :=
    Node.forall_nodes (motive := fun node => LaidOut node.extent source.chars)
      (fun _ laid _ => Node.laidOut_child laid) laid depth inner member
  exact Node.spanned_of_laidOut laidInner

end Spans

namespace TokenCursor

variable {cursor next last : TokenCursor} {chars : List Char} {slots : List Slot} {token : Token}

/-- No token of a text stands behind its marker. -/
theorem Reads.current_offset_le (reads : cursor.Reads chars) :
    cursor.current.offset ≤ cursor.marker.offset :=
  cursor.current.offset_le_stop.trans reads.current_stop_le

/-- A place for a taken token is put before the places that are filled behind it. -/
theorem Reads.take (reads : cursor.Reads chars) (stepped : cursor.step? = some (token, next))
    (laid : LaidBetween slots chars next.current.offset next.marker.offset) {slot : Slot}
    (stands : slot.token.StandsIn chars) (starts : slot.token.offset = token.offset)
    (ends : slot.token.stop ≤ token.stop) :
    LaidBetween (slot :: slots) chars cursor.current.offset cursor.marker.offset := by
  have within := (reads.step stepped).current_offset_le
  rw [marker_of_step? stepped] at laid within
  rw [current_of_step? stepped, ← starts]
  exact laid.cons stands le_rfl (ends.trans (reads.standsBefore stepped).2) within

/-- The places that are filled on the way of a cursor are laid out from the current token to the
marker. A placeholder for a token takes no room, and one for a missing token stands where the
current token begins. -/
theorem Fills.laidBetween (fills : cursor.Fills slots last) (reads : cursor.Reads chars) :
    LaidBetween slots chars cursor.current.offset cursor.marker.offset := by
  induction fills with
  | done => exact .nil _ _ _
  | leave stepped _ inductionHypothesis =>
      have later := inductionHypothesis (reads.step stepped)
      rw [marker_of_step? stepped] at later
      rw [current_of_step? stepped]
      exact later.mono (reads.standsBefore stepped).1.le
  | @store cursor _ _ _ _ code stepped _ inductionHypothesis =>
      have lies := reads.lies _ cursor.current_mem_ahead
      rw [current_of_step? stepped] at lies
      exact reads.take stepped (inductionHypothesis (reads.step stepped)) lies.standsIn rfl le_rfl
  | @spoil cursor _ _ token _ code stepped _ inductionHypothesis =>
      have lies := reads.lies _ cursor.current_mem_ahead
      rw [current_of_step? stepped] at lies
      exact reads.take stepped (inductionHypothesis (reads.step stepped))
        (Token.standsIn_placeholder lies.starts _ _) rfl token.offset_le_stop
  | @miss cursor _ _ code kind lexeme _ inductionHypothesis =>
      have lies := reads.lies _ cursor.current_mem_ahead
      exact (inductionHypothesis reads).cons (Token.standsIn_placeholder lies.starts kind lexeme)
        le_rfl le_rfl reads.current_offset_le

end TokenCursor

/-- A node that is filled between two cursors is laid out in the text. -/
theorem Node.FilledBetween.laidOut {node : Node} {cursor next : TokenCursor} {chars : List Char}
    (filled : node.FilledBetween cursor next) (reads : cursor.Reads chars)
    (marker : next.marker = cursor.marker) : LaidOut node.extent chars := by
  cases node with
  | root whole =>
      obtain ⟨declarations, rfl, fills⟩ := filled
      have laid := fills.laidBetween reads
      have stands :=
        (reads.lies cursor.marker (List.mem_append_right _ List.mem_cons_self)).standsIn
      rw [extent, List.flatMap_singleton, Module.extent, marker]
      split
      · have boundary := (reads.lies _ cursor.current_mem_ahead).standsIn
        have alone : LaidBetween [⟨none, cursor.current⟩] chars cursor.current.offset
            cursor.marker.offset :=
          (LaidBetween.nil _ _ _).cons boundary le_rfl reads.current_stop_le le_rfl
        exact alone.concat stands le_rfl
      · exact laid.concat stands le_rfl
  | module body =>
      have laid := (TokenCursor.Fills.laidBetween filled reads).toLaidOut
      exact laid.sublist body.extent_sublist
  | _ => exact (TokenCursor.Fills.laidBetween filled reads).toLaidOut

/-- The spans of a parsed text nest. Every node of every tree that an entry point gives covers a
piece of the text with its children inside, one after the other, and a node that is a single token
covers the lexeme of this token, or nothing for a placeholder. -/
theorem Entry.parse_spanned {σ ρ : Type} [Observer σ] [Receiver ρ] {entry : Entry} {source : Source}
    {tokens : List Token} {sink : ρ} {observed : σ} {node : Node} {state : Parser.State σ ρ}
    (lexed : tokenize source.text = .ok tokens)
    (parsed : entry.parse tokens sink observed = .ok node state) :
    ∀ inner ∈ node.nodes 0, inner.2.Spanned source := by
  have reads := TokenCursor.reads_ofTokens lexed
  have ends := entry.parse_ends tokens sink observed
  rw [parsed] at ends
  cases ends with
  | ok ran _ filled =>
      exact Node.spanned_nodes (filled.laidOut reads ran.reports.reaches.marker) 0

/-- A call without its closing parenthesis ends where the text does, and a brace in the place of an
argument covers nothing. -/
theorem Entry.parse_spanned_unclosed :
    let source : Source := ⟨"f('é' , \x7d", none⟩
    ∃ tokens node state, tokenize source.text = .ok tokens ∧
      Entry.statement.parse tokens .ignore () = .ok node state ∧
      (node.nodes 0).map (fun inner => (inner.2.first.offset, inner.2.last.stop)) =
        [(0, 10), (0, 1), (2, 6), (9, 9)] ∧
      ∀ inner ∈ node.nodes 0, inner.2.Spanned source := by
  intro source
  have ran : (match tokenize "f('é' , \x7d" with
      | .ok tokens =>
          match Entry.statement.parse tokens .ignore () with
          | .ok node _ => decide ((node.nodes 0).map (fun inner =>
              (inner.2.first.offset, inner.2.last.stop)) = [(0, 10), (0, 1), (2, 6), (9, 9)])
          | .error .. => false
      | .error _ => false) = true := by decide +kernel
  split at ran
  · rename_i tokens lexed
    split at ran
    · rename_i node state parsed
      exact ⟨tokens, node, state, lexed, parsed, of_decide_eq_true ran,
        Entry.parse_spanned lexed parsed⟩
    · cases ran
  · cases ran

end FrontEnd
