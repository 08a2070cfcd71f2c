import StaticReflection.Proofs.Parser.Arenas
import StaticReflection.Proofs.Parser.Steps
import StaticReflection.Proofs.Scanner.Tiling

namespace StaticReflection

open Parse

/-! What a parser has in hand: the places that it noted and the nodes that have no parent
yet, the newest first. Each production takes some of them away and leaves others. -/

inductive Held where
  /-- A place at or before the current token. -/
  | mark (pos : Nat)
  /-- A place before the end of the token consumed last. -/
  | begun (pos : Nat)
  | node (id : NodeId)
  /-- Something was reported, or a loop made no headway. -/
  | fault

abbrev Shelf := List Held

namespace Held

def start (arena : Arena) : Held → Nat
  | .mark pos | .begun pos => pos
  | .node id => (arena.spanOf id).start
  | .fault => 0

def Fits (s : ParseState) : Held → Prop
  | .mark pos => pos ≤ s.cursor.current.span.start
  | .begun pos => pos ≤ s.cursor.lastEnd
  | .node id => (s.arena.spanOf id).stop ≤ s.cursor.lastEnd
  | .fault => False

/-- Not the same node. -/
def Apart (one other : Held) : Prop :=
  ∀ id, one = .node id → other ≠ .node id

theorem Apart.of_mark (pos : Nat) (other : Held) : Apart (.mark pos) other := nofun

theorem Apart.mark (one : Held) (pos : Nat) : Apart one (.mark pos) := fun _ _ => nofun

end Held

/-- The shelf with some nodes put on it, the last of them on top. -/
def nodes (ids : List NodeId) (kept : Shelf) : Shelf :=
  ids.foldl (fun shelf id => .node id :: shelf) kept

@[simp] theorem nodes_nil (kept : Shelf) : nodes [] kept = kept := rfl

@[simp] theorem nodes_cons (id : NodeId) (ids : List NodeId) (kept : Shelf) :
    nodes (id :: ids) kept = nodes ids (.node id :: kept) := rfl

@[simp] theorem nodes_append (first second : List NodeId) (kept : Shelf) :
    nodes (first ++ second) kept = nodes second (nodes first kept) :=
  List.foldl_append

theorem nodes_eq (ids : List NodeId) (kept : Shelf) :
    nodes ids kept = (ids.map Held.node).reverse ++ kept := by
  induction ids generalizing kept with
  | nil => rfl
  | cons id ids ih =>
      rw [nodes_cons, ih]
      simp

theorem pairwise_replace {α : Type} {R : α → α → Prop} {above kept : List α} {old : α}
    (new : List α) (pairs : (above ++ old :: kept).Pairwise R) (among : new.Pairwise R)
    (after : ∀ one ∈ above, ∀ piece ∈ new, R one old → R one piece)
    (before : ∀ piece ∈ new, ∀ other ∈ kept, R old other → R piece other) :
    (above ++ (new ++ kept)).Pairwise R := by
  obtain ⟨aboves, keeps, across⟩ := List.pairwise_append.mp pairs
  obtain ⟨follows, keeps⟩ := List.pairwise_cons.mp keeps
  refine List.pairwise_append.mpr ⟨aboves, List.pairwise_append.mpr ⟨among, keeps, ?_⟩, ?_⟩
  · exact fun piece new other listed => before piece new other listed (follows other listed)
  · intro one listed other below
    obtain new | kept := List.mem_append.mp below
    · exact after one listed other new (across one listed old List.mem_cons_self)
    · exact across one listed other (List.mem_cons_of_mem _ kept)

/-! The tokens of a cursor. -/

/-- The tokens stand one after the other, and the last one is empty and ends the text. -/
structure Cursor.Tiled (limit : Nat) (cursor : Cursor) : Prop where
  tiles : Tiles limit cursor.lastEnd (cursor.current :: cursor.ahead)
  last : (cursor.ahead.getLast?.getD cursor.current).span.start = limit

theorem Tiles.le {limit offset : Nat} {tokens : List Token} (tiles : Tiles limit offset tokens) :
    offset ≤ limit := by
  induction tokens generalizing offset with
  | nil => exact tiles
  | cons token tokens ih =>
      obtain ⟨before, ordered, after⟩ := tiles
      exact Nat.le_trans before (Nat.le_trans ordered (ih after))

namespace Cursor.Tiled

variable {limit : Nat} {cursor : Cursor} (tiled : cursor.Tiled limit)
include tiled

theorem lastEnd_le_start : cursor.lastEnd ≤ cursor.current.span.start :=
  tiled.tiles.1

theorem lastEnd_le : cursor.lastEnd ≤ limit :=
  tiled.tiles.le

theorem start_le_lastEnd_advance : cursor.current.span.start ≤ cursor.advance.lastEnd := by
  have ordered := tiled.tiles.2.1
  obtain ⟨current, _ | ⟨token, ahead⟩, lastEnd, left, counted⟩ := cursor
  · exact ordered
  · exact ordered

theorem advance : cursor.advance.Tiled limit := by
  obtain ⟨⟨before, ordered, after⟩, last⟩ := tiled
  obtain ⟨current, _ | ⟨token, ahead⟩, lastEnd, left, counted⟩ := cursor
  · exact ⟨⟨Nat.le_trans after (Nat.le_of_eq last.symm), ordered, after⟩, last⟩
  · exact ⟨after, by simpa [Cursor.advance, List.getLast?_cons] using last⟩

end Cursor.Tiled

namespace ParseState

/-- Nothing was reported, and no loop went on without headway. -/
structure Clean (s : ParseState) : Prop where
  reported : s.reported = []
  stalled : s.stalled = false

/-- The pieces stand in the order of the text, before the current token. -/
structure Laid (limit : Nat) (shelf : Shelf) (s : ParseState) : Prop where
  placed : s.arena.Placed limit
  fits : ∀ piece ∈ shelf, piece.Fits s
  sorted : shelf.Pairwise fun newer older => older.start s.arena ≤ newer.start s.arena

/-- The arena is a forest in which the nodes on the shelf have no parents; as long as the
file is accepted, all is in its place. -/
structure Holds (limit : Nat) (shelf : Shelf) (s : ParseState) : Prop where
  tiled : s.cursor.Tiled limit
  forest : s.arena.Forest
  loose : ∀ {id}, .node id ∈ shelf → s.arena.Loose id
  apart : shelf.Pairwise Held.Apart
  laid : s.Clean → s.Laid limit shelf

variable {limit pos : Nat} {s t : ParseState} {piece place : Held} {kept shelf fewer : Shelf}

theorem Holds.sublist (holds : s.Holds limit shelf) (sub : fewer.Sublist shelf) :
    s.Holds limit fewer where
  tiled := holds.tiled
  forest := holds.forest
  loose listed := holds.loose (sub.subset listed)
  apart := holds.apart.sublist sub
  laid clean :=
    have laid := holds.laid clean
    { placed := laid.placed
      fits := fun piece listed => laid.fits piece (sub.subset listed)
      sorted := laid.sorted.sublist sub }

/-- Only the tokens, the nodes and what was found wrong count. -/
theorem Holds.congr (holds : s.Holds limit shelf) (cursor : t.cursor = s.cursor)
    (arena : t.arena = s.arena) (clean : t.Clean → s.Clean) : t.Holds limit shelf where
  tiled := cursor ▸ holds.tiled
  forest := arena ▸ holds.forest
  loose listed := arena ▸ holds.loose listed
  apart := holds.apart
  laid clear :=
    have laid := holds.laid (clean clear)
    { placed := arena ▸ laid.placed
      fits := fun piece listed => by
        have fits := laid.fits piece listed
        cases piece <;> simp only [Held.Fits, cursor, arena] at fits ⊢ <;> exact fits
      sorted := arena ▸ laid.sorted }

theorem Holds.start_le (holds : s.Holds limit shelf) (clean : s.Clean) (listed : piece ∈ shelf) :
    piece.start s.arena ≤ s.cursor.current.span.start := by
  have laid := holds.laid clean
  have fits := laid.fits piece listed
  have ended := holds.tiled.lastEnd_le_start
  cases piece with
  | mark pos => exact fits
  | begun pos => exact Nat.le_trans fits ended
  | node id => exact Nat.le_trans (Nat.le_trans (laid.placed.ordered id) fits) ended
  | fault => exact absurd fits id

theorem Holds.mark (holds : s.Holds limit kept) :
    s.Holds limit (.mark s.cursor.current.span.start :: kept) where
  tiled := holds.tiled
  forest := holds.forest
  loose listed := holds.loose (by simpa using listed)
  apart := .cons (fun other _ => .of_mark _ other) holds.apart
  laid clean :=
    have laid := holds.laid clean
    { placed := laid.placed
      fits := List.forall_mem_cons.mpr ⟨Nat.le_refl _, laid.fits⟩
      sorted := .cons (fun _ listed => holds.start_le clean listed) laid.sorted }

theorem Holds.fault (holds : s.Holds limit kept) (faulty : ¬ s.Clean) :
    s.Holds limit (.fault :: kept) where
  tiled := holds.tiled
  forest := holds.forest
  loose listed := holds.loose (by simpa using listed)
  apart := .cons (fun _ _ => nofun) holds.apart
  laid clean := absurd clean faulty

theorem Holds.not_clean (holds : s.Holds limit (.fault :: kept)) : ¬ s.Clean := fun clean =>
  (holds.laid clean).fits .fault List.mem_cons_self

theorem Holds.advance (holds : s.Holds limit shelf) :
    (Parse.advance.next s).Holds limit shelf where
  tiled := holds.tiled.advance
  forest := holds.forest
  loose := holds.loose
  apart := holds.apart
  laid clean := by
    obtain ⟨placed, fits, sorted⟩ := holds.laid ⟨clean.reported, clean.stalled⟩
    have passed := holds.tiled.start_le_lastEnd_advance
    have onward := Nat.le_trans holds.tiled.lastEnd_le_start passed
    refine ⟨placed, fun piece listed => ?_, sorted⟩
    have fits := fits piece listed
    cases piece with
    | mark pos =>
        exact Nat.le_trans fits (Nat.le_trans passed holds.tiled.advance.lastEnd_le_start)
    | begun pos => exact Nat.le_trans fits onward
    | node id => exact Nat.le_trans fits onward
    | fault => exact fits

/-- A place that was passed. -/
theorem Holds.begin (above : Shelf) (holds : s.Holds limit (above ++ .mark pos :: kept))
    (reached : s.Clean → pos ≤ s.cursor.lastEnd) :
    s.Holds limit (above ++ .begun pos :: kept) where
  tiled := holds.tiled
  forest := holds.forest
  loose listed := holds.loose (by simpa using listed)
  apart := by
    refine pairwise_replace [.begun pos] holds.apart (List.pairwise_singleton _ _) ?_ ?_
    · exact fun _ _ _ new _ _ _ => by simp [List.mem_singleton.mp new]
    · exact fun _ new _ _ _ _ same => by simp [List.mem_singleton.mp new] at same
  laid clean := by
    obtain ⟨placed, fits, sorted⟩ := holds.laid clean
    simp only [List.forall_mem_append, List.forall_mem_cons] at fits
    refine ⟨placed, ?_, ?_⟩
    · simp only [List.forall_mem_append, List.forall_mem_cons]
      exact ⟨fits.1, reached clean, fits.2.2⟩
    · refine pairwise_replace [.begun pos] sorted (List.pairwise_singleton _ _) ?_ ?_
      · exact fun _ _ _ new ordered => List.mem_singleton.mp new ▸ ordered
      · exact fun _ new _ _ ordered => List.mem_singleton.mp new ▸ ordered

theorem mem_nodes {ids : List NodeId} :
    piece ∈ nodes ids kept ↔ (∃ id ∈ ids, .node id = piece) ∨ piece ∈ kept := by
  simp [nodes_eq]

section Add

variable {node : Node}

theorem Holds.loose_children (holds : s.Holds limit (nodes node.children shelf)) :
    ∀ child ∈ node.children, s.arena.Loose child := fun child listed =>
  holds.loose (mem_nodes.mpr (.inl ⟨child, listed, rfl⟩))

theorem Holds.nodup_children (holds : s.Holds limit (nodes node.children shelf)) :
    node.children.Nodup := by
  have apart := holds.apart
  rw [nodes_eq, List.pairwise_append, List.pairwise_reverse, List.pairwise_map] at apart
  exact apart.1.imp fun {_ later} apart same => apart later rfl (congrArg Held.node same)

theorem Holds.not_mem_children (holds : s.Holds limit (nodes node.children shelf))
    {id : NodeId} (listed : .node id ∈ shelf) : id ∉ node.children := by
  intro child
  have apart := holds.apart
  rw [nodes_eq, List.pairwise_append] at apart
  exact apart.2.2 (.node id) (by simpa using child) _ listed id rfl rfl

theorem start_add {span : Span} {arena : Arena}
    (known : ∀ id, piece = .node id → id < arena.size) :
    piece.start (arena.add node span) = piece.start arena := by
  cases piece with
  | node id => exact congrArg Span.start (Arena.spanOf_add_of_lt (known id rfl))
  | mark _ => rfl
  | begun _ => rfl
  | fault => rfl

/-- The children are in the span from a place below them to the last token. -/
theorem Laid.add (above : Shelf)
    (laid : s.Laid limit (nodes node.children (above ++ place :: kept)))
    (holds : s.Holds limit (nodes node.children (above ++ place :: kept)))
    (here : place = .mark pos ∨ place = .begun pos) (reached : pos ≤ s.cursor.lastEnd)
    (present : node ≠ .missing) :
    ((addNode node pos).next s).Laid limit
      (above ++ .node s.arena.size :: .mark pos :: kept) := by
  obtain ⟨placed, fits, sorted⟩ := laid
  have loose := holds.loose_children
  have start : place.start s.arena = pos := by
    obtain rfl | rfl := here <;> rfl
  have known : ∀ piece ∈ above ++ place :: kept, ∀ id, piece = .node id → id < s.arena.size := by
    rintro _ listed id rfl
    exact (holds.loose (mem_nodes.mpr (.inr listed))).known
  rw [nodes_eq, List.pairwise_append, List.pairwise_reverse, List.pairwise_map] at sorted
  obtain ⟨siblings, sorted, across⟩ := sorted
  have stop : max s.cursor.lastEnd pos = s.cursor.lastEnd := Nat.max_eq_left reached
  refine ⟨placed.add holds.forest present (Nat.le_max_right _ _) ?_ loose ?_ siblings, ?_, ?_⟩
  · rw [stop]
    exact holds.tiled.lastEnd_le
  · intro child listed
    refine ⟨?_, ?_⟩
    · have below := across (.node child) (by simpa using listed) place (by simp)
      rw [start] at below
      exact below
    · rw [stop]
      exact fits (.node child) (mem_nodes.mpr (.inl ⟨child, listed, rfl⟩))
  · have moved : ∀ piece ∈ above ++ place :: kept, piece.Fits ((addNode node pos).next s) := by
      intro piece listed
      have fits := fits piece (mem_nodes.mpr (.inr listed))
      cases piece with
      | node id =>
          change (Arena.spanOf (s.arena.add node _) id).stop ≤ _
          rw [Arena.spanOf_add_of_lt (known _ listed id rfl)]
          exact fits
      | mark _ => exact fits
      | begun _ => exact fits
      | fault => exact fits
    simp only [List.forall_mem_append, List.forall_mem_cons] at moved ⊢
    refine ⟨moved.1, ?_, Nat.le_trans reached holds.tiled.lastEnd_le_start, moved.2.2⟩
    change (Arena.spanOf (s.arena.add node _) s.arena.size).stop ≤ _
    rw [Arena.spanOf_add_size]
    exact Nat.le_of_eq stop
  · have sorted : (above ++ place :: kept).Pairwise fun newer older =>
        older.start (s.arena.add node ⟨pos, max s.cursor.lastEnd pos⟩) ≤
          newer.start (s.arena.add node ⟨pos, max s.cursor.lastEnd pos⟩) :=
      sorted.imp_of_mem fun one two ordered => by
        rw [start_add (known _ one), start_add (known _ two)]
        exact ordered
    have new : ∀ piece ∈ [Held.node s.arena.size, .mark pos],
        piece.start (s.arena.add node ⟨pos, max s.cursor.lastEnd pos⟩) =
          place.start (s.arena.add node ⟨pos, max s.cursor.lastEnd pos⟩) := by
      rw [start_add (known place (by simp)), start]
      simp [Held.start, Arena.spanOf_add_size]
    refine pairwise_replace [.node s.arena.size, .mark pos] sorted ?_ ?_ ?_
    · simp [Held.start, Arena.spanOf_add_size]
    · exact fun _ _ piece listed ordered => new piece listed ▸ ordered
    · exact fun piece listed _ _ ordered => new piece listed ▸ ordered

end Add

/-- A node that is added takes its children off the shelf and its own place on it, which is
where it starts. -/
theorem Holds.add {node : Node} (above : Shelf)
    (holds : s.Holds limit (nodes node.children (above ++ place :: kept)))
    (here : place = .mark pos ∨ place = .begun pos)
    (reached : s.Clean → pos ≤ s.cursor.lastEnd) (present : node ≠ .missing) :
    ((addNode node pos).next s).Holds limit
      (above ++ .node s.arena.size :: .mark pos :: kept) := by
  have other : ∀ id, place ≠ .node id := by
    obtain rfl | rfl := here <;> exact fun _ => nofun
  have old : ∀ id, .node id ∈ above ++ .node s.arena.size :: .mark pos :: kept →
      id = s.arena.size ∨ .node id ∈ above ++ place :: kept := by
    simp only [List.mem_append, List.mem_cons]
    grind
  have fresh : ∀ id, .node id ∈ [Held.node s.arena.size, .mark pos] →
      .node id ∉ above ++ place :: kept := by
    intro id new listed
    have known := (holds.loose (mem_nodes.mpr (.inr listed))).known
    simp only [List.mem_cons, Held.node.injEq, reduceCtorEq, List.not_mem_nil, or_false] at new
    exact Nat.ne_of_lt known new
  refine ⟨holds.tiled, holds.forest.add holds.loose_children holds.nodup_children,
    fun {id} listed => ?_, ?_, fun clean => ?_⟩
  · obtain rfl | listed := old id listed
    · exact Arena.loose_add_size holds.forest holds.loose_children
    · have loose := holds.loose (mem_nodes.mpr (.inr listed))
      exact loose.add (holds.not_mem_children listed)
  · have apart := holds.apart
    rw [nodes_eq, List.pairwise_append] at apart
    refine pairwise_replace [.node s.arena.size, .mark pos] apart.2.1 ?_ ?_ ?_
    · simpa using Held.Apart.mark _ pos
    · rintro _ listed piece new _ id rfl rfl
      exact fresh id new (List.mem_append_left _ listed)
    · rintro _ new other listed _ id rfl rfl
      exact fresh id new (List.mem_append_right _ (List.mem_cons_of_mem _ listed))
  · have clean : s.Clean := ⟨clean.reported, clean.stalled⟩
    exact (holds.laid clean).add above holds here (reached clean) present

end ParseState

namespace Parse

open ParseState

variable {α β σ : Type} {K : TokenKind → Prop} {limit pos : Nat} {piece : Held}
  {before kept : Shelf}

/-- At a token of the kinds `K` the parser turns one shelf into another. -/
def TurnsAt (parse : Parse α) (K : TokenKind → Prop) (limit : Nat) (before : Shelf)
    (after : α → Shelf) : Prop :=
  ∀ s : ParseState, K s.cursor.kind → s.Holds limit before →
    (parse.next s).Holds limit (after (parse.result s))

abbrev Turns (parse : Parse α) (limit : Nat) (before : Shelf) (after : α → Shelf) : Prop :=
  parse.TurnsAt (fun _ => True) limit before after

namespace TurnsAt

variable {after : β → Shelf}

theorem atKind {L : TokenKind → Prop} {parse : Parse β}
    (turns : parse.TurnsAt K limit before after) (kinds : ∀ kind, L kind → K kind) :
    parse.TurnsAt L limit before after :=
  fun s kind holds => turns s (kinds _ kind) holds

theorem anywhere {parse : Parse β} (turns : parse.Turns limit before after) :
    parse.TurnsAt K limit before after :=
  turns.atKind fun _ _ => trivial

theorem bind {parse : Parse α} {rest : α → Parse β} {middle : α → Shelf}
    (first : parse.TurnsAt K limit before middle)
    (second : ∀ value, (rest value).Turns limit (middle value) after) :
    (parse >>= rest).TurnsAt K limit before after :=
  fun s kind holds => second _ _ trivial (first s kind holds)

theorem map {parse : Parse α} {f : α → β}
    (turns : parse.TurnsAt K limit before fun value => after (f value)) :
    (f <$> parse).TurnsAt K limit before after :=
  turns

theorem pure {value : β} (same : before = after value) :
    (Pure.pure value : Parse β).TurnsAt K limit before after :=
  fun _ _ holds => same ▸ holds

/-- A first part that only looks. -/
theorem look {parse : Parse α} {rest : α → Parse β} (looks : ∀ s, parse.next s = s)
    (second : ∀ value, (rest value).TurnsAt K limit before after) :
    (parse >>= rest).TurnsAt K limit before after := by
  intro s kind holds
  have held := second (parse.result s) s kind holds
  rw [next_bind, result_bind, looks]
  exact held

/-- A first part that stays at its token. -/
theorem still {parse : Parse α} {rest : α → Parse β} {middle : α → Shelf}
    (same : ∀ s, (parse.next s).cursor = s.cursor) (first : parse.Turns limit before middle)
    (second : ∀ value, (rest value).TurnsAt K limit (middle value) after) :
    (parse >>= rest).TurnsAt K limit before after := by
  intro s kind holds
  have here : K (parse.next s).cursor.kind := by
    rw [same]
    exact kind
  exact second _ _ here (first s trivial holds)

theorem kind {rest : TokenKind → Parse β}
    (second : ∀ kind, (rest kind).TurnsAt (fun here => K here ∧ here = kind) limit before after) :
    (Parse.kind >>= rest).TurnsAt K limit before after :=
  fun s kind holds => second s.cursor.kind s ⟨kind, rfl⟩ holds

theorem ite {condition : Prop} [Decidable condition] {whenTrue whenFalse : Parse β}
    (yes : condition → whenTrue.TurnsAt K limit before after)
    (no : ¬ condition → whenFalse.TurnsAt K limit before after) :
    (if condition then whenTrue else whenFalse).TurnsAt K limit before after := by
  split
  · exact yes ‹_›
  · exact no ‹_›

theorem sublist {parse : Parse β} {more : β → Shelf}
    (turns : parse.TurnsAt K limit before more)
    (sub : ∀ value, (after value).Sublist (more value)) :
    parse.TurnsAt K limit before after :=
  fun s kind holds => (turns s kind holds).sublist (sub _)

/-- What is on top is not needed. -/
theorem drop {parse : Parse β} (turns : parse.TurnsAt K limit before after) :
    parse.TurnsAt K limit (piece :: before) after :=
  fun s kind holds => turns s kind (holds.sublist (List.sublist_cons_self _ _))

theorem dropAll {parse : Parse β} {ids : List NodeId}
    (turns : parse.TurnsAt K limit before after) :
    parse.TurnsAt K limit (nodes ids before) after :=
  fun s kind holds => turns s kind (holds.sublist (nodes_eq .. ▸ List.sublist_append_right _ _))

/-- The place below a node is not needed any more. -/
theorem settle {parse : Parse NodeId}
    (turns : parse.TurnsAt K limit before fun id => .node id :: piece :: kept) :
    parse.TurnsAt K limit before fun id => .node id :: kept :=
  turns.sublist fun _ => (List.sublist_cons_self _ _).cons_cons _

/-- Two ways that join again. -/
theorem join {condition : Prop} [Decidable condition] {whenTrue whenFalse : Parse α}
    {rest : α → Parse β} (middle : α → Shelf)
    (yes : condition → whenTrue.TurnsAt K limit before middle)
    (no : ¬ condition → whenFalse.TurnsAt K limit before middle)
    (second : ∀ value, (rest value).Turns limit (middle value) after) :
    (if condition then whenTrue >>= rest else whenFalse >>= rest).TurnsAt K limit before after :=
  .ite (fun holds => .bind (yes holds) second) fun fails => .bind (no fails) second

theorem when {condition : Prop} [Decidable condition] {whenTrue : Parse Unit}
    {rest : Unit → Parse β} (yes : condition → whenTrue.TurnsAt K limit before fun _ => before)
    (second : (rest ()).Turns limit before after) :
    (if condition then whenTrue >>= rest else rest ()).TurnsAt K limit before after :=
  .ite (fun holds => .bind (yes holds) fun _ => second) fun _ => second.anywhere

/-- After a fault no place has to be kept. -/
theorem faulty {parse : Parse β} (ids : List NodeId)
    (turns : parse.TurnsAt K limit (nodes ids (.begun pos :: kept)) after) :
    parse.TurnsAt K limit (.fault :: nodes ids (.mark pos :: kept)) after := by
  intro s kind holds
  refine turns s kind ?_
  have below := holds.sublist (List.sublist_cons_self _ _)
  simp only [nodes_eq] at below ⊢
  exact below.begin _ fun clean => absurd clean holds.not_clean

/-- The place below a node was passed. -/
theorem under {parse : Parse β} {id : NodeId}
    (turns : parse.TurnsAt K limit (.node id :: .begun pos :: kept) after) :
    parse.TurnsAt K limit (.node id :: .mark pos :: kept) after := by
  intro s kind holds
  refine turns s kind (holds.begin [.node id] fun clean => ?_)
  have laid := holds.laid clean
  have ended := laid.fits (.node id) List.mem_cons_self
  have begins := List.rel_of_pairwise_cons laid.sorted List.mem_cons_self
  exact Nat.le_trans begins (Nat.le_trans (laid.placed.ordered id) ended)

/-- A node that starts at the current token. -/
theorem fromHere {rest : Nat → Parse NodeId} (second : ∀ pos, (rest pos).Turns limit
      (.mark pos :: kept) fun id => .node id :: .mark pos :: kept) :
    (position >>= rest).TurnsAt K limit kept fun id => .node id :: kept :=
  fun s _ holds => (second _).settle s trivial holds.mark

end TurnsAt

theorem position_turns : position.TurnsAt K limit kept fun pos => .mark pos :: kept :=
  fun _ _ holds => holds.mark

theorem advance_turns : advance.TurnsAt K limit kept fun _ => kept :=
  fun _ _ holds => holds.advance

/-- Places noted before the current token lie before its end. -/
theorem advance_begins (ids : List NodeId) :
    advance.TurnsAt K limit (nodes ids (.mark pos :: kept))
      fun _ => nodes ids (.begun pos :: kept) := by
  intro s _ holds
  simp only [nodes_eq] at holds ⊢
  refine holds.advance.begin _ fun clean => ?_
  have noted := (holds.laid ⟨clean.reported, clean.stalled⟩).fits (.mark pos) (by simp)
  exact Nat.le_trans noted holds.tiled.start_le_lastEnd_advance

theorem not_clean_report (message : String) (s : ParseState) :
    ¬ ((report message).next s).Clean := by
  intro clean
  have reported := clean.reported
  unfold report at reported
  rw [next_modify] at reported
  dsimp only at reported
  split at reported
  · rename_i again
    simp [reported] at again
  · cases reported

theorem report_turns (message : String) :
    (report message).TurnsAt K limit kept fun _ => .fault :: kept := by
  intro s _ holds
  have same : ((report message).next s).cursor = s.cursor ∧
      ((report message).next s).arena = s.arena := by
    unfold report
    rw [next_modify]
    dsimp only
    split <;> exact ⟨rfl, rfl⟩
  have faulty := not_clean_report message s
  exact (holds.congr same.1 same.2 fun clean => absurd clean faulty).fault faulty

theorem report_keeps (message : String) : (report message).TurnsAt K limit kept fun _ => kept :=
  (report_turns message).sublist fun _ => List.sublist_cons_self _ _

theorem reportExpected_turns (what : String) :
    (reportExpected what).TurnsAt K limit kept fun _ => .fault :: kept :=
  .look next_found fun _ => report_turns _

theorem stall_turns : stall.TurnsAt K limit kept fun _ => .fault :: kept := by
  intro s _ holds
  have faulty : ¬ (stall.next s).Clean := fun clean => nomatch clean.stalled
  have held : (stall.next s).Holds limit kept :=
    holds.congr rfl rfl fun clean => absurd clean faulty
  exact held.fault faulty

theorem missingNode_turns :
    missingNode.TurnsAt K limit (.fault :: kept) fun id => .node id :: kept := by
  intro s _ holds
  have childless : ∀ child ∈ Node.missing.children, s.arena.Loose child := nofun
  refine ⟨holds.tiled, holds.forest.add childless .nil, fun {id} listed => ?_, ?_, fun clean => ?_⟩
  · obtain new | listed := List.mem_cons.mp listed
    · cases new
      exact Arena.loose_add_size holds.forest childless
    · exact (holds.loose (List.mem_cons_of_mem _ listed)).add List.not_mem_nil
  · refine .cons ?_ (List.pairwise_cons.mp holds.apart).2
    rintro _ listed id same rfl
    cases same
    exact Nat.lt_irrefl _ (holds.loose (List.mem_cons_of_mem _ listed)).known
  · exact absurd ⟨clean.reported, clean.stalled⟩ holds.not_clean

/-- A node with a place that was passed. -/
theorem addNode_begun {node : Node} (present : node ≠ .missing) :
    (addNode node pos).TurnsAt K limit (nodes node.children (.begun pos :: kept))
      fun id => .node id :: .mark pos :: kept := by
  intro s _ holds
  refine holds.add [] (.inr rfl) (fun clean => ?_) present
  exact (holds.laid clean).fits (.begun pos) (mem_nodes.mpr (.inr List.mem_cons_self))

/-- A node with a child, which was consumed. -/
theorem addNode_over {node : Node} (parental : node.children ≠ []) :
    (addNode node pos).TurnsAt K limit (nodes node.children (.mark pos :: kept))
      fun id => .node id :: .mark pos :: kept := by
  intro s _ holds
  refine holds.add [] (.inl rfl) (fun clean => ?_) fun missing => parental (missing ▸ rfl)
  obtain ⟨child, listed⟩ := List.exists_mem_of_ne_nil _ parental
  have laid := holds.laid clean
  have ended := laid.fits (.node child) (mem_nodes.mpr (.inl ⟨child, listed, rfl⟩))
  have sorted := laid.sorted
  rw [nodes_eq, List.pairwise_append] at sorted
  have begins := sorted.2.2 (.node child) (by simpa using listed) _ List.mem_cons_self
  exact Nat.le_trans begins (Nat.le_trans (laid.placed.ordered child) ended)

/-- A node that others came after. -/
theorem addNode_beneath {node : Node} (later : List NodeId) (present : node ≠ .missing) :
    (addNode node pos).TurnsAt K limit (nodes node.children (nodes later (.begun pos :: kept)))
      fun id => nodes later (.node id :: kept) := by
  intro s _ holds
  simp only [nodes_eq later] at holds ⊢
  have added := holds.add _ (.inr rfl)
    (fun clean => (holds.laid clean).fits (.begun pos) (mem_nodes.mpr (.inr (by simp)))) present
  exact added.sublist (.append_left ((List.sublist_cons_self _ _).cons_cons _) _)

theorem TurnsAt.accept {kind : TokenKind} {rest : Bool → Parse β} {passed : Shelf}
    {after : β → Shelf} (accepted : advance.TurnsAt K limit before fun _ => passed)
    (yes : (rest true).Turns limit passed after)
    (no : (rest false).TurnsAt K limit before after) :
    (Parse.accept kind >>= rest).TurnsAt K limit before after := by
  rw [accept_bind]
  exact .look (next_at? kind) fun _ =>
    .ite (fun _ => .bind accepted fun _ => yes) fun _ => no

theorem accept_turns {kind : TokenKind} : (accept kind).TurnsAt K limit kept fun _ => kept := by
  rw [← bind_pure (accept kind)]
  exact .accept advance_turns (.pure rfl) (.pure rfl)

theorem acceptIf_turns {condition : Bool} {kind : TokenKind} :
    (acceptIf condition kind).TurnsAt K limit kept fun _ => kept :=
  .ite (fun _ => accept_turns) fun _ => .pure rfl

/-- What is expected is consumed, or its lack is reported. -/
theorem TurnsAt.expect {kind : TokenKind} {rest : Bool → Parse β} {passed : Shelf}
    {after : β → Shelf} (accepted : advance.TurnsAt K limit before fun _ => passed)
    (yes : (rest true).Turns limit passed after)
    (no : (rest false).Turns limit (.fault :: before) after) :
    (Parse.expect kind >>= rest).TurnsAt K limit before after := by
  unfold Parse.expect
  rw [bind_assoc]
  refine .accept accepted yes ?_
  change (reportExpected _ >>= fun _ => rest false).TurnsAt K limit before after
  exact .bind (reportExpected_turns _) fun _ => no

theorem expect_begins {kind : TokenKind} (ids : List NodeId) :
    (expect kind).TurnsAt K limit (nodes ids (.mark pos :: kept))
      fun _ => nodes ids (.begun pos :: kept) := by
  rw [← bind_pure (expect kind)]
  exact .expect (advance_begins ids) (.pure rfl) (.faulty ids (.pure rfl))

theorem expect_turns {kind : TokenKind} : (expect kind).TurnsAt K limit kept fun _ => kept := by
  rw [← bind_pure (expect kind)]
  exact .expect advance_turns (.pure rfl) (.drop (.pure rfl))

theorem expect_reports {kind : TokenKind} : (expect kind).TurnsAt K limit kept
    fun found => if found then kept else .fault :: kept := by
  rw [← bind_pure (expect kind)]
  exact .expect advance_turns (.pure rfl) (.pure rfl)

/-! Loops. -/

section Loops

variable {step : σ → Parse (σ × Bool)} {start : σ} (shelf : σ → Shelf)
  (steps : ∀ state, (step state).Turns limit (shelf state) fun out => shelf out.1)
include steps

/-- The first step may start from another shelf than the rest of them. -/
theorem untilDone_turnsAt (first : (step start).TurnsAt K limit before fun out => shelf out.1) :
    (untilDone start step).TurnsAt K limit before shelf := by
  intro s kind holds
  generalize bound : s.cursor.left = count
  induction count using Nat.strongRecOn generalizing start K before s with
  | ind count ih =>
      obtain ⟨value, more, t, stepped⟩ := exists_step step start s
      have held := first s kind holds
      simp only [result, next, stepped, untilDone_eq step start, again_of stepped] at held ⊢
      split
      · exact held
      · split
        · rename_i shorter
          exact ih _ (bound ▸ shorter) (steps value) t trivial held rfl
        · exact held.congr rfl rfl fun clean => by cases clean.stalled

/-- A loop whose steps keep a shelf that depends on what was gathered so far. -/
theorem untilDone_turns : (untilDone start step).TurnsAt K limit (shelf start) shelf :=
  untilDone_turnsAt shelf steps (steps start).anywhere

end Loops

end Parse

end StaticReflection
