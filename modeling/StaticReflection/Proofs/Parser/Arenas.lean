import StaticReflection.Tree.Node

namespace StaticReflection.Arena

/-! Arenas in which children come before their parents, and no two parents share one. -/

def spanOf (arena : Arena) (id : NodeId) : Span :=
  (arena.span? id).getD ⟨0, 0⟩

/-- Children come before their parent, which lists each of them once and is their only
one. -/
structure Forest (arena : Arena) : Prop where
  below : ∀ {id child}, child ∈ arena.children id → child < id
  nodup : ∀ id, (arena.children id).Nodup
  single : ∀ {id other child}, child ∈ arena.children id → child ∈ arena.children other →
    id = other

/-- Nothing is missing, every node is inside its parent, and siblings stand in the order of
the text. -/
structure Placed (limit : Nat) (arena : Arena) : Prop where
  present : ∀ id, arena.node? id ≠ some .missing
  ordered : ∀ id, (arena.spanOf id).start ≤ (arena.spanOf id).stop
  bounded : ∀ id, (arena.spanOf id).stop ≤ limit
  inside : ∀ {id child}, child ∈ arena.children id →
    (arena.spanOf id).start ≤ (arena.spanOf child).start ∧
      (arena.spanOf child).stop ≤ (arena.spanOf id).stop
  sorted : ∀ id, (arena.children id).Pairwise fun earlier later =>
    (arena.spanOf earlier).start ≤ (arena.spanOf later).start

/-- A node that has no parent yet. -/
structure Loose (arena : Arena) (id : NodeId) : Prop where
  known : id < arena.size
  orphan : ∀ parent, id ∉ arena.children parent

variable {arena : Arena} {node : Node} {span : Span} {id : NodeId} {limit : Nat}

theorem forest_empty : Forest {} where
  below listed := by simp [children, node?] at listed
  nodup _ := by simp [children, node?]
  single listed := by simp [children, node?] at listed

theorem placed_empty : Placed limit {} where
  present _ := by simp [node?]
  ordered _ := by simp [spanOf, span?]
  bounded _ := by simp [spanOf, span?]
  inside listed := by simp [children, node?] at listed
  sorted _ := by simp [children, node?]

/-! A node that is added. -/

@[simp] theorem size_add : (arena.add node span).size = arena.size + 1 :=
  Array.size_push _

theorem entries_add (id : NodeId) : (arena.add node span).entries[id]? =
    if id = arena.size then some (node, span) else arena.entries[id]? :=
  Array.getElem?_push

theorem node?_add (id : NodeId) : (arena.add node span).node? id =
    if id = arena.size then some node else arena.node? id := by
  rw [node?, entries_add]
  split <;> rfl

theorem span?_add (id : NodeId) : (arena.add node span).span? id =
    if id = arena.size then some span else arena.span? id := by
  rw [span?, entries_add]
  split <;> rfl

theorem children_add_size : (arena.add node span).children arena.size = node.children := by
  rw [children, node?_add, if_pos rfl]
  rfl

theorem children_add_of_ne (old : id ≠ arena.size) :
    (arena.add node span).children id = arena.children id := by
  rw [children, node?_add, if_neg old]
  rfl

theorem spanOf_add_size : (arena.add node span).spanOf arena.size = span := by
  rw [spanOf, span?_add, if_pos rfl]
  rfl

theorem spanOf_add_of_ne (old : id ≠ arena.size) :
    (arena.add node span).spanOf id = arena.spanOf id := by
  rw [spanOf, span?_add, if_neg old]
  rfl

theorem spanOf_add_of_lt (known : id < arena.size) :
    (arena.add node span).spanOf id = arena.spanOf id :=
  spanOf_add_of_ne (Nat.ne_of_lt known)

theorem children_eq_nil (unknown : arena.size ≤ id) : arena.children id = [] := by
  rw [children, node?, Array.getElem?_eq_none_iff.mpr unknown]
  rfl

theorem known_of_mem_children {child : NodeId} (listed : child ∈ arena.children id) :
    id < arena.size := by
  refine Nat.lt_of_not_ge fun unknown => ?_
  rw [children_eq_nil unknown] at listed
  exact absurd listed List.not_mem_nil

/-- A child of a larger arena is one of the new node's or was a child before. -/
theorem mem_children_add {child : NodeId}
    (listed : child ∈ (arena.add node span).children id) :
    (id = arena.size ∧ child ∈ node.children) ∨
      (id < arena.size ∧ child ∈ arena.children id) := by
  by_cases new : id = arena.size
  · rw [new, children_add_size] at listed
    exact .inl ⟨new, listed⟩
  · rw [children_add_of_ne new] at listed
    exact .inr ⟨known_of_mem_children listed, listed⟩

theorem Forest.add (forest : arena.Forest) (loose : ∀ child ∈ node.children, arena.Loose child)
    (nodup : node.children.Nodup) : (arena.add node span).Forest where
  below listed := by
    obtain ⟨rfl, new⟩ | ⟨_, old⟩ := mem_children_add listed
    · exact (loose _ new).known
    · exact forest.below old
  nodup id := by
    by_cases new : id = arena.size
    · rw [new, children_add_size]
      exact nodup
    · rw [children_add_of_ne new]
      exact forest.nodup id
  single listed again := by
    obtain ⟨rfl, one⟩ | ⟨_, one⟩ := mem_children_add listed <;>
      obtain ⟨rfl, two⟩ | ⟨_, two⟩ := mem_children_add again
    · rfl
    · exact absurd two ((loose _ one).orphan _)
    · exact absurd one ((loose _ two).orphan _)
    · exact forest.single one two

theorem Loose.add (loose : arena.Loose id) (other : id ∉ node.children) :
    (arena.add node span).Loose id where
  known := by
    rw [size_add]
    exact Nat.lt_succ_of_lt loose.known
  orphan parent listed := by
    obtain ⟨_, new⟩ | ⟨_, old⟩ := mem_children_add listed
    · exact other new
    · exact loose.orphan parent old

theorem loose_add_size (forest : arena.Forest)
    (loose : ∀ child ∈ node.children, arena.Loose child) :
    (arena.add node span).Loose arena.size where
  known := by
    rw [size_add]
    exact Nat.lt_succ_self _
  orphan parent listed := by
    obtain ⟨_, new⟩ | ⟨known, old⟩ := mem_children_add listed
    · exact Nat.lt_irrefl _ (loose _ new).known
    · exact Nat.lt_asymm (forest.below old) known

theorem Placed.add (placed : arena.Placed limit) (forest : arena.Forest)
    (present : node ≠ .missing) (ordered : span.start ≤ span.stop) (bounded : span.stop ≤ limit)
    (loose : ∀ child ∈ node.children, arena.Loose child)
    (inside : ∀ child ∈ node.children,
      span.start ≤ (arena.spanOf child).start ∧ (arena.spanOf child).stop ≤ span.stop)
    (sorted : node.children.Pairwise fun earlier later =>
      (arena.spanOf earlier).start ≤ (arena.spanOf later).start) :
    (arena.add node span).Placed limit where
  present id := by
    rw [node?_add]
    split
    · exact fun same => present (Option.some.inj same)
    · exact placed.present id
  ordered id := by
    by_cases new : id = arena.size
    · rw [new, spanOf_add_size]
      exact ordered
    · rw [spanOf_add_of_ne new]
      exact placed.ordered id
  bounded id := by
    by_cases new : id = arena.size
    · rw [new, spanOf_add_size]
      exact bounded
    · rw [spanOf_add_of_ne new]
      exact placed.bounded id
  inside listed := by
    obtain ⟨rfl, new⟩ | ⟨known, old⟩ := mem_children_add listed
    · rw [spanOf_add_size, spanOf_add_of_lt (loose _ new).known]
      exact inside _ new
    · rw [spanOf_add_of_lt known, spanOf_add_of_lt (Nat.lt_trans (forest.below old) known)]
      exact placed.inside old
  sorted id := by
    by_cases new : id = arena.size
    · rw [new, children_add_size]
      refine sorted.imp_of_mem fun one two ordered => ?_
      rw [spanOf_add_of_lt (loose _ one).known, spanOf_add_of_lt (loose _ two).known]
      exact ordered
    · rw [children_add_of_ne new]
      refine (placed.sorted id).imp_of_mem fun one two ordered => ?_
      have known := known_of_mem_children one
      rw [spanOf_add_of_lt (Nat.lt_trans (forest.below one) known),
        spanOf_add_of_lt (Nat.lt_trans (forest.below two) known)]
      exact ordered

end StaticReflection.Arena
