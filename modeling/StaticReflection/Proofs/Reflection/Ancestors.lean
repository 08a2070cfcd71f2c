import StaticReflection.Proofs.Reflection.LoadedAncestors

namespace StaticReflection

/-! The ancestors of a class are the classes that a chain of declarations leads to, and
those of them that a chain without traits leads to are its parents and interfaces. A class
that was first met through a trait may be met again without one, and so may all above it. -/

namespace ClassGraph

open Hierarchy Query

variable {index : EntityIndex} (graph : ClassGraph index)

/-- The class names another one as its parent or as an interface. -/
def TraitFree (info ancestor : ClassInfo) : Prop :=
  ancestor ∈ graph.classes ∧ ∃ entry ∈ info.ancestorNames, entry.2 ≠ .trait ∧
    NameKey.folded (stripSeparator entry.1) = ancestor.key

/-- Ancestors that were found, each once. -/
structure Noted (found : OrderedMap NameKey Ancestor) : Prop where
  keyed : found.KeyedBy (·.info.key)
  inside : ∀ ancestor ∈ found.values, ancestor.info ∈ graph.classes

end ClassGraph

namespace Hierarchy

/-- The class is among the ancestors that were found. -/
def Listed (found : OrderedMap NameKey Ancestor) (info : ClassInfo) : Prop :=
  ∃ ancestor, found.find? info.key = some ancestor

/-- The class is among them, and not only through traits. -/
def Free (found : OrderedMap NameKey Ancestor) (info : ClassInfo) : Prop :=
  ∃ ancestor, found.find? info.key = some ancestor ∧ ancestor.onlyByTrait = false

theorem find?_noteAncestor (found : OrderedMap NameKey Ancestor) (ancestor : Ancestor)
    (key : NameKey) :
    (noteAncestor found ancestor).find? key =
      if key = ancestor.info.key then
        some (((found.find? key).map fun earlier =>
          { earlier with onlyByTrait := earlier.onlyByTrait && ancestor.onlyByTrait }).getD
            ancestor)
      else found.find? key := by
  unfold noteAncestor
  split
  · rename_i earlier known
    rw [OrderedMap.find?_insert]
    split
    · rename_i same
      rw [same, known]
      rfl
    · rfl
  · rename_i absent
    rw [OrderedMap.find?_insertNew]
    by_cases same : key = ancestor.info.key
    · rw [if_pos ⟨same, absent⟩, if_pos same, same, absent]
      rfl
    · rw [if_neg (fun both => same both.1), if_neg same]

variable {found : OrderedMap NameKey Ancestor} {info : ClassInfo} {ancestor : Ancestor}

theorem listed_noteAncestor :
    Listed (noteAncestor found ancestor) info ↔
      Listed found info ∨ info.key = ancestor.info.key := by
  unfold Listed
  rw [find?_noteAncestor]
  by_cases same : info.key = ancestor.info.key <;> simp [same]

theorem free_noteAncestor :
    Free (noteAncestor found ancestor) info ↔
      Free found info ∨ info.key = ancestor.info.key ∧ ancestor.onlyByTrait = false := by
  unfold Free
  rw [find?_noteAncestor]
  by_cases same : info.key = ancestor.info.key
  · cases known : found.find? ancestor.info.key with
    | none => simp [same, known]
    | some earlier => cases only : earlier.onlyByTrait <;> simp [same, known, only]
  · simp [same]

end Hierarchy

namespace ClassGraph

open Hierarchy Query

variable {index : EntityIndex} {graph : ClassGraph index}
  {found result : OrderedMap NameKey Ancestor} {info ancestor : ClassInfo} {byTrait : Bool}

theorem TraitFree.edge (free : graph.TraitFree info ancestor) : graph.Edge info ancestor := by
  obtain ⟨inside, entry, declared, _, named⟩ := free
  exact ⟨inside, entry, declared, named⟩

theorem noted_empty : graph.Noted {} :=
  ⟨OrderedMap.keyedBy_empty, by simp [OrderedMap.values]⟩

theorem Noted.note (noted : graph.Noted found) (inside : ancestor ∈ graph.classes)
    (byTrait : Bool) : graph.Noted (noteAncestor found ⟨ancestor, byTrait⟩) := by
  have keyed : (noteAncestor found ⟨ancestor, byTrait⟩).KeyedBy (·.info.key) := by
    unfold noteAncestor
    split
    · rename_i earlier known
      have same : ancestor.key = earlier.info.key := noted.keyed.key_of_find? known
      exact noted.keyed.insert same
    · exact noted.keyed.insertNew rfl
  refine ⟨keyed, fun other among => ?_⟩
  have known := keyed.mem_values_iff.mp among
  rw [find?_noteAncestor] at known
  by_cases same : other.info.key = ancestor.key
  · rw [if_pos same] at known
    cases earlier : found.find? other.info.key with
    | none =>
        rw [earlier] at known
        rw [← Option.some.inj known]
        exact inside
    | some first =>
        have firstKey : other.info.key = first.info.key := noted.keyed.key_of_find? earlier
        rw [earlier] at known
        rw [Option.map_some, Option.getD_some] at known
        have sameInfo := congrArg Ancestor.info (Option.some.inj known)
        rw [← sameInfo]
        rw [firstKey] at earlier
        exact noted.inside first (noted.keyed.mem_values_iff.mpr earlier)
  · rw [if_neg same] at known
    exact noted.inside other (noted.keyed.mem_values_iff.mpr known)

/-- What the walk over the ancestors of a class adds to those found before. -/
structure Gathered (graph : ClassGraph index) (byTrait : Bool) (info : ClassInfo)
    (found result : OrderedMap NameKey Ancestor) : Prop where
  noted : graph.Noted result
  listed : ∀ other ∈ graph.classes, Listed result other ↔
    Listed found other ∨ Relation.TransGen graph.Edge info other
  free : ∀ other ∈ graph.classes, Free result other ↔
    Free found other ∨ byTrait = false ∧ Relation.TransGen graph.TraitFree info other

/-- The class is one of some named ancestors, or a chain of a kind leads to it from there. -/
def Leads (graph : ClassGraph index) (R : ClassInfo → ClassInfo → Prop)
    (names : List (String × AncestorEdge)) (other : ClassInfo) : Prop :=
  ∃ entry ∈ names, ∃ ancestor ∈ graph.classes,
    NameKey.folded (stripSeparator entry.1) = ancestor.key ∧
      Relation.ReflTransGen R ancestor other

theorem leads_cons {R : ClassInfo → ClassInfo → Prop} {name : String} {edge : AncestorEdge}
    {rest : List (String × AncestorEdge)} {other : ClassInfo} (inside : ancestor ∈ graph.classes)
    (named : NameKey.folded (stripSeparator name) = ancestor.key) :
    graph.Leads R ((name, edge) :: rest) other ↔
      Relation.ReflTransGen R ancestor other ∨ graph.Leads R rest other := by
  constructor
  · rintro ⟨first, among, given, member, same, reached⟩
    rcases List.mem_cons.mp among with rfl | later
    · rw [eq_of_key inside member (named.symm.trans same)]
      exact .inl reached
    · exact .inr ⟨first, later, given, member, same, reached⟩
  · rintro (reached | ⟨first, later, rest⟩)
    · exact ⟨(name, edge), List.mem_cons_self, ancestor, inside, named, reached⟩
    · exact ⟨first, List.mem_cons_of_mem _ later, rest⟩

theorem transGen_edge_iff {other : ClassInfo} :
    Relation.TransGen graph.Edge info other ↔
      graph.Leads graph.Edge info.ancestorNames other := by
  rw [Relation.TransGen.head'_iff]
  constructor
  · rintro ⟨ancestor, ⟨inside, entry, declared, named⟩, reached⟩
    exact ⟨entry, declared, ancestor, inside, named, reached⟩
  · rintro ⟨entry, declared, ancestor, inside, named, reached⟩
    exact ⟨ancestor, ⟨inside, entry, declared, named⟩, reached⟩

/-- The ancestors of a class that are not traits of it. -/
def untraited (names : List (String × AncestorEdge)) : List (String × AncestorEdge) :=
  names.filter (·.2 ≠ .trait)

theorem transGen_traitFree_iff {other : ClassInfo} :
    Relation.TransGen graph.TraitFree info other ↔
      graph.Leads graph.TraitFree (untraited info.ancestorNames) other := by
  rw [Relation.TransGen.head'_iff]
  constructor
  · rintro ⟨ancestor, ⟨inside, entry, declared, apart, named⟩, reached⟩
    exact ⟨entry, List.mem_filter.mpr ⟨declared, by simpa using apart⟩, ancestor, inside, named,
      reached⟩
  · rintro ⟨entry, kept, ancestor, inside, named, reached⟩
    obtain ⟨declared, apart⟩ := List.mem_filter.mp kept
    exact ⟨ancestor, ⟨inside, entry, declared, by simpa using apart, named⟩, reached⟩

/-- What a fold of such walks over some named ancestors adds. -/
theorem gathered_of_folds {names : List (String × AncestorEdge)}
    (folds : graph.Folds (fun ancestor edge found middle =>
      graph.Noted (noteAncestor found ⟨ancestor, byTrait || edge == .trait⟩) →
        graph.Gathered (byTrait || edge == .trait) ancestor
          (noteAncestor found ⟨ancestor, byTrait || edge == .trait⟩) middle) names found result)
    (noted : graph.Noted found) :
    graph.Noted result ∧
    (∀ other ∈ graph.classes, Listed result other ↔
      Listed found other ∨ graph.Leads graph.Edge names other) ∧
    ∀ other ∈ graph.classes, Free result other ↔
      Free found other ∨ byTrait = false ∧ graph.Leads graph.TraitFree (untraited names) other := by
  induction folds with
  | done => exact ⟨noted, by simp [Leads], by simp [Leads, untraited]⟩
  | @next name edge rest ancestor found middle result inside named step _ ih =>
      obtain ⟨notedMiddle, listedMiddle, freeMiddle⟩ := step (noted.note inside _)
      obtain ⟨notedResult, listedResult, freeResult⟩ := ih notedMiddle
      have same {other : ClassInfo} (member : other ∈ graph.classes) :
          other.key = ancestor.key ↔ other = ancestor :=
        ⟨eq_of_key member inside, congrArg ClassInfo.key⟩
      refine ⟨notedResult, fun other member => ?_, fun other member => ?_⟩
      · rw [listedResult other member, listedMiddle other member, listed_noteAncestor,
          same member, leads_cons inside named, Relation.reflTransGen_iff_eq_or_transGen]
        grind
      · rw [freeResult other member, freeMiddle other member, free_noteAncestor, same member]
        by_cases apart : edge = .trait
        · subst apart
          simp [untraited]
        · have kept : untraited ((name, edge) :: rest) = (name, edge) :: untraited rest := by
            simp [untraited, apart]
          have flag : (byTrait || edge == .trait) = byTrait := by simp [apart]
          rw [kept, leads_cons inside named, Relation.reflTransGen_iff_eq_or_transGen, flag]
          grind

/-- The walk notes every ancestor, and once more what it reaches without traits. -/
theorem answers_collectAncestors {r : Reflector} {root : ClassInfo} {path : List ClassInfo}
    {room : Nat} (loaded : graph.LoadedBy r) (acyclic : ¬ graph.ReachesCycle root)
    (walked : graph.Walked path root info) (shallow : graph.Shallow room info)
    (byTrait : Bool) (found : OrderedMap NameKey Ancestor) :
    graph.Answers r path (collectAncestors room byTrait found info)
      fun result => graph.Noted found → graph.Gathered byTrait info found result := by
  induction room generalizing info path byTrait found with
  | zero => exact absurd shallow not_shallow_zero
  | succ room ih =>
      unfold collectAncestors
      refine (answers_above loaded acyclic walked (fun found ancestor edge walked names =>
        ih walked (shallow.step names) _ _) found).mono fun result folds noted => ?_
      obtain ⟨notedResult, listed, free⟩ := gathered_of_folds folds noted
      refine ⟨notedResult, fun other member => ?_, fun other member => ?_⟩
      · rw [listed other member, transGen_edge_iff]
      · rw [free other member, transGen_traitFree_iff]

theorem edges_of_traitFree {other : ClassInfo}
    (reached : Relation.TransGen graph.TraitFree info other) :
    Relation.TransGen graph.Edge info other :=
  Relation.TransGen.mono (fun _ _ free => TraitFree.edge free) _ _ reached

/-! What a whole walk has found. -/

section Whole

variable (gathered : graph.Gathered false info {} found)

include gathered

theorem Gathered.mem_iff {other : ClassInfo} :
    other ∈ found.values.map (·.info) ↔ Relation.TransGen graph.Edge info other := by
  have keyed := gathered.noted.keyed
  constructor
  · intro among
    obtain ⟨ancestor, listed, rfl⟩ := List.mem_map.mp among
    have reached := (gathered.listed ancestor.info (gathered.noted.inside ancestor listed)).mp
      ⟨ancestor, keyed.mem_values_iff.mp listed⟩
    simpa [Listed] using reached
  · intro reached
    have member := member_of_transGen reached
    obtain ⟨ancestor, known⟩ := (gathered.listed other member).mpr (.inr reached)
    have sameKey : other.key = ancestor.info.key := keyed.key_of_find? known
    rw [sameKey] at known
    have listed := keyed.mem_values_iff.mpr known
    have same := eq_of_key member (gathered.noted.inside ancestor listed) sameKey
    exact List.mem_map.mpr ⟨ancestor, listed, same.symm⟩

theorem Gathered.onlyByTrait_iff {entry : Ancestor} (listed : entry ∈ found.values) :
    entry.onlyByTrait = false ↔ Relation.TransGen graph.TraitFree info entry.info := by
  have known := gathered.noted.keyed.mem_values_iff.mp listed
  have free := gathered.free entry.info (gathered.noted.inside entry listed)
  simpa [Free, known] using free

theorem Gathered.exists_free_iff {P : ClassInfo → Prop} :
    (∃ entry ∈ found.values, entry.onlyByTrait = false ∧ P entry.info) ↔
      ∃ other, Relation.TransGen graph.TraitFree info other ∧ P other := by
  constructor
  · rintro ⟨entry, listed, free, meets⟩
    exact ⟨entry.info, (gathered.onlyByTrait_iff listed).mp free, meets⟩
  · rintro ⟨other, reached, meets⟩
    obtain ⟨entry, listed, rfl⟩ :=
      List.mem_map.mp (gathered.mem_iff.mpr (edges_of_traitFree reached))
    exact ⟨entry, listed, (gathered.onlyByTrait_iff listed).mpr reached, meets⟩

theorem Gathered.nodup_keys : (found.values.map (·.info.key)).Nodup :=
  gathered.noted.keyed.keys ▸ gathered.noted.keyed.nodup

end Whole

/-! The questions about ancestors. -/

section Questions

variable {r : Reflector} (loaded : graph.LoadedBy r) (idle : r.underway.classes = [])
  (member : info ∈ graph.classes) (shallow : graph.Shallow r.options.maxInheritanceDepth info)

include loaded idle member shallow

theorem ancestors_answered :
    ∃ found, graph.Gathered false info {} found ∧
      (Query.ancestors info).result r = .ok found.values := by
  obtain ⟨found, gathered, answered⟩ := Answers.values (collectAncestors · false {} info)
    (answers_collectAncestors loaded shallow.grounded.not_reachesCycle (.start member) shallow
      false {}) idle
  exact ⟨found, gathered noted_empty, answered⟩

theorem isSubclass_answered (name : String) :
    ∃ answer, (Query.isSubclass info name).result r = .ok answer ∧
      (answer = true ↔ ∃ other, Relation.TransGen graph.TraitFree info other ∧
        other.key = .folded (stripSeparator name)) := by
  unfold Query.isSubclass
  dsimp only
  split
  · rename_i own
    refine ⟨false, rfl, nofun, ?_⟩
    rintro ⟨other, reached, same⟩
    have edges := edges_of_traitFree reached
    obtain rfl := eq_of_key member (member_of_transGen edges) (own.trans same.symm)
    exact absurd ⟨info, .refl, edges⟩ shallow.grounded.not_reachesCycle
  · obtain ⟨found, gathered, answered⟩ := ancestors_answered loaded idle member shallow
    rw [result_bind_ok answered]
    refine ⟨_, rfl, ?_⟩
    rw [← gathered.exists_free_iff]
    simp

theorem isSubclass_iff {name : String} :
    (Query.isSubclass info name).result r = .ok true ↔
      ∃ other, Relation.TransGen graph.TraitFree info other ∧
        other.key = .folded (stripSeparator name) := by
  obtain ⟨answer, answered, reaches⟩ := isSubclass_answered loaded idle member shallow name
  rw [answered, ← reaches, Except.ok.injEq]

theorem interfaceNames_answered :
    ∃ names, (Query.interfaceNames info).result r = .ok names ∧ names.Nodup ∧
      ∀ name, name ∈ names ↔ ∃ other, Relation.TransGen graph.TraitFree info other ∧
        other.kind = .interface ∧ other.name = name := by
  obtain ⟨found, gathered, answered⟩ := ancestors_answered loaded idle member shallow
  unfold Query.interfaceNames
  rw [result_bind_ok answered]
  refine ⟨_, rfl, ?_, fun name => ?_⟩
  · refine List.Nodup.of_map NameKey.folded ?_
    rw [List.map_map]
    exact gathered.nodup_keys.sublist (List.filter_sublist.map _)
  · rw [← gathered.exists_free_iff]
    simp [and_assoc]

end Questions

end ClassGraph

/-! Classes of which some are met through a trait first. -/

namespace Diamond

/-- Knows `interface J {}`, `interface I extends J {}`, `trait T implements I {}`,
`class P { use T; }` and `class C extends P implements I {}`. -/
def reflector : Reflector :=
  Looped.knowing
    [Family.classOf .interface "J" [] [], Family.classOf .interface "I" ["J"] [],
      .classLike ⟨.trait, "T", .none, [], ["I"], none, [], none⟩,
      .traitUse ["T"], Family.classOf .plain "P" [] [3],
      .classLike ⟨.plain, "C", .none, ["P"], ["i"], none, [], none⟩,
      .sourceFile "/looped.php" [0, 1, 2, 4, 5]]

def graph : ClassGraph reflector.index where
  classes := reflector.index.knownClasses
  known := (List.map_inj_left (g := some)).mp rfl
  closed := by decide

end Diamond

/-- Questions about ancestors are questions of reachability. If all classes of a hierarchy
load when they are named, and no chain of them is longer than the bound (so that there is no
cycle), then the ancestors of a class are those that chains of declarations lead to, each
once, and they count as reached only by traits unless a chain without traits leads to them;
those that such a chain leads to are the classes of which it is a subclass, and the
interfaces among them its interfaces. No class is a subclass of itself, and a class is a
subclass of what a class above it is one of. -/
theorem ancestry_is_reachability {index : EntityIndex} (graph : ClassGraph index)
    {r : Reflector} (loaded : graph.LoadedBy r) (idle : r.underway.classes = [])
    {info : ClassInfo} (member : info ∈ graph.classes)
    (shallow : graph.Shallow r.options.maxInheritanceDepth info) :
    (∃ list, (Query.ancestors info).result r = .ok list ∧ (list.map (·.info)).Nodup ∧
      (∀ other, other ∈ list.map (·.info) ↔ Relation.TransGen graph.Edge info other) ∧
      ∀ entry ∈ list, entry.onlyByTrait = false ↔
        Relation.TransGen graph.TraitFree info entry.info) ∧
    (∀ name, ∃ answer, (Query.isSubclass info name).result r = .ok answer ∧
      (answer = true ↔ ∃ other, Relation.TransGen graph.TraitFree info other ∧
        other.key = .folded (stripSeparator name))) ∧
    (∃ names, (Query.interfaceNames info).result r = .ok names ∧ names.Nodup ∧
      ∀ name, name ∈ names ↔ ∃ other, Relation.TransGen graph.TraitFree info other ∧
        other.kind = .interface ∧ other.name = name) ∧
    (∀ name, NameKey.folded (stripSeparator name) = info.key →
      (Query.isSubclass info name).result r = .ok false) ∧
    ∀ middle first last, middle ∈ graph.classes →
      NameKey.folded (stripSeparator first) = middle.key →
      (Query.isSubclass info first).result r = .ok true →
      (Query.isSubclass middle last).result r = .ok true →
        (Query.isSubclass info last).result r = .ok true := by
  have subclass := ClassGraph.isSubclass_answered loaded idle member shallow
  refine ⟨?_, subclass, ClassGraph.interfaceNames_answered loaded idle member shallow, ?_, ?_⟩
  · obtain ⟨found, gathered, answered⟩ :=
      ClassGraph.ancestors_answered loaded idle member shallow
    refine ⟨found.values, answered, ?_, fun _ => gathered.mem_iff,
      fun _ => gathered.onlyByTrait_iff⟩
    refine List.Nodup.of_map ClassInfo.key ?_
    rw [List.map_map]
    exact gathered.nodup_keys
  · intro name same
    unfold Query.isSubclass
    rw [if_pos same.symm]
    rfl
  · intro middle first last among named above aboveMiddle
    rw [ClassGraph.isSubclass_iff loaded idle member shallow] at above ⊢
    obtain ⟨other, reached, same⟩ := above
    have edges := ClassGraph.edges_of_traitFree reached
    obtain rfl := ClassGraph.eq_of_key among (ClassGraph.member_of_transGen edges)
      (named.symm.trans same.symm)
    rw [ClassGraph.isSubclass_iff loaded idle among (shallow.mono_reached edges.to_reflTransGen)]
      at aboveMiddle
    obtain ⟨top, higher, sameTop⟩ := aboveMiddle
    exact ⟨top, reached.trans higher, sameTop⟩

open Diamond in
/-- The walk from `C` meets `I` and `J` through the trait of `P` first. -/
theorem interface_behind_trait_is_reached :
    ∃ child ∈ graph.classes, child.name = "C" ∧ graph.LoadedBy reflector ∧
      graph.Shallow reflector.options.maxInheritanceDepth child ∧
      (∃ list, (Query.ancestors child).result reflector = .ok list ∧
        list.map (fun entry => (entry.info.name, entry.onlyByTrait)) =
          [("P", false), ("T", true), ("I", false), ("J", false)]) ∧
      ∃ top, Relation.TransGen graph.TraitFree child top ∧ top.key = .folded "J" := by
  let described (list : List Hierarchy.Ancestor) : List (String × Bool) :=
    list.map fun entry => (entry.info.name, entry.onlyByTrait)
  have given : graph.classes[4]?.map (fun child => (child.name,
      ((Query.ancestors child).result reflector).toOption.map described,
      ((Query.isSubclass child "J").result reflector).toOption)) =
        some ("C", some [("P", false), ("T", true), ("I", false), ("J", false)], some true) := by
    decide +kernel
  obtain ⟨child, listed, given⟩ := Option.map_eq_some_iff.mp given
  simp only [Prod.mk.injEq, Option.map_eq_some_iff] at given
  obtain ⟨named, ⟨list, answered, entries⟩, subclass⟩ := given
  have member := List.mem_of_getElem? listed
  have loaded : graph.LoadedBy reflector := ClassGraph.loadedBy_of_known rfl
  have shallow : graph.Shallow reflector.options.maxInheritanceDepth child := by
    let rank (info : ClassInfo) : Nat := ["J", "I", "T", "P", "C"].idxOf info.name
    have falls : ∀ info ∈ graph.classes, ∀ ancestor ∈ graph.classes, info.Names ancestor →
        rank ancestor < rank info := by decide +kernel
    exact ClassGraph.shallow_of_rank falls member (by simp only [rank, named]; decide)
  obtain ⟨_, isSubclass, _⟩ := ancestry_is_reachability graph loaded rfl member shallow
  obtain ⟨answer, same, reaches⟩ := isSubclass "J"
  obtain rfl : answer = true :=
    Except.ok.inj (same.symm.trans (Query.ok_of_toOption subclass))
  exact ⟨child, member, named, loaded, shallow,
    ⟨list, Query.ok_of_toOption answered, entries⟩, reaches.mp rfl⟩

end StaticReflection
