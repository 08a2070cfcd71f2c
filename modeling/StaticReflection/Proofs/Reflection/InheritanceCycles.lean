import Mathlib.Data.List.Chain
import Mathlib.Data.List.Nodup
import Mathlib.Data.List.Perm.Subperm
import Mathlib.Data.List.TakeWhile
import Mathlib.Logic.Relation
import StaticReflection.Proofs.Reflection.MemberListing

namespace StaticReflection

/-! Walks over the ancestors of a class. A walk keeps no record of the classes that it has
left, only the chain of those that it is in; it ends with a cycle exactly if a class that it
can reach is its own ancestor. -/

/-- The class names another one as its parent, as an interface or as a trait. -/
def ClassInfo.Names (info ancestor : ClassInfo) : Prop :=
  ∃ entry ∈ info.ancestorNames, NameKey.folded (stripSeparator entry.1) = ancestor.key

/-- The classes that are known, in the order in which they became so. -/
def EntityIndex.knownClasses (index : EntityIndex) : List ClassInfo :=
  index.classes.keys.filterMap (index.info? .classLike)

/-- Classes that are all known by their names, together with every ancestor that one of
them names. -/
structure ClassGraph (index : EntityIndex) where
  classes : List ClassInfo
  known : ∀ info ∈ classes, index.class? info.name = some info
  closed : ∀ info ∈ classes, ∀ entry ∈ info.ancestorNames,
    ∃ ancestor ∈ classes, NameKey.folded (stripSeparator entry.1) = ancestor.key

namespace ClassGraph

variable {index : EntityIndex} (graph : ClassGraph index)

def Edge (info ancestor : ClassInfo) : Prop :=
  ancestor ∈ graph.classes ∧ info.Names ancestor

/-- A class that is its own ancestor can be reached. -/
def ReachesCycle (info : ClassInfo) : Prop :=
  ∃ ancestor, Relation.ReflTransGen graph.Edge info ancestor ∧
    Relation.TransGen graph.Edge ancestor ancestor

/-- Nothing but finite chains of ancestors starts at the class. -/
def Grounded (info : ClassInfo) : Prop :=
  Acc (fun ancestor info => graph.Edge info ancestor) info

/-- A chain of names that goes round: from a class, over classes each of which the one
before names, to the first class again. No class but the first comes twice. -/
def IsCycle (chain : List String) : Prop :=
  ∃ first others, chain = (first :: others ++ [first]).map (·.name) ∧
    (∀ info ∈ first :: others, info ∈ graph.classes) ∧
    ((first :: others).map (·.key)).Nodup ∧
    (first :: others ++ [first]).IsChain ClassInfo.Names

variable {graph} {info ancestor : ClassInfo}

theorem eq_of_key (member : info ∈ graph.classes) (memberToo : ancestor ∈ graph.classes)
    (same : info.key = ancestor.key) : info = ancestor := by
  have known := graph.known info member
  unfold EntityIndex.class? at known
  rw [← ClassInfo.key, same] at known
  exact Option.some.inj (known.symm.trans (graph.known ancestor memberToo))

theorem class?_eq {name : String} (member : ancestor ∈ graph.classes)
    (named : NameKey.folded (stripSeparator name) = ancestor.key) :
    index.class? (stripSeparator name) = some ancestor := by
  unfold EntityIndex.class?
  rw [named]
  exact graph.known ancestor member

theorem Grounded.not_reachesCycle (grounded : graph.Grounded info) :
    ¬ graph.ReachesCycle info := by
  rintro ⟨ancestor, reached, cycle⟩
  have below : graph.Grounded ancestor := by
    clear cycle
    induction reached with
    | refl => exact grounded
    | tail _ last ih => exact ih.inv last
  clear reached
  induction below with
  | intro ancestor _ ih =>
      obtain ⟨next, first, rest⟩ := Relation.TransGen.head'_iff.mp cycle
      exact ih next first (Relation.TransGen.tail' rest first)

/-! The chain of classes that a walk is in. -/

/-- The walk has come from the first class of a chain to a class that the last one names. -/
structure Walked (graph : ClassGraph index) (path : List ClassInfo) (root info : ClassInfo) :
    Prop where
  inside : ∀ entry ∈ path ++ [info], entry ∈ graph.classes
  linked : (path ++ [info]).IsChain ClassInfo.Names
  distinct : (path.map (·.key)).Nodup
  reached : Relation.ReflTransGen graph.Edge root info

variable {path : List ClassInfo} {root : ClassInfo}

theorem Walked.member (walked : graph.Walked path root info) : info ∈ graph.classes :=
  walked.inside info (by simp)

theorem Walked.start (member : info ∈ graph.classes) : graph.Walked [] info info where
  inside := by simpa using member
  linked := .singleton _
  distinct := List.nodup_nil
  reached := .refl

theorem Walked.distinct_concat (walked : graph.Walked path root info)
    (fresh : info.key ∉ path.map (·.key)) : ((path ++ [info]).map (·.key)).Nodup := by
  rw [List.map_append]
  refine List.nodup_append.mpr ⟨walked.distinct, by simp, fun key earlier other last same => ?_⟩
  rw [List.map_singleton, List.mem_singleton] at last
  exact fresh (last ▸ same ▸ earlier)

theorem Walked.step (walked : graph.Walked path root info)
    (fresh : info.key ∉ path.map (·.key)) (edge : graph.Edge info ancestor) :
    graph.Walked (path ++ [info]) root ancestor where
  inside entry member := by
    rcases List.mem_append.mp member with earlier | last
    · exact walked.inside entry earlier
    · rw [List.mem_singleton.mp last]
      exact edge.1
  linked := by
    refine List.isChain_append.mpr ⟨walked.linked, .singleton _, ?_⟩
    simpa using edge.2
  distinct := walked.distinct_concat fresh
  reached := walked.reached.tail edge

/-- A walk that meets no class twice is not longer than the graph. -/
theorem Walked.length_lt (walked : graph.Walked path root info)
    (fresh : info.key ∉ path.map (·.key)) : path.length < graph.classes.length := by
  have among : (path ++ [info]).map (·.key) ⊆ graph.classes.map (·.key) := by
    intro key member
    obtain ⟨entry, listed, rfl⟩ := List.mem_map.mp member
    exact List.mem_map_of_mem (walked.inside entry listed)
  have lengths := ((walked.distinct_concat fresh).subperm among).length_le
  simp only [List.length_map, List.length_append, List.length_singleton] at lengths
  omega

theorem cycleFrom?_eq_none (fresh : info.key ∉ path.map (·.key)) :
    Hierarchy.cycleFrom? (path.map (·.name)) info.name = none := by
  unfold Hierarchy.cycleFrom?
  rw [List.dropWhile_eq_nil_iff.mpr]
  intro name member
  obtain ⟨entry, listed, rfl⟩ := List.mem_map.mp member
  simp only [decide_eq_true_eq]
  intro same
  exact fresh (List.mem_map.mpr ⟨entry, listed, same⟩)

theorem cycleFrom?_of_split {before after : List ClassInfo}
    (others : ∀ entry ∈ before, entry.key ≠ info.key) :
    Hierarchy.cycleFrom? ((before ++ info :: after).map (·.name)) info.name =
      some ((info :: after ++ [info]).map (·.name)) := by
  unfold Hierarchy.cycleFrom?
  rw [List.map_append, List.dropWhile_append_of_pos, List.map_cons, List.dropWhile_cons_of_neg]
  · simp
  · simp
  · intro name member
    obtain ⟨entry, listed, rfl⟩ := List.mem_map.mp member
    simp only [decide_eq_true_eq]
    exact others entry listed

theorem Walked.transGen (walked : graph.Walked path root info) (again : info ∈ path) :
    Relation.TransGen graph.Edge info info := by
  have edges : (path ++ [info]).IsChain (Relation.TransGen graph.Edge) :=
    walked.linked.imp_of_mem_imp fun _ ancestor _ member names =>
      .single ⟨walked.inside ancestor member, names⟩
  exact (List.pairwise_append.mp edges.pairwise).2.2 info again info
    (List.mem_singleton_self _)

theorem Walked.exists_cycle (walked : graph.Walked path root info)
    (again : info.key ∈ path.map (·.key)) :
    ∃ chain, Hierarchy.cycleFrom? (path.map (·.name)) info.name = some chain ∧
      graph.IsCycle chain ∧ graph.ReachesCycle root := by
  have inside : ∀ entry ∈ path, entry ∈ graph.classes :=
    fun entry listed => walked.inside entry (List.mem_append_left _ listed)
  obtain ⟨entry, listed, sameKey⟩ := List.mem_map.mp again
  obtain rfl := eq_of_key (inside entry listed) walked.member sameKey
  obtain ⟨before, after, split, first⟩ := List.eq_append_cons_of_mem listed
  have others : ∀ other ∈ before, other.key ≠ entry.key := by
    intro other earlier same
    have known := inside other (split ▸ List.mem_append_left _ earlier)
    exact first (eq_of_key known walked.member same ▸ earlier)
  have suffix : entry :: after <:+ path := split ▸ List.suffix_append _ _
  refine ⟨(entry :: after ++ [entry]).map (·.name), ?_, ⟨entry, after, rfl, ?_, ?_, ?_⟩,
    entry, walked.reached, walked.transGen listed⟩
  · rw [split]
    exact cycleFrom?_of_split others
  · exact fun other member => inside other (suffix.subset member)
  · exact walked.distinct.sublist (suffix.sublist.map _)
  · have linked := walked.linked
    rw [split, List.append_assoc] at linked
    exact linked.right_of_append

end ClassGraph

/-! Walks. -/

namespace Hierarchy

open Query

/-- The query walks over a class and its ancestors, at most `room` classes deep. -/
inductive Visits {β : Type} : Nat → ClassInfo → Query β → Prop
  | last (info : ClassInfo) : Visits 0 info (do refuseCycle info; tooDeep info)
  | above {room : Nat} {info : ClassInfo} {found : β}
      {visit : β → ClassInfo → AncestorEdge → Query β}
      (each : ∀ found ancestor edge, Visits room ancestor (visit found ancestor edge)) :
      Visits (room + 1) info (aboveClass info (foldAncestors visit found info.ancestorNames))

theorem collectMembers_visits {α : Type} (kind : MemberKind α) (room : Nat) (inherited : Bool)
    (found : OrderedMap NameKey α) (info : ClassInfo) :
    Visits room info (collectMembers kind room inherited found info) := by
  induction room generalizing inherited found info with
  | zero => exact .last info
  | succ room ih => exact .above fun found ancestor edge => ih _ found ancestor

theorem collectAncestors_visits (room : Nat) (byTrait : Bool)
    (found : OrderedMap NameKey Ancestor) (info : ClassInfo) :
    Visits room info (collectAncestors room byTrait found info) := by
  induction room generalizing byTrait found info with
  | zero => exact .last info
  | succ room ih => exact .above fun found ancestor edge => ih _ _ ancestor

end Hierarchy

namespace ClassGraph

open Hierarchy Query

variable {index : EntityIndex} {graph : ClassGraph index} {β : Type} {r : Reflector}
  {path : List ClassInfo} {root info : ClassInfo}

/-- The query has an answer and all that it visited is grounded, or it has met a cycle. It
loads nothing. -/
structure Ends (graph : ClassGraph index) (root : ClassInfo) (grounded : Prop)
    (query : Query β) (r : Reflector) : Prop where
  next : Note r (query.next r)
  outcome : (∃ value, query.result r = .ok value) ∧ grounded ∨
    ∃ chain, query.result r = .error (.inheritanceCycle chain) ∧ graph.IsCycle chain ∧
      graph.ReachesCycle root

theorem ends_foldAncestors {visit : β → ClassInfo → AncestorEdge → Query β}
    (known : r.index = index) (member : info ∈ graph.classes)
    (each : ∀ found ancestor edge s, graph.Edge info ancestor → Note r s →
      graph.Ends root (graph.Grounded ancestor) (visit found ancestor edge) s)
    (names : List (String × AncestorEdge)) (among : names ⊆ info.ancestorNames) (found : β) :
    graph.Ends root
      (∀ ancestor ∈ graph.classes,
        (∃ entry ∈ names, NameKey.folded (stripSeparator entry.1) = ancestor.key) →
          graph.Grounded ancestor)
      (foldAncestors visit found names) r := by
  induction names generalizing found r with
  | nil => exact ⟨refl r, .inl ⟨⟨found, rfl⟩, by simp⟩⟩
  | cons entry names ih =>
      obtain ⟨name, edge⟩ := entry
      have declared := among List.mem_cons_self
      obtain ⟨ancestor, inside, named⟩ := graph.closed info member _ declared
      have here : r.index.class? (stripSeparator name) = some ancestor := by
        rw [known]
        exact class?_eq inside named
      obtain ⟨answered, noted⟩ := classNamed_of_known here
      obtain ⟨visitNoted, outcome⟩ :=
        each found ancestor edge _ ⟨inside, _, declared, named⟩ noted
      have both := IsTrans.trans _ _ _ noted visitNoted
      unfold foldAncestors
      rcases outcome with ⟨⟨value, visited⟩, grounded⟩ | ⟨chain, failed, cycle, reaches⟩
      · obtain ⟨next, rest⟩ := ih (both.index.trans known)
          (fun found ancestor edge s names note =>
            each found ancestor edge s names (IsTrans.trans _ _ _ both note))
          (fun _ listed => among (List.mem_cons_of_mem _ listed)) value
        constructor
        · rw [next_bind_ok answered, next_bind_ok visited]
          exact IsTrans.trans _ _ _ both next
        · rw [result_bind_ok answered, result_bind_ok visited]
          refine rest.imp_left fun ends => ⟨ends.1, fun other listed naming => ?_⟩
          obtain ⟨entry, position, same⟩ := naming
          rcases List.mem_cons.mp position with rfl | later
          · rw [← eq_of_key inside listed (named.symm.trans same)]
            exact grounded
          · exact ends.2 other listed ⟨entry, later, same⟩
      · constructor
        · rw [next_bind_ok answered, next_bind_error failed]
          exact both
        · rw [result_bind_ok answered, result_bind_error failed]
          exact .inr ⟨chain, rfl, cycle, reaches⟩

theorem ends_visits {query : Query β} {room : Nat} (visits : Visits room info query)
    (walked : graph.Walked path root info) (known : r.index = index)
    (under : r.underway.classes = path.map (·.name))
    (enough : graph.classes.length ≤ path.length + room) :
    graph.Ends root (graph.Grounded info) query r := by
  induction visits generalizing path r with
  | last info =>
      have again : info.key ∈ path.map (·.key) := by
        by_contra fresh
        have shorter := walked.length_lt fresh
        omega
      obtain ⟨chain, found, cycle⟩ := walked.exists_cycle again
      rw [← under] at found
      refine ⟨?_, .inr ⟨chain, ?_, cycle⟩⟩
      · unfold refuseCycle
        rw [bind_assoc, next_get_bind, found]
        exact refl r
      · rw [tooDeep_result, found]
  | @above room info found visit each ih =>
      by_cases fresh : info.key ∈ path.map (·.key)
      · obtain ⟨chain, found, cycle⟩ := walked.exists_cycle fresh
        rw [← under] at found
        refine ⟨?_, .inr ⟨chain, ?_, cycle⟩⟩
        · unfold aboveClass refuseCycle
          rw [bind_assoc, next_get_bind, found]
          exact refl r
        · rw [aboveClass_result, found]
      · have acyclic := cycleFrom?_eq_none fresh
        rw [← under] at acyclic
        let entered := r.withUnderway (r.underway.enterClass info.name)
        have underEntered : entered.underway.classes = (path ++ [info]).map (·.name) := by
          change r.underway.classes ++ [info.name] = _
          rw [under, List.map_append, List.map_singleton]
        have deeper : graph.classes.length ≤ (path ++ [info]).length + room := by
          rw [List.length_append, List.length_singleton]
          omega
        have each : ∀ found ancestor edge s, graph.Edge info ancestor → Note entered s →
            graph.Ends root (graph.Grounded ancestor) (visit found ancestor edge) s :=
          fun found ancestor edge s names note =>
            ih found ancestor edge (walked.step fresh names) (note.index.trans known)
              ((congrArg Underway.classes note.underway).trans underEntered) deeper
        have ends := ends_foldAncestors (r := entered) known walked.member each info.ancestorNames
          (List.Subset.refl _) found
        constructor
        · rw [aboveClass_next acyclic]
          exact ends.next.outside (Underway.leaveClass_enterClass info.name)
        · rw [aboveClass_result, acyclic]
          refine ends.outcome.imp_left fun ⟨done, grounded⟩ => ⟨done, ?_⟩
          exact .intro info fun ancestor edge => grounded ancestor edge.1 edge.2

/-- What a walk from a class gives, and what is made of its outcome. -/
theorem ends_ofVisits {query : Query β} {room : Nat} (visits : Visits room info query)
    (member : info ∈ graph.classes) (known : r.index = index)
    (idle : r.underway.classes = []) (enough : graph.classes.length ≤ room) :
    graph.Ends info (¬ graph.ReachesCycle info) query r := by
  obtain ⟨next, outcome⟩ :=
    ends_visits visits (.start member) known idle (by simpa using enough)
  exact ⟨next, outcome.imp_left fun ⟨done, grounded⟩ => ⟨done, grounded.not_reachesCycle⟩⟩

theorem Ends.congr {grounded : Prop} {query other : Query β}
    (ends : graph.Ends root grounded query r) (same : other r = query r) :
    graph.Ends root grounded other r := by
  obtain ⟨next, outcome⟩ := ends
  unfold Query.next at next
  unfold Query.result at outcome
  rw [← same] at next outcome
  exact ⟨next, outcome⟩

theorem Ends.map {γ : Type} {grounded : Prop} {query : Query β}
    (ends : graph.Ends root grounded query r) (f : β → γ) :
    graph.Ends root grounded (query >>= fun value => pure (f value)) r := by
  obtain ⟨next, ⟨⟨value, answered⟩, holds⟩ | ⟨chain, failed, cycle⟩⟩ := ends
  · refine ⟨?_, .inl ⟨⟨f value, ?_⟩, holds⟩⟩
    · rw [next_bind_ok answered, next_pure]
      exact next
    · rw [result_bind_ok answered, result_pure]
  · refine ⟨?_, .inr ⟨chain, ?_, cycle⟩⟩
    · rw [next_bind_error failed]
      exact next
    · rw [result_bind_error failed]

/-- The query fails with a cycle exactly if one can be reached, and answers otherwise. -/
structure Detects (graph : ClassGraph index) (info : ClassInfo) (query : Query β)
    (r : Reflector) : Prop where
  cycle_iff : (∃ chain, query.result r = .error (.inheritanceCycle chain)) ↔
    graph.ReachesCycle info
  answers : ¬ graph.ReachesCycle info → ∃ value, query.result r = .ok value
  genuine : ∀ chain, query.result r = .error (.inheritanceCycle chain) → graph.IsCycle chain

theorem Ends.detects {query : Query β}
    (ends : graph.Ends info (¬ graph.ReachesCycle info) query r) :
    graph.Detects info query r := by
  obtain ⟨_, ⟨⟨value, answered⟩, unreached⟩ | ⟨chain, failed, cycle, reaches⟩⟩ := ends
  · refine ⟨⟨?_, fun reaches => absurd reaches unreached⟩, fun _ => ⟨value, answered⟩, ?_⟩
    · rintro ⟨chain, failed⟩
      cases answered.symm.trans failed
    · intro chain failed
      cases answered.symm.trans failed
  · refine ⟨⟨fun _ => reaches, fun _ => ⟨chain, failed⟩⟩, fun missed => absurd reaches missed, ?_⟩
    intro other failedToo
    cases failed.symm.trans failedToo
    exact cycle

end ClassGraph

/-! Classes with cycles. -/

namespace Looped

def arena (nodes : List Node) : Arena :=
  ⟨(nodes.map fun node => (node, ⟨0, 0⟩)).toArray⟩

/-- Knows the classes among some nodes, the last of which holds all of them. -/
def knowing (nodes : List Node) : Reflector where
  index := .ofFiles
    [{ path := "/looped.php"
       text := []
       lines := ⟨[0]⟩
       arena := arena nodes
       root := nodes.length - 1
       diagnostics := []
       blocks := namespaceBlocks ⟨arena nodes, ⟨[0]⟩⟩ (nodes.length - 1) }]

/-- Knows `trait T { use U; }`, `trait U { use T; }`, `class P { use t; }` and
`class C extends P {}`. -/
def pair : Reflector :=
  knowing
    [.traitUse ["U"], Family.classOf .trait "T" [] [0],
      .traitUse ["T"], Family.classOf .trait "U" [] [2],
      .traitUse ["t"], Family.classOf .plain "P" [] [4],
      Family.classOf .plain "C" ["P"] [],
      .sourceFile "/looped.php" [1, 3, 5, 6]]

def pairGraph : ClassGraph pair.index where
  classes := pair.index.knownClasses
  known := (List.map_inj_left (g := some)).mp rfl
  closed := by decide

/-- Knows `class A extends A {}`. -/
def single : Reflector :=
  knowing [Family.classOf .plain "A" ["A"] [], .sourceFile "/looped.php" [0]]

def singleGraph : ClassGraph single.index where
  classes := single.index.knownClasses
  known := (List.map_inj_left (g := some)).mp rfl
  closed := by decide

end Looped

/-- Inheritance cycles are detected exactly. Among classes whose named ancestors are all
known, and with room for as many classes, the ancestors, the interfaces and the members of a
class are refused for a cycle exactly if a class that is its own ancestor can be reached, and
are given otherwise; the chain that is reported is such a cycle. Whether a class is a
subclass of another is answered in the same way, but no class is a subclass of itself. -/
theorem inheritance_cycles_detected {r : Reflector} (graph : ClassGraph r.index)
    {info : ClassInfo} (member : info ∈ graph.classes) (idle : r.underway.classes = [])
    (enough : graph.classes.length ≤ r.options.maxInheritanceDepth) :
    graph.Detects info (Query.ancestors info) r ∧
    graph.Detects info (Query.interfaceNames info) r ∧
    (∀ (α : Type) (kind : MemberKind α), graph.Detects info (Query.members kind info) r) ∧
    ∀ name,
      (NameKey.folded (stripSeparator name) ≠ info.key →
        graph.Detects info (Query.isSubclass info name) r) ∧
      (NameKey.folded (stripSeparator name) = info.key →
        (Query.isSubclass info name).result r = .ok false) := by
  let room := r.options.maxInheritanceDepth - r.underway.classes.length
  have fits : graph.classes.length ≤ room := by
    simpa [room, idle] using enough
  have ancestors : graph.Ends info (¬ graph.ReachesCycle info) (Query.ancestors info) r := by
    have visits := Hierarchy.collectAncestors_visits room false {} info
    have walk := ClassGraph.ends_ofVisits visits member rfl idle fits
    exact (walk.map (·.values)).congr rfl
  refine ⟨ancestors.detects, (ancestors.map _).detects, fun α kind => ?_, fun name => ⟨?_, ?_⟩⟩
  · have visits := Hierarchy.collectMembers_visits kind room false {} info
    have walk := ClassGraph.ends_ofVisits visits member rfl idle fits
    have ends : graph.Ends info _ (Query.members kind info) r :=
      (walk.map (·.values)).congr rfl
    exact ends.detects
  · intro other
    unfold Query.isSubclass
    rw [if_neg (Ne.symm other)]
    exact (ancestors.map _).detects
  · intro same
    unfold Query.isSubclass
    rw [if_pos same.symm]
    rfl

open Looped in
/-- From `C` the walk comes over `P` to the cycle of the two traits. -/
theorem cycle_of_traits_detected :
    ∃ child ∈ pairGraph.classes, child.name = "C" ∧ pair.underway.classes = [] ∧
      pairGraph.classes.length ≤ pair.options.maxInheritanceDepth ∧
      (Query.ancestors child).result pair = .error (.inheritanceCycle ["T", "U", "T"]) ∧
      pairGraph.ReachesCycle child ∧ pairGraph.IsCycle ["T", "U", "T"] := by
  obtain ⟨child, listed, named, refused⟩ : ∃ child, pairGraph.classes[3]? = some child ∧
      child.name = "C" ∧
      (Query.ancestors child).result pair = .error (.inheritanceCycle ["T", "U", "T"]) :=
    ⟨_, rfl, rfl, by decide +kernel⟩
  have member := List.mem_of_getElem? listed
  obtain ⟨detects, _⟩ := inheritance_cycles_detected pairGraph member rfl (by decide)
  exact ⟨child, member, named, rfl, by decide, refused, detects.cycle_iff.mp ⟨_, refused⟩,
    detects.genuine _ refused⟩

open Looped in
/-- A class that extends itself is its own ancestor, and still the question whether it is a
subclass of itself is answered. -/
theorem own_name_not_refused :
    ∃ info ∈ singleGraph.classes, single.underway.classes = [] ∧
      singleGraph.classes.length ≤ single.options.maxInheritanceDepth ∧
      singleGraph.ReachesCycle info ∧
      (Query.isSubclass info info.name).result single = .ok false := by
  obtain ⟨info, listed⟩ : ∃ info, singleGraph.classes[0]? = some info := ⟨_, rfl⟩
  have member := List.mem_of_getElem? listed
  have extendsItself : ∀ info ∈ singleGraph.classes, ∃ entry ∈ info.ancestorNames,
      NameKey.folded (stripSeparator entry.1) = info.key := by decide
  have same : ∀ info ∈ singleGraph.classes,
      info.key = NameKey.folded (stripSeparator info.name) := by decide
  refine ⟨info, member, rfl, by decide,
    ⟨info, .refl, .single ⟨member, extendsItself info member⟩⟩, ?_⟩
  unfold Query.isSubclass
  rw [if_pos (same info member)]
  rfl

end StaticReflection
