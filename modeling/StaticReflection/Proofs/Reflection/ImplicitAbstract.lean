import StaticReflection.Proofs.Reflection.LoadedAncestors

namespace StaticReflection

/-! When a class is abstract without saying so: a method that look-up finds is abstract.
Traits come last, so a body from a trait counts only where nothing abstract comes before. -/

/-! What a listing holds, once all classes load. -/

namespace EntityIndex

variable {α : Type} {index : EntityIndex} {kind : MemberKind α} {key : NameKey}

/-- A search through a class and its ancestors goes on with other classes. -/
theorem Finds.among {inherited : Bool} {name : String} {info : ClassInfo}
    {rest : List (Bool × String)} {found other : Option α}
    (here : index.Finds kind key inherited info found)
    (known : index.class? (stripSeparator name) = some info)
    (others : index.FindsAmong kind key rest other) :
    index.FindsAmong kind key ((inherited, name) :: rest) (found <|> other) := by
  cases here with
  | own own => exact .own known own
  | above own among =>
      refine .above known own (among.append ?_ ?_)
      · rintro rfl
        exact others
      · rintro member rfl
        rfl

/-- A search that goes on after some classes has not found anything among them. -/
theorem FindsAmong.split {pending rest : List (Bool × String)} {found : Option α}
    (both : index.FindsAmong kind key (pending ++ rest) found) :
    ∃ first, index.FindsAmong kind key pending first ∧
      (first = none → index.FindsAmong kind key rest found) ∧
      ∀ member, first = some member → found = some member := by
  generalize whole : pending ++ rest = names at both
  induction both generalizing pending with
  | nothing =>
      obtain ⟨rfl, rfl⟩ := List.append_eq_nil_iff.mp whole
      exact ⟨none, .nothing, fun _ => .nothing, nofun⟩
  | own known own =>
      cases pending with
      | nil =>
          subst whole
          exact ⟨none, .nothing, fun _ => .own known own, nofun⟩
      | cons entry others =>
          cases whole
          exact ⟨_, .own known own, nofun, fun _ same => same⟩
  | above known own among ih =>
      cases pending with
      | nil =>
          subst whole
          exact ⟨none, .nothing, fun _ => .above known own among, nofun⟩
      | cons entry others =>
          cases whole
          obtain ⟨first, before, after, kept⟩ := ih (List.append_assoc _ others rest)
          exact ⟨first, .above known own before, after, kept⟩

end EntityIndex

namespace ClassGraph

open Hierarchy Query

variable {index : EntityIndex} {graph : ClassGraph index} {α : Type} {kind : MemberKind α}
  {nameOf : α → String} {info : ClassInfo}

/-- The listing goes on from the members found before with those that look-up finds. -/
structure Continues (kind : MemberKind α) (nameOf : α → String)
    (finds : NameKey → Option α → Prop) (found result : OrderedMap NameKey α) : Prop where
  keyed : found.KeyedBy (fun member => kind.key (nameOf member)) →
    result.KeyedBy fun member => kind.key (nameOf member)
  finds : ∀ key, ∃ member, finds key member ∧ result.find? key = (found.find? key <|> member)

theorem continues_of_folds {inherited : Bool} {names : List (String × AncestorEdge)}
    {found result : OrderedMap NameKey α}
    (folds : graph.Folds (fun ancestor edge => Continues kind nameOf
      fun key => index.Finds kind key (inherited || edge != .trait) ancestor) names found result) :
    Continues kind nameOf (fun key => index.FindsAmong kind key
      (names.map fun (name, edge) => (inherited || edge != .trait, name))) found result := by
  induction folds with
  | done => exact ⟨id, fun _ => ⟨none, .nothing, by simp⟩⟩
  | next inside named step _ ih =>
      refine ⟨fun keyed => ih.keyed (step.keyed keyed), fun key => ?_⟩
      obtain ⟨first, here, middle⟩ := step.finds key
      obtain ⟨other, others, last⟩ := ih.finds key
      refine ⟨first <|> other, here.among (class?_eq inside named) others, ?_⟩
      rw [last, middle]
      simp [Option.or_assoc]

theorem answers_collectMembers {r : Reflector} {root : ClassInfo} {path : List ClassInfo}
    {room : Nat} (names : kind.Names nameOf) (loaded : graph.LoadedBy r)
    (acyclic : ¬ graph.ReachesCycle root) (walked : graph.Walked path root info)
    (shallow : graph.Shallow room info) (inherited : Bool) (found : OrderedMap NameKey α) :
    graph.Answers r path (collectMembers kind room inherited found info)
      (Continues kind nameOf (fun key => index.Finds kind key inherited info) found) := by
  induction room generalizing info path inherited found with
  | zero => exact absurd shallow not_shallow_zero
  | succ room ih =>
      have declared : info.IsDeclared :=
        EntityIndex.isDeclared_of_class? (graph.known info walked.member)
      unfold collectMembers
      refine (answers_above loaded acyclic walked (fun found ancestor edge walked names =>
        ih walked (shallow.step names) _ _) _).mono fun result folds => ?_
      have above := continues_of_folds folds
      refine ⟨fun keyed => above.keyed (keyedBy_addOwn names declared inherited keyed),
        fun key => ?_⟩
      obtain ⟨member, among, given⟩ := above.finds key
      rw [find?_addOwn names declared] at given
      cases own : kind.own? key inherited info with
      | some first =>
          rw [own] at given
          refine ⟨some first, .own own, ?_⟩
          rw [given]
          cases found.find? key <;> simp
      | none =>
          rw [own] at given
          exact ⟨member, .above own among, by simpa using given⟩

section Answered

variable {r : Reflector} (loaded : graph.LoadedBy r)
  (idle : r.underway.classes = []) (member : info ∈ graph.classes)
  (shallow : graph.Shallow r.options.maxInheritanceDepth info)

include loaded idle member shallow

/-- The listing holds exactly what look-up finds. -/
theorem members_answered (names : kind.Names nameOf) :
    ∃ list, (Query.members kind info).result r = .ok list ∧ ∀ entry,
      entry ∈ list ↔ index.Finds kind (kind.key (nameOf entry)) false info (some entry) := by
  obtain ⟨found, continues, answered⟩ := Answers.values (collectMembers kind · false {} info)
    (answers_collectMembers names loaded shallow.grounded.not_reachesCycle (.start member)
      shallow false {}) idle
  have keyed := continues.keyed OrderedMap.keyedBy_empty
  refine ⟨found.values, answered, fun entry => ?_⟩
  rw [keyed.mem_values_iff]
  obtain ⟨first, finds, given⟩ := continues.finds (kind.key (nameOf entry))
  rw [given]
  refine ⟨fun same => ?_, fun again => ?_⟩
  · simpa using same ▸ finds
  · simpa using finds.unique again

/-- The implicit modifier says whether look-up finds an abstract method. -/
theorem classModifiers_answered :
    ∃ modifiers, (Query.classModifiers info).result r = .ok modifiers ∧
      modifiers.explicitAbstract = info.modifiers.explicitAbstract ∧
      (modifiers.implicitAbstract = true ↔ ∃ key method,
        index.Finds .method key false info (some method) ∧
          method.modifiers.isAbstract = true) := by
  obtain ⟨list, answered, holds⟩ :=
    members_answered loaded idle member shallow (.method : MemberKind.method.Names _)
  have named {key : NameKey} {method : MethodInfo}
      (finds : index.Finds .method key false info (some method)) :
      key = .folded method.name := by
    rcases finds.declared with own | ⟨name, other, known, own⟩
    · exact (EntityIndex.isDeclared_of_class? (graph.known info member)).named.methods.key_of_find?
        own
    · exact (EntityIndex.isDeclared_of_class? known).named.methods.key_of_find? own
  unfold Query.classModifiers
  rw [result_bind_ok answered]
  refine ⟨_, rfl, rfl, ?_⟩
  rw [List.any_eq_true]
  constructor
  · rintro ⟨method, listed, abstract⟩
    exact ⟨_, method, (holds method).mp listed, abstract⟩
  · rintro ⟨key, method, finds, abstract⟩
    rw [named finds] at finds
    exact ⟨method, (holds method).mpr finds, abstract⟩

end Answered

theorem exists_edge_of_mem_edges {inherited : Bool} {entry : Bool × String}
    (member : info ∈ graph.classes) (listed : entry ∈ info.edges inherited) :
    ∃ ancestor, graph.Edge info ancestor ∧
      NameKey.folded (stripSeparator entry.2) = ancestor.key := by
  obtain ⟨declared, among, rfl⟩ := List.mem_map.mp listed
  obtain ⟨ancestor, inside, named⟩ := graph.closed info member declared among
  exact ⟨ancestor, ⟨inside, declared, among, named⟩, named⟩

/-- What a search among ancestors of a class finds is declared by one of its ancestors. -/
theorem exists_ancestor_of_findsAmong {key : NameKey} {pending : List (Bool × String)}
    {member : α} (finds : index.FindsAmong kind key pending (some member))
    (above : ∀ entry ∈ pending, ∃ ancestor, Relation.TransGen graph.Edge info ancestor ∧
      NameKey.folded (stripSeparator entry.2) = ancestor.key) :
    ∃ ancestor, Relation.TransGen graph.Edge info ancestor ∧
      (kind.table ancestor.members).find? key = some member := by
  generalize result : some member = wanted at finds
  induction finds with
  | nothing => cases result
  | @own inherited name other found rest known own =>
      cases result
      obtain ⟨ancestor, reached, named⟩ := above (inherited, name) List.mem_cons_self
      cases known.symm.trans (class?_eq (member_of_transGen reached) named)
      exact ⟨other, reached, (Option.filter_eq_some_iff.mp own).1⟩
  | @above inherited name other rest found known own _ ih =>
      refine ih (fun entry among => ?_) result
      rcases List.mem_append.mp among with higher | later
      · obtain ⟨ancestor, reached, named⟩ := above (inherited, name) List.mem_cons_self
        cases known.symm.trans (class?_eq (member_of_transGen reached) named)
        obtain ⟨top, edge, namedTop⟩ :=
          exists_edge_of_mem_edges (member_of_transGen reached) higher
        exact ⟨top, reached.tail edge, namedTop⟩
      · exact above entry (List.mem_cons_of_mem _ later)

theorem exists_ancestor_of_finds {key : NameKey} {found : α} (member : info ∈ graph.classes)
    (own : kind.own? key false info = none)
    (finds : index.Finds kind key false info (some found)) :
    ∃ ancestor, Relation.TransGen graph.Edge info ancestor ∧
      (kind.table ancestor.members).find? key = some found := by
  cases finds with
  | own ownToo => cases own.symm.trans ownToo
  | above _ among =>
      refine exists_ancestor_of_findsAmong among fun entry listed => ?_
      obtain ⟨ancestor, edge, named⟩ := exists_edge_of_mem_edges member listed
      exact ⟨ancestor, .single edge, named⟩

end ClassGraph

/-- The direct ancestors of a class that look-up comes to before the traits that follow
some of its traits. -/
def ClassInfo.edgesBefore (info : ClassInfo) (earlier : List String) : List (Bool × String) :=
  info.parent.toList.map (true, ·) ++ info.interfaces.map (true, ·) ++ earlier.map (false, ·)

theorem ClassInfo.edges_of_traits {info : ClassInfo} {earlier later : List String}
    (traits : info.traits = earlier ++ later) :
    info.edges false = info.edgesBefore earlier ++ later.map (false, ·) := by
  unfold edges ancestorNames edgesBefore
  simp only [traits, List.map_append, List.map_map, List.append_assoc]
  rfl

/-- A class has a method with a body: it declares one, or uses a trait that declares one,
and then what look-up finds before that trait, if it finds anything, has a body as well. -/
inductive EntityIndex.Supplies (index : EntityIndex) (info : ClassInfo) (key : NameKey) : Prop
  | own {method : MethodInfo} :
      info.members.methods.find? key = some method →
      method.modifiers.isAbstract = false →
      Supplies index info key
  | used {earlier later : List String} {name : String} {trait : ClassInfo}
      {method : MethodInfo} :
      info.traits = earlier ++ name :: later →
      index.class? (stripSeparator name) = some trait →
      trait.members.methods.find? key = some method →
      method.modifiers.isAbstract = false →
      (∀ found, index.FindsAmong .method key (info.edgesBefore earlier) (some found) →
        found.modifiers.isAbstract = false) →
      Supplies index info key

theorem MemberKind.own?_method {key : NameKey} {inherited : Bool} {info : ClassInfo} :
    MemberKind.method.own? key inherited info = info.members.methods.find? key := by
  have visible (method : MethodInfo) : MemberKind.method.visible inherited method = true := by
    simp [MemberKind.visible, MemberKind.method]
  unfold MemberKind.own?
  cases found : MemberKind.method.table info.members |>.find? key with
  | none => exact found.symm
  | some method => exact (Option.filter_some_pos (visible method)).trans found.symm

/-- Look-up finds no abstract method where one with a body is supplied. -/
theorem EntityIndex.Supplies.isAbstract_eq_false {index : EntityIndex} {info : ClassInfo}
    {key : NameKey} {method : MethodInfo} (supplies : index.Supplies info key)
    (plain : ∀ own, info.members.methods.find? key = some own → own.modifiers.isAbstract = false)
    (finds : index.Finds .method key false info (some method)) :
    method.modifiers.isAbstract = false := by
  cases finds with
  | own own => exact plain method (MemberKind.own?_method.symm.trans own)
  | above own among =>
      rw [MemberKind.own?_method] at own
      cases supplies with
      | own declared => cases own.symm.trans declared
      | @used earlier later name trait supplied traits known declared body before =>
          rw [ClassInfo.edges_of_traits traits] at among
          obtain ⟨first, finds, after, kept⟩ := among.split
          cases first with
          | some found =>
              cases kept found rfl
              exact before method finds
          | none =>
              have same := (after rfl).unique
                (.own known (MemberKind.own?_method.trans declared))
              cases same
              exact body

/-! Classes with an abstract method above them for which a trait has a body. -/

namespace Precedence

def methodOf (name : String) (hasBody : Bool) : Node :=
  .method ⟨name, .none, [], none, false, hasBody, [], false, none⟩

/-- Knows `interface I { function m(); }`, `trait T { function m() {} }`,
`class C implements I { use T; }`, `class P { use T; }` and
`class D extends P implements I { use T; }`. -/
def reflector : Reflector :=
  Looped.knowing
    [methodOf "m" false, Family.classOf .interface "I" [] [0],
      methodOf "m" true, Family.classOf .trait "T" [] [2],
      .traitUse ["T"], .classLike ⟨.plain, "C", .none, [], ["I"], none, [4], none⟩,
      .traitUse ["T"], Family.classOf .plain "P" [] [6],
      .traitUse ["T"], .classLike ⟨.plain, "D", .none, ["P"], ["I"], none, [8], none⟩,
      .sourceFile "/looped.php" [1, 3, 5, 7, 9]]

def graph : ClassGraph reflector.index where
  classes := reflector.index.knownClasses
  known := (List.map_inj_left (g := some)).mp rfl
  closed := by decide

/-- The height of a class, by its name. -/
def rank (info : ClassInfo) : Nat :=
  ["I", "T", "P", "C", "D"].idxOf info.name

theorem facts :
    (∀ info ∈ graph.classes, ∀ ancestor ∈ graph.classes, info.Names ancestor →
      rank ancestor < rank info) ∧
    (∀ info ∈ graph.classes, rank info < reflector.options.maxInheritanceDepth) ∧
    ∀ info ∈ graph.classes, ∀ entry ∈ info.members.methods.entries,
      (entry.2.modifiers.isAbstract = true ↔
        entry.1 = .folded "m" ∧ info.kind = .interface) := by
  decide +kernel

theorem shallow {info : ClassInfo} (member : info ∈ graph.classes) :
    graph.Shallow reflector.options.maxInheritanceDepth info :=
  ClassGraph.shallow_of_rank facts.1 member (facts.2.1 info member)

/-- Nothing but the method of the interface is abstract. -/
theorem abstract_iff {info : ClassInfo} (member : info ∈ graph.classes) {key : NameKey}
    {method : MethodInfo} (declared : info.members.methods.find? key = some method) :
    method.modifiers.isAbstract = true ↔ key = .folded "m" ∧ info.kind = .interface :=
  facts.2.2 info member (key, method) (OrderedMap.mem_of_find? declared)

theorem plain_of_kind {info : ClassInfo} (member : info ∈ graph.classes)
    (kind : info.kind = .plain) {key : NameKey} {own : MethodInfo}
    (declared : info.members.methods.find? key = some own) :
    own.modifiers.isAbstract = false := by
  refine Bool.eq_false_iff.mpr fun missing => ?_
  have inside := ((abstract_iff member declared).mp missing).2
  cases kind.symm.trans inside

theorem method_of_class (name : String) (abstract : Bool)
    (given : (reflector.index.class? (stripSeparator name)).bind (fun info =>
      (info.members.methods.find? (.folded "m")).map (·.modifiers.isAbstract)) =
        some abstract) :
    ∃ info method, reflector.index.class? (stripSeparator name) = some info ∧
      info.members.methods.find? (.folded "m") = some method ∧
      method.modifiers.isAbstract = abstract := by
  obtain ⟨info, known, given⟩ := Option.bind_eq_some_iff.mp given
  obtain ⟨method, declared, same⟩ := Option.map_eq_some_iff.mp given
  exact ⟨info, method, known, declared, same⟩

end Precedence

open Precedence in
/-- A body from a trait does not count in `C`, since the interface comes before it. -/
theorem interface_outranks_trait :
    ∃ info ∈ graph.classes, info.name = "C" ∧ info.kind = .plain ∧
      graph.LoadedBy reflector ∧ reflector.underway.classes = [] ∧
      graph.Shallow reflector.options.maxInheritanceDepth info ∧
      info.modifiers.explicitAbstract = false ∧
      (∀ key own, info.members.methods.find? key = some own →
        own.modifiers.isAbstract = false) ∧
      (∀ key ancestor method, Relation.TransGen graph.Edge info ancestor →
        ancestor.members.methods.find? key = some method →
        method.modifiers.isAbstract = true →
          ∃ name ∈ info.traits, ∃ trait body,
            reflector.index.class? (stripSeparator name) = some trait ∧
              trait.members.methods.find? key = some body ∧
              body.modifiers.isAbstract = false) ∧
      ∃ modifiers, (Query.classModifiers info).result reflector = .ok modifiers ∧
        modifiers.implicitAbstract = true ∧
        (Query.isAbstract info).result reflector = .ok true := by
  have given : graph.classes[2]?.map (fun info =>
      ((info.name, info.kind, info.traits, info.modifiers.explicitAbstract),
        ((Query.classModifiers info).result reflector).toOption.map (·.implicitAbstract),
        ((Query.isAbstract info).result reflector).toOption)) =
          some (("C", ClassKind.plain, ["T"], false), some true, some true) := by decide +kernel
  obtain ⟨info, listed, given⟩ := Option.map_eq_some_iff.mp given
  simp only [Prod.mk.injEq, Option.map_eq_some_iff] at given
  obtain ⟨⟨named, kind, traits, unmarked⟩, ⟨modifiers, answered, implicit⟩, abstract⟩ := given
  have member := List.mem_of_getElem? listed
  refine ⟨info, member, named, kind, ClassGraph.loadedBy_of_known rfl, rfl, shallow member,
    unmarked, fun key own => plain_of_kind member kind,
    fun key ancestor method reached declared missing => ?_,
    modifiers, Query.ok_of_toOption answered, implicit, Query.ok_of_toOption abstract⟩
  have inside := ClassGraph.member_of_transGen reached
  obtain ⟨rfl, _⟩ := (abstract_iff inside declared).mp missing
  exact ⟨"T", by simp [traits], method_of_class "T" false (by decide +kernel)⟩

/-- Bodies for all methods make a class concrete. If all classes of a hierarchy load when
they are named, and no chain of them is longer than the bound, then a class is not abstract
that does not say so, declares no abstract method, and for every abstract method of an
ancestor either declares a body or uses a trait with a body that look-up does not find an
abstract method before. -/
theorem concrete_of_supplied {index : EntityIndex} (graph : ClassGraph index)
    {r : Reflector} (loaded : graph.LoadedBy r)
    (idle : r.underway.classes = []) {info : ClassInfo} (member : info ∈ graph.classes)
    (shallow : graph.Shallow r.options.maxInheritanceDepth info)
    (unmarked : info.modifiers.explicitAbstract = false)
    (plain : ∀ key own, info.members.methods.find? key = some own →
      own.modifiers.isAbstract = false)
    (supplied : ∀ key ancestor method, Relation.TransGen graph.Edge info ancestor →
      ancestor.members.methods.find? key = some method → method.modifiers.isAbstract = true →
        index.Supplies info key) :
    ∃ modifiers, (Query.classModifiers info).result r = .ok modifiers ∧
      modifiers.implicitAbstract = false ∧ (Query.isAbstract info).result r = .ok false := by
  obtain ⟨modifiers, answered, explicit, implicit⟩ :=
    ClassGraph.classModifiers_answered loaded idle member shallow
  have concrete : modifiers.implicitAbstract = false := by
    by_contra held
    obtain ⟨key, method, finds, abstract⟩ := implicit.mp (Bool.not_eq_false _ ▸ held)
    have body : method.modifiers.isAbstract = false := by
      cases own : MemberKind.method.own? key false info with
      | some declared =>
          cases finds.unique (.own own)
          exact plain key method (MemberKind.own?_method.symm.trans own)
      | none =>
          obtain ⟨ancestor, reached, declared⟩ :=
            ClassGraph.exists_ancestor_of_finds member own finds
          exact (supplied key ancestor method reached declared abstract).isAbstract_eq_false
            (plain key) finds
    cases body.symm.trans abstract
  refine ⟨modifiers, answered, concrete, ?_⟩
  unfold Query.isAbstract
  rw [Query.result_bind_ok answered]
  change Except.ok (modifiers.explicitAbstract || modifiers.implicitAbstract) = _
  rw [explicit, unmarked, concrete]
  rfl

open Precedence in
/-- In `D` the method of `P` comes before that of the interface. -/
theorem concrete_of_supplied_by_parent_first :
    ∃ info ∈ graph.classes, info.name = "D" ∧
      graph.LoadedBy reflector ∧ graph.Shallow reflector.options.maxInheritanceDepth info ∧
      (∃ ancestor method, Relation.TransGen graph.Edge info ancestor ∧
        ancestor.members.methods.find? (.folded "m") = some method ∧
        method.modifiers.isAbstract = true) ∧
      ∃ modifiers, (Query.classModifiers info).result reflector = .ok modifiers ∧
        modifiers.implicitAbstract = false ∧
        (Query.isAbstract info).result reflector = .ok false := by
  have given : graph.classes[4]?.map (fun info =>
      ((info.name, info.kind, info.traits, info.modifiers.explicitAbstract),
        info.edgesBefore [])) =
          some (("D", ClassKind.plain, ["T"], false), [(true, "P"), (true, "I")]) := by
    decide +kernel
  obtain ⟨info, listed, given⟩ := Option.map_eq_some_iff.mp given
  simp only [Prod.mk.injEq] at given
  obtain ⟨⟨named, kind, traits, unmarked⟩, before⟩ := given
  have member := List.mem_of_getElem? listed
  have loaded : graph.LoadedBy reflector := ClassGraph.loadedBy_of_known rfl
  obtain ⟨trait, body, known, declared, concrete⟩ :=
    method_of_class "T" false (by decide +kernel)
  have split : info.traits = [] ++ "T" :: [] := traits
  have parentFirst : reflector.index.FindsAmong .method (.folded "m")
      [(true, "P"), (true, "I")] (some body) := by
    have parent : (reflector.index.class? (stripSeparator "P")).map (fun parent =>
        (MemberKind.method.own? (.folded "m") true parent |>.isNone, parent.edges true)) =
          some (true, [(true, "T")]) := by decide +kernel
    obtain ⟨parent, knownParent, given⟩ := Option.map_eq_some_iff.mp parent
    simp only [Prod.mk.injEq, Option.isNone_iff_eq_none] at given
    refine .above knownParent given.1 (given.2 ▸ ?_)
    exact .own known (MemberKind.own?_method.trans declared)
  have supplies : reflector.index.Supplies info (.folded "m") := by
    refine .used split known declared concrete fun found finds => ?_
    rw [before] at finds
    cases finds.unique parentFirst
    exact concrete
  refine ⟨info, member, named, loaded, shallow member, ?_,
    concrete_of_supplied graph loaded rfl member (shallow member) unmarked
      (fun key own => plain_of_kind member kind)
      fun key ancestor method reached declared missing => ?_⟩
  · obtain ⟨above, method, knownAbove, declaredAbove, missing⟩ :=
      method_of_class "I" true (by decide +kernel)
    have entry : (true, "I") ∈ info.edges false := by
      rw [ClassInfo.edges_of_traits split, before]
      simp
    obtain ⟨ancestor, edge, namedAbove⟩ := ClassGraph.exists_edge_of_mem_edges member entry
    cases knownAbove.symm.trans (ClassGraph.class?_eq edge.1 namedAbove)
    exact ⟨above, method, .single edge, declaredAbove, missing⟩
  · have inside := ClassGraph.member_of_transGen reached
    obtain ⟨rfl, _⟩ := (abstract_iff inside declared).mp missing
    exact supplies

end StaticReflection
