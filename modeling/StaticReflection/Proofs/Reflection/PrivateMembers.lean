import StaticReflection.Proofs.Reflection.HeldConstants
import StaticReflection.Proofs.Reflection.ImplicitAbstract

namespace StaticReflection

/-! Private properties and constants are not inherited. What a class has of them is its own or
comes from traits alone. And nothing else is lost: a class has all that it or its traits
declare, unless look-up comes to another declaration of the name first. -/

/-- The kinds of members of which private ones are not inherited, each with the name and the
visibility that a member has. -/
inductive MemberKind.Hides : {α : Type} →
    MemberKind α → (α → String) → (α → Visibility) → Prop
  | property : Hides .property PropertyInfo.name (·.modifiers.visibility)
  | constant : Hides .constant ConstantInfo.name (·.modifiers.visibility)

namespace MemberKind

variable {α : Type} {kind : MemberKind α} {nameOf : α → String} {visibilityOf : α → Visibility}

theorem Hides.names (hides : kind.Hides nameOf visibilityOf) : kind.Names nameOf := by
  cases hides with
  | property => exact .property
  | constant => exact .constant

theorem Hides.inheritable_of_private (hides : kind.Hides nameOf visibilityOf) {member : α}
    (hidden : visibilityOf member = .visiblePrivate) : kind.inheritable member = false := by
  cases hides with
  | property => simpa [MemberKind.property] using hidden
  | constant => simpa [MemberKind.constant] using hidden

end MemberKind

/-- The class uses the trait, as far as is known. -/
def EntityIndex.UsesTrait (index : EntityIndex) (info trait : ClassInfo) : Prop :=
  ∃ name ∈ info.traits, index.class? (stripSeparator name) = some trait

/-- The trait is the class itself, or one that the class comes to by way of traits only. -/
def EntityIndex.ByTraits (index : EntityIndex) : ClassInfo → ClassInfo → Prop :=
  Relation.ReflTransGen index.UsesTrait

theorem ClassInfo.mem_traits_iff {info : ClassInfo} {name : String} :
    (name, AncestorEdge.trait) ∈ info.ancestorNames ↔ name ∈ info.traits := by
  simp [ancestorNames]

theorem EntityIndex.Within.class? {index later : EntityIndex} (within : index.Within later)
    {name : String} {info : ClassInfo} (known : index.class? name = some info) :
    later.class? name = some info :=
  within.info? known

theorem EntityIndex.ByTraits.mono {index later : EntityIndex} (within : index.Within later)
    {info source : ClassInfo} (reached : index.ByTraits info source) :
    later.ByTraits info source := by
  induction reached with
  | refl => exact .refl
  | tail _ uses ih =>
      obtain ⟨name, listed, known⟩ := uses
      exact .tail ih ⟨name, listed, within.class? known⟩

/-! Where a walk has a member from. -/

namespace Hierarchy

open Query

variable {α : Type} {kind : MemberKind α} {index : EntityIndex} {inherited : Bool}
  {info : ClassInfo} {member : α}

/-- The member may be inherited, or else a class declares it to which traits alone lead. -/
def Sourced (kind : MemberKind α) (index : EntityIndex) (inherited : Bool) (info : ClassInfo)
    (member : α) : Prop :=
  kind.inheritable member = true ∨ inherited = false ∧
    ∃ source, index.ByTraits info source ∧ member ∈ (kind.table source.members).values

theorem Sourced.mono {later : EntityIndex} (within : index.Within later)
    (sourced : Sourced kind index inherited info member) :
    Sourced kind later inherited info member := by
  refine sourced.imp_right fun ⟨plain, source, reached, declared⟩ => ?_
  exact ⟨plain, source, reached.mono within, declared⟩

/-- A class has by way of an ancestor what the ancestor has, less what is not inherited. -/
theorem Sourced.above {name : String} {edge : AncestorEdge} {ancestor : ClassInfo}
    (listed : (name, edge) ∈ info.ancestorNames)
    (known : index.class? (stripSeparator name) = some ancestor)
    (sourced : Sourced kind index (inherited || edge != .trait) ancestor member) :
    Sourced kind index inherited info member := by
  refine sourced.imp_right fun ⟨plain, source, reached, declared⟩ => ?_
  rw [Bool.or_eq_false_iff, bne_eq_false_iff_eq] at plain
  obtain ⟨plain, rfl⟩ := plain
  exact ⟨plain, source, .head ⟨name, ClassInfo.mem_traits_iff.mp listed, known⟩ reached, declared⟩

theorem sourced_of_visible (visible : kind.visible inherited member = true)
    (declared : member ∈ (kind.table info.members).values) :
    Sourced kind index inherited info member := by
  unfold MemberKind.visible at visible
  cases inherited with
  | true => exact .inl (by simpa using visible)
  | false => exact .inr ⟨rfl, info, .refl, declared⟩

theorem sourced_of_own? {key : NameKey} (own : kind.own? key inherited info = some member) :
    Sourced kind index inherited info member := by
  obtain ⟨declared, visible⟩ := Option.filter_eq_some_iff.mp own
  exact sourced_of_visible visible (List.mem_map_of_mem (OrderedMap.mem_of_find? declared))

/-- An answer of a query about the ancestors of a class, and where the query leaves off. -/
theorem aboveClass_answer {query : Query α} {r : Reflector} {answer : α}
    (answered : (aboveClass info query).result r = .ok answer) :
    ∃ within, query.result within = .ok answer ∧
      (query.next within).index = ((aboveClass info query).next r).index := by
  rw [aboveClass_result] at answered
  split at answered
  · cases answered
  · rename_i acyclic
    refine ⟨_, answered, ?_⟩
    rw [aboveClass_next acyclic]
    rfl

theorem firstAncestor_sourced {visit : ClassInfo → AncestorEdge → Query (Option α)}
    (looks : ∀ ancestor edge, (visit ancestor edge).Looks)
    (each : ∀ ancestor edge r member, (visit ancestor edge).result r = .ok (some member) →
      Sourced kind ((visit ancestor edge).next r).index (inherited || edge != .trait) ancestor
        member)
    (names : List (String × AncestorEdge)) (among : names ⊆ info.ancestorNames) {r : Reflector}
    (answered : (firstAncestor visit names).result r = .ok (some member)) :
    Sourced kind ((firstAncestor visit names).next r).index inherited info member := by
  induction names generalizing r with
  | nil => cases answered
  | cons entry rest ih =>
      obtain ⟨name, edge⟩ := entry
      unfold firstAncestor at answered ⊢
      obtain ⟨ancestor, named, visited⟩ := ok_of_bind answered
      obtain ⟨answer, first, last⟩ := ok_of_bind visited
      rw [next_bind_ok named, next_bind_ok first]
      cases answer with
      | some given =>
          cases last
          have known := ((looks ancestor edge).next _).declared.class?
            (known_after_classNamed named)
          exact (each ancestor edge _ _ first).above (among List.mem_cons_self) known
      | none => exact ih (fun _ listed => among (List.mem_cons_of_mem _ listed)) last

theorem findMember_sourced {key : NameKey} {room : Nat} {r : Reflector}
    (answered : (findMember kind key room inherited info).result r = .ok (some member)) :
    Sourced kind ((findMember kind key room inherited info).next r).index inherited info
      member := by
  induction room generalizing inherited info r member with
  | zero =>
      unfold findMember at answered
      split at answered
      · cases answered
        exact sourced_of_own? ‹_›
      · exact absurd answered not_ok_tooDeep
  | succ room ih =>
      unfold findMember at answered ⊢
      cases own : kind.own? key inherited info with
      | some first =>
          rw [own] at answered
          cases answered
          exact sourced_of_own? own
      | none =>
          rw [own] at answered
          obtain ⟨within, answered, same⟩ := aboveClass_answer answered
          dsimp only
          rw [← same]
          exact firstAncestor_sourced
            (fun ancestor edge => findMember_looks kind key room _ ancestor)
            (fun _ _ _ _ answered => ih answered) _ (List.Subset.refl _) answered

theorem foldAncestors_sourced {visit : OrderedMap NameKey α → ClassInfo → AncestorEdge →
      Query (OrderedMap NameKey α)}
    (looks : ∀ found ancestor edge, (visit found ancestor edge).Looks)
    (each : ∀ found ancestor edge r result, (visit found ancestor edge).result r = .ok result →
      ∀ member ∈ result.values, member ∈ found.values ∨
        Sourced kind ((visit found ancestor edge).next r).index (inherited || edge != .trait)
          ancestor member)
    (names : List (String × AncestorEdge)) (among : names ⊆ info.ancestorNames)
    {found result : OrderedMap NameKey α} {r : Reflector}
    (answered : (foldAncestors visit found names).result r = .ok result)
    (listed : member ∈ result.values) :
    member ∈ found.values ∨
      Sourced kind ((foldAncestors visit found names).next r).index inherited info member := by
  induction names generalizing found r with
  | nil =>
      cases answered
      exact .inl listed
  | cons entry rest ih =>
      obtain ⟨name, edge⟩ := entry
      unfold foldAncestors at answered ⊢
      obtain ⟨ancestor, named, visited⟩ := ok_of_bind answered
      obtain ⟨middle, first, last⟩ := ok_of_bind visited
      rw [next_bind_ok named, next_bind_ok first]
      rcases ih (fun _ listed => among (List.mem_cons_of_mem _ listed)) last with before | later
      · refine (each found ancestor edge _ middle first member before).imp_right fun sourced => ?_
        have known := ((looks found ancestor edge).next _).declared.class?
          (known_after_classNamed named)
        exact (sourced.above (among List.mem_cons_self) known).mono
          ((foldAncestors_looks looks rest middle).next _).declared
      · exact .inr later

theorem collectMembers_sourced {room : Nat} {found result : OrderedMap NameKey α}
    {r : Reflector}
    (answered : (collectMembers kind room inherited found info).result r = .ok result)
    (listed : member ∈ result.values) :
    member ∈ found.values ∨
      Sourced kind ((collectMembers kind room inherited found info).next r).index inherited
        info member := by
  induction room generalizing inherited found info r result member with
  | zero => exact absurd answered not_ok_tooDeep
  | succ room ih =>
      unfold collectMembers at answered ⊢
      obtain ⟨within, answered, same⟩ := aboveClass_answer answered
      dsimp only
      rw [← same]
      rcases foldAncestors_sourced
        (fun found ancestor edge => collectMembers_looks kind room _ found ancestor)
        (fun _ _ _ _ _ answered _ listed => ih answered listed) _ (List.Subset.refl _)
        answered listed with before | above
      · refine OrderedMap.mem_values_foldl_insertNew (P := fun member => member ∈ found.values ∨
          Sourced kind _ inherited info member) (fun _ => .inl) (fun entry own => ?_) _ before
        obtain ⟨declared, visible⟩ := List.mem_filter.mp own
        exact .inr (sourced_of_visible visible (List.mem_map_of_mem declared))
      · exact .inr above

end Hierarchy

namespace Query

variable {α : Type} {kind : MemberKind α} {info : ClassInfo} {member : α} {r : Reflector}

theorem member?_sourced {name : String}
    (answered : (member? kind info name).result r = .ok (some member)) :
    Hierarchy.Sourced kind ((member? kind info name).next r).index false info member :=
  Hierarchy.findMember_sourced answered

theorem members_sourced {list : List α} (answered : (members kind info).result r = .ok list)
    (listed : member ∈ list) :
    Hierarchy.Sourced kind ((members kind info).next r).index false info member := by
  obtain ⟨room, roomGiven, rest⟩ := ok_of_bind answered
  obtain ⟨found, collected, last⟩ := ok_of_bind rest
  cases last
  unfold members
  rw [next_bind_ok roomGiven, next_bind_ok collected]
  exact (Hierarchy.collectMembers_sourced collected listed).resolve_left List.not_mem_nil

end Query

/-! The order of look-up. -/

namespace EntityIndex

/-- The classes that a search through some classes and their ancestors comes to, one after
another, each with whether its members count as inherited there. -/
inductive Orders (index : EntityIndex) : List (Bool × String) → List (Bool × ClassInfo) → Prop
  | nothing : Orders index [] []
  | visit {inherited : Bool} {name : String} {info : ClassInfo} {rest : List (Bool × String)}
      {later : List (Bool × ClassInfo)} :
      index.class? (stripSeparator name) = some info →
      Orders index (info.edges inherited ++ rest) later →
      Orders index ((inherited, name) :: rest) ((inherited, info) :: later)

/-- The places at which look-up in a class searches, if nothing stops it before. -/
def LookUpOrder (index : EntityIndex) (info : ClassInfo) (order : List (Bool × ClassInfo)) :
    Prop :=
  ∃ later, index.Orders (info.edges false) later ∧ order = (false, info) :: later

variable {α : Type} {index : EntityIndex} {kind : MemberKind α} {key : NameKey}
  {pending : List (Bool × String)} {order : List (Bool × ClassInfo)} {info trait : ClassInfo}

theorem Orders.append {first second : List (Bool × String)}
    {places later : List (Bool × ClassInfo)} (orders : index.Orders first places)
    (others : index.Orders second later) : index.Orders (first ++ second) (places ++ later) := by
  induction orders with
  | nothing => exact others
  | visit known _ ih =>
      rw [List.cons_append, List.cons_append]
      refine .visit known ?_
      rw [← List.append_assoc]
      exact ih

/-- What a search finds is at the first of its places that has a member to give. -/
theorem Orders.findsAmong (orders : index.Orders pending order) :
    index.FindsAmong kind key pending
      (order.findSome? fun place => kind.own? key place.1 place.2) := by
  induction orders with
  | nothing => exact .nothing
  | @visit inherited name info rest later known _ ih =>
      rw [List.findSome?_cons]
      cases own : kind.own? key inherited info with
      | some member => exact .own known own
      | none => exact .above known own ih

theorem LookUpOrder.finds (orders : index.LookUpOrder info order) :
    index.Finds kind key false info
      (order.findSome? fun place => kind.own? key place.1 place.2) := by
  obtain ⟨later, orders, rfl⟩ := orders
  rw [List.findSome?_cons]
  cases own : kind.own? key false info with
  | some member => exact .own own
  | none => exact .above own orders.findsAmong

theorem Orders.mem_of_pending (orders : index.Orders pending order) {inherited : Bool}
    {name : String} (listed : (inherited, name) ∈ pending)
    (known : index.class? (stripSeparator name) = some info) : (inherited, info) ∈ order := by
  induction orders with
  | nothing => exact absurd listed List.not_mem_nil
  | visit knownHere _ ih =>
      rcases List.mem_cons.mp listed with here | later
      · cases here
        cases known.symm.trans knownHere
        exact List.mem_cons_self
      · exact List.mem_cons_of_mem _ (ih (List.mem_append_right _ later))

theorem mem_edges_of_mem_traits {name : String} (listed : name ∈ info.traits) :
    (false, name) ∈ info.edges false :=
  List.mem_map.mpr ⟨_, ClassInfo.mem_traits_iff.mpr listed, rfl⟩

theorem mem_traits_of_mem_edges {name : String} {inherited : Bool}
    (listed : (false, name) ∈ info.edges inherited) :
    inherited = false ∧ name ∈ info.traits := by
  obtain ⟨⟨declared, edge⟩, among, same⟩ := List.mem_map.mp listed
  simp only [Prod.mk.injEq, Bool.or_eq_false_iff, bne_eq_false_iff_eq] at same
  obtain ⟨⟨plain, rfl⟩, rfl⟩ := same
  exact ⟨plain, ClassInfo.mem_traits_iff.mp among⟩

/-- The traits of a class that is searched with nothing left out are searched so too. -/
theorem Orders.mem_of_usesTrait (orders : index.Orders pending order)
    (searched : (false, info) ∈ order) (uses : index.UsesTrait info trait) :
    (false, trait) ∈ order := by
  obtain ⟨name, listed, known⟩ := uses
  induction orders with
  | nothing => exact absurd searched List.not_mem_nil
  | visit _ others ih =>
      refine List.mem_cons_of_mem _ ?_
      rcases List.mem_cons.mp searched with here | later
      · cases here
        exact others.mem_of_pending
          (List.mem_append_left _ (mem_edges_of_mem_traits listed)) known
      · exact ih later

theorem Orders.exists_start (orders : index.Orders pending order)
    (searched : (false, trait) ∈ order) :
    ∃ name first, (false, name) ∈ pending ∧
      index.class? (stripSeparator name) = some first ∧ index.ByTraits first trait := by
  induction orders with
  | nothing => exact absurd searched List.not_mem_nil
  | @visit inherited name info rest later known _ ih =>
      rcases List.mem_cons.mp searched with here | later
      · cases here
        exact ⟨name, trait, List.mem_cons_self, known, .refl⟩
      · obtain ⟨other, first, listed, knownFirst, reached⟩ := ih later
        rcases List.mem_append.mp listed with above | among
        · obtain ⟨rfl, used⟩ := mem_traits_of_mem_edges above
          exact ⟨name, info, List.mem_cons_self, known,
            .head ⟨other, used, knownFirst⟩ reached⟩
        · exact ⟨other, first, List.mem_cons_of_mem _ among, knownFirst, reached⟩

/-- Look-up searches a class with nothing left out exactly if traits alone lead to it. -/
theorem LookUpOrder.mem_iff (orders : index.LookUpOrder info order) :
    (false, trait) ∈ order ↔ index.ByTraits info trait := by
  obtain ⟨later, orders, rfl⟩ := orders
  constructor
  · intro searched
    rcases List.mem_cons.mp searched with here | searched
    · cases here
      exact .refl
    · obtain ⟨name, first, listed, known, reached⟩ := orders.exists_start searched
      exact .head ⟨name, (mem_traits_of_mem_edges listed).2, known⟩ reached
  · intro reached
    induction reached with
    | refl => exact List.mem_cons_self
    | tail _ uses ih =>
        refine List.mem_cons_of_mem _ ?_
        rcases List.mem_cons.mp ih with here | searched
        · cases here
          obtain ⟨name, listed, known⟩ := uses
          exact orders.mem_of_pending (mem_edges_of_mem_traits listed) known
        · exact orders.mem_of_usesTrait searched uses

/-- A class with a member counts at one of its places if no other class that has one with
that key is searched before. -/
theorem LookUpOrder.finds_declared {before after : List (Bool × ClassInfo)}
    {source : ClassInfo} {member : α}
    (orders : index.LookUpOrder info (before ++ (false, source) :: after))
    (declared : (kind.table source.members).find? key = some member)
    (earlier : ∀ place ∈ before,
      place.2 = source ∨ (kind.table place.2.members).find? key = none) :
    index.Finds kind key false info (some member) := by
  have here : kind.own? key false source = some member :=
    Option.filter_eq_some_iff.mpr ⟨declared, rfl⟩
  have others : before.findSome? (fun place => kind.own? key place.1 place.2) = none ∨
      before.findSome? (fun place => kind.own? key place.1 place.2) = some member := by
    refine (Option.eq_none_or_eq_some _).imp_right fun ⟨given, found⟩ => ?_
    obtain ⟨place, among, own⟩ := List.exists_of_findSome?_eq_some found
    have declaredThere := (Option.filter_eq_some_iff.mp own).1
    rcases earlier place among with same | absent
    · rw [same, declared] at declaredThere
      rw [found, declaredThere]
    · cases absent.symm.trans declaredThere
  have finds : index.Finds kind key false info _ := orders.finds
  rw [List.findSome?_append, List.findSome?_cons, here] at finds
  rcases others with nothing | found
  · rw [nothing] at finds
    exact finds
  · rw [found] at finds
    exact finds

end EntityIndex

/-! Look-up in a hierarchy that loads. -/

namespace ClassGraph

open Hierarchy Query

variable {index : EntityIndex} {graph : ClassGraph index} {α : Type} {kind : MemberKind α}
  {key : NameKey} {r : Reflector} {info root : ClassInfo} {path : List ClassInfo} {room : Nat}

theorem exists_orders (member : info ∈ graph.classes) (shallow : graph.Shallow room info)
    (inherited : Bool) : ∃ order, index.Orders (info.edges inherited) order := by
  induction room generalizing info inherited with
  | zero => exact absurd shallow not_shallow_zero
  | succ room ih =>
      suffices ∀ names ⊆ info.ancestorNames, ∃ order, index.Orders
          (names.map fun entry => (inherited || entry.2 != .trait, entry.1)) order from
        this _ (List.Subset.refl _)
      intro names among
      induction names with
      | nil => exact ⟨[], .nothing⟩
      | cons entry rest others =>
          have listed := among List.mem_cons_self
          obtain ⟨ancestor, inside, named⟩ := graph.closed info member entry listed
          obtain ⟨above, orders⟩ := ih inside (shallow.step ⟨inside, entry, listed, named⟩)
            (inherited || entry.2 != .trait)
          obtain ⟨later, rest⟩ := others fun _ listed => among (List.mem_cons_of_mem _ listed)
          exact ⟨_, .visit (class?_eq inside named) (orders.append rest)⟩

theorem exists_lookUpOrder (member : info ∈ graph.classes)
    (shallow : graph.Shallow room info) : ∃ order, index.LookUpOrder info order := by
  obtain ⟨later, orders⟩ := exists_orders member shallow false
  exact ⟨_, later, orders, rfl⟩

theorem answers_firstAncestor {visit : ClassInfo → AncestorEdge → Query (Option α)}
    {inherited : Bool} (loaded : graph.LoadedBy r) (member : info ∈ graph.classes)
    (each : ∀ ancestor edge, graph.Edge info ancestor →
      graph.Answers r path (visit ancestor edge)
        (index.Finds kind key (inherited || edge != .trait) ancestor))
    (names : List (String × AncestorEdge)) (among : names ⊆ info.ancestorNames) :
    graph.Answers r path (firstAncestor visit names) (index.FindsAmong kind key
      (names.map fun (name, edge) => (inherited || edge != .trait, name))) := by
  induction names with
  | nil => exact .pure .nothing
  | cons entry rest ih =>
      obtain ⟨name, edge⟩ := entry
      have listed := among List.mem_cons_self
      obtain ⟨ancestor, inside, named⟩ := graph.closed info member _ listed
      have known := class?_eq inside named
      refine (Answers.classNamed loaded (uses_of_mem member listed) inside named).bind ?_
      rintro given rfl
      refine (each given edge ⟨inside, _, listed, named⟩).bind fun answer finds => ?_
      cases answer with
      | some first =>
          refine .pure ?_
          cases finds with
          | own own => exact .own known own
          | above own among => exact .above known own (among.append nofun fun _ same => same)
      | none =>
          refine (ih fun _ listed => among (List.mem_cons_of_mem _ listed)).mono
            fun other others => ?_
          simpa using finds.among known others

theorem answers_findMember (loaded : graph.LoadedBy r) (acyclic : ¬ graph.ReachesCycle root)
    (walked : graph.Walked path root info) (shallow : graph.Shallow room info)
    (inherited : Bool) :
    graph.Answers r path (findMember kind key room inherited info)
      (index.Finds kind key inherited info) := by
  induction room generalizing info path inherited with
  | zero => exact absurd shallow not_shallow_zero
  | succ room ih =>
      have fresh := walked.fresh acyclic
      unfold findMember
      cases own : kind.own? key inherited info with
      | some member => exact .pure (.own own)
      | none =>
          refine .aboveClass fresh ((answers_firstAncestor loaded walked.member
            (fun ancestor edge names => ih (walked.step fresh names) (shallow.step names) _) _
            (List.Subset.refl _)).mono fun found among => ?_)
          exact .above own among

/-- In a hierarchy that loads, asking for a member by name gives what look-up finds. -/
theorem member?_answered (loaded : graph.LoadedBy r) (idle : r.underway.classes = [])
    (member : info ∈ graph.classes)
    (shallow : graph.Shallow r.options.maxInheritanceDepth info) {name : String}
    {found : Option α} (finds : index.Finds kind (kind.key name) false info found) :
    (Query.member? kind info name).result r = .ok found := by
  have answers : graph.Answers r [] (findMember kind (kind.key name) _ false info) _ :=
    answers_findMember loaded shallow.grounded.not_reachesCycle (.start member) shallow false
  obtain ⟨given, findsToo, answered, _⟩ := answers r (.start idle)
  change (findMember kind _ (_ - r.underway.classes.length) false info).result r = _
  rw [idle, List.length_nil, Nat.sub_zero, answered, findsToo.unique finds]

end ClassGraph

theorem EntityIndex.ByTraits.isDeclared {index : EntityIndex} {info source : ClassInfo}
    (declared : info.IsDeclared) (reached : index.ByTraits info source) : source.IsDeclared := by
  cases reached with
  | refl => exact declared
  | tail _ uses =>
      obtain ⟨_, _, known⟩ := uses
      exact isDeclared_of_class? known

/-- Private properties and constants never leak through inheritance, and inheritance loses
nothing else. A private one that look-up finds or that the listing holds is declared by the
class itself or by one to which traits alone lead. In a hierarchy that loads, look-up searches
a class with nothing left out exactly if traits alone lead to it, and what such a class
declares, private or not, is found and listed, unless look-up comes before to another class
that declares the name. -/
theorem private_stays_where_declared {α : Type} {kind : MemberKind α} {nameOf : α → String}
    {visibilityOf : α → Visibility} (hides : kind.Hides nameOf visibilityOf) :
    (∀ (r : Reflector) (info : ClassInfo) (member : α), visibilityOf member = .visiblePrivate →
      (∀ name, (Query.member? kind info name).result r = .ok (some member) →
        ∃ source, ((Query.member? kind info name).next r).index.ByTraits info source ∧
          member ∈ (kind.table source.members).values) ∧
      ∀ list, (Query.members kind info).result r = .ok list → member ∈ list →
        ∃ source, ((Query.members kind info).next r).index.ByTraits info source ∧
          member ∈ (kind.table source.members).values) ∧
    ∀ (index : EntityIndex) (graph : ClassGraph index) (r : Reflector), graph.LoadedBy r →
      r.underway.classes = [] →
      ∀ info ∈ graph.classes, graph.Shallow r.options.maxInheritanceDepth info →
        (∃ order, index.LookUpOrder info order) ∧
        ∀ order, index.LookUpOrder info order →
          (∀ source, index.ByTraits info source ↔ (false, source) ∈ order) ∧
          ∀ before source after member, order = before ++ (false, source) :: after →
            member ∈ (kind.table source.members).values →
            (∀ place ∈ before, place.2 = source ∨
              (kind.table place.2.members).find? (kind.key (nameOf member)) = none) →
            (Query.member? kind info (nameOf member)).result r = .ok (some member) ∧
              ∃ list, (Query.members kind info).result r = .ok list ∧ member ∈ list := by
  constructor
  · intro r info member hidden
    have kept := hides.inheritable_of_private hidden
    have source {index : EntityIndex} (sourced : Hierarchy.Sourced kind index false info member) :
        ∃ source, index.ByTraits info source ∧ member ∈ (kind.table source.members).values := by
      rcases sourced with inheritable | ⟨_, found⟩
      · cases kept.symm.trans inheritable
      · exact found
    exact ⟨fun name answered => source (Query.member?_sourced answered),
      fun list answered listed => source (Query.members_sourced answered listed)⟩
  · intro index graph r loaded idle info inside shallow
    refine ⟨ClassGraph.exists_lookUpOrder inside shallow, fun order orders =>
      ⟨fun source => orders.mem_iff.symm, ?_⟩⟩
    rintro before source after member rfl among earlier
    have reached : index.ByTraits info source := orders.mem_iff.mp (by simp)
    have declared := reached.isDeclared (EntityIndex.isDeclared_of_class? (graph.known info inside))
    have finds := orders.finds_declared
      ((declared.named.table hides.names).mem_values_iff.mp among) earlier
    obtain ⟨list, answered, holds⟩ :=
      ClassGraph.members_answered loaded idle inside shallow hides.names
    exact ⟨ClassGraph.member?_answered loaded idle inside shallow finds,
      list, answered, (holds member).mpr finds⟩

namespace Family

def graph : ClassGraph reflector.index where
  classes := reflector.index.knownClasses
  known := (List.map_inj_left (g := some)).mp rfl
  closed := by decide

theorem child_mem : child ∈ graph.classes :=
  List.mem_of_getElem? (i := 2) rfl

theorem shallow : graph.Shallow reflector.options.maxInheritanceDepth child := by
  let rank (info : ClassInfo) : Nat := if info.name = "C" then 1 else 0
  have falls : ∀ info ∈ graph.classes, ∀ ancestor ∈ graph.classes, info.Names ancestor →
      rank ancestor < rank info := by decide +kernel
  exact ClassGraph.shallow_of_rank falls child_mem (by decide +kernel)

def parent : ClassInfo :=
  (reflector.index.class? "P").get rfl

def trait : ClassInfo :=
  (reflector.index.class? "T").get rfl

theorem lookUpOrder_child :
    reflector.index.LookUpOrder child ([(false, child), (true, parent)] ++ [(false, trait)]) := by
  have first : reflector.index.class? (stripSeparator "P") = some parent := rfl
  have second : reflector.index.class? (stripSeparator "T") = some trait := rfl
  exact ⟨_, .visit first (.visit second .nothing), rfl⟩

end Family

open Family in
/-- The class has the private property of its trait, which no class declares that look-up
comes to before. -/
theorem private_of_trait_stays :
    ∃ property, property.modifiers.visibility = .visiblePrivate ∧
      reflector.index.ByTraits child trait ∧
      property ∈ trait.members.properties.values ∧
      (Query.member? .property child "t").result reflector = .ok (some property) ∧
      (∃ list, (Query.members .property child).result reflector = .ok list ∧
        property ∈ list) ∧
      ∃ source, ((Query.member? .property child "t").next reflector).index.ByTraits child
        source ∧ property ∈ source.members.properties.values := by
  obtain ⟨property, declared, named, hidden⟩ : ∃ property ∈ trait.members.properties.values,
      property.name = "t" ∧ property.modifiers.visibility = .visiblePrivate := by decide +kernel
  obtain ⟨leaks, loads⟩ := private_stays_where_declared .property
  obtain ⟨_, searched⟩ := loads _ graph reflector
    (ClassGraph.loadedBy_of_known rfl) rfl child child_mem shallow
  obtain ⟨traits, keeps⟩ := searched _ lookUpOrder_child
  have earlier : ∀ place ∈ [(false, child), (true, parent)],
      place.2.members.properties.find? (.exact "t") = none := by decide +kernel
  obtain ⟨found, listed⟩ := keeps _ trait [] property rfl declared fun place among =>
    .inr (named ▸ earlier place among)
  have foundByName : (Query.member? .property child "t").result reflector =
      .ok (some property) := named ▸ found
  exact ⟨property, hidden, (traits trait).mpr (by simp), declared, foundByName, listed,
    (leaks reflector child property hidden).1 "t" foundByName⟩

end StaticReflection
