import StaticReflection.Proofs.Reflection.LookUps

namespace StaticReflection

/-! What the look-up of a member finds. The order of the ancestors decides, without any
bound on how many there are. -/

/-- The direct ancestors of a class, each with whether its members count as inherited. -/
def ClassInfo.edges (info : ClassInfo) (inherited : Bool) : List (Bool × String) :=
  info.ancestorNames.map fun (name, edge) => (inherited || edge != .trait, name)

namespace EntityIndex

variable {α : Type}

/-- The first member with a key among those of some classes and of their ancestors. The
ancestors of a class come right after it. -/
inductive FindsAmong (index : EntityIndex) (kind : MemberKind α) (key : NameKey) :
    List (Bool × String) → Option α → Prop
  | nothing : FindsAmong index kind key [] none
  | own {inherited : Bool} {name : String} {info : ClassInfo} {member : α}
      {rest : List (Bool × String)} :
      index.class? (stripSeparator name) = some info →
      kind.own? key inherited info = some member →
      FindsAmong index kind key ((inherited, name) :: rest) (some member)
  | above {inherited : Bool} {name : String} {info : ClassInfo}
      {rest : List (Bool × String)} {found : Option α} :
      index.class? (stripSeparator name) = some info →
      kind.own? key inherited info = none →
      FindsAmong index kind key (info.edges inherited ++ rest) found →
      FindsAmong index kind key ((inherited, name) :: rest) found

/-- The member of a class with a key, its own or the first among its ancestors. -/
inductive Finds (index : EntityIndex) (kind : MemberKind α) (key : NameKey)
    (inherited : Bool) (info : ClassInfo) : Option α → Prop
  | own {member : α} :
      kind.own? key inherited info = some member →
      Finds index kind key inherited info (some member)
  | above {found : Option α} :
      kind.own? key inherited info = none →
      index.FindsAmong kind key (info.edges inherited) found →
      Finds index kind key inherited info found

variable {index : EntityIndex} {kind : MemberKind α} {key : NameKey}

theorem FindsAmong.unique {pending : List (Bool × String)} {first second : Option α}
    (found : index.FindsAmong kind key pending first)
    (again : index.FindsAmong kind key pending second) : first = second := by
  induction found with
  | nothing =>
      cases again
      rfl
  | own known own =>
      cases again with
      | own knownAgain ownAgain =>
          cases known.symm.trans knownAgain
          exact own.symm.trans ownAgain
      | above knownAgain ownAgain _ =>
          cases known.symm.trans knownAgain
          cases own.symm.trans ownAgain
  | above known own _ ih =>
      cases again with
      | own knownAgain ownAgain =>
          cases known.symm.trans knownAgain
          cases own.symm.trans ownAgain
      | above knownAgain _ rest =>
          cases known.symm.trans knownAgain
          exact ih rest

theorem Finds.unique {inherited : Bool} {info : ClassInfo} {first second : Option α}
    (found : index.Finds kind key inherited info first)
    (again : index.Finds kind key inherited info second) : first = second := by
  cases found with
  | own own =>
      cases again with
      | own ownAgain => exact own.symm.trans ownAgain
      | above ownAgain _ => cases own.symm.trans ownAgain
  | above own among =>
      cases again with
      | own ownAgain => cases own.symm.trans ownAgain
      | above _ amongAgain => exact among.unique amongAgain

theorem FindsAmong.declared {pending : List (Bool × String)} {member : α}
    (found : index.FindsAmong kind key pending (some member)) :
    ∃ name info, index.class? name = some info ∧
      (kind.table info.members).find? key = some member := by
  generalize result : some member = wanted at found
  induction found with
  | nothing => cases result
  | own known own =>
      cases result
      exact ⟨_, _, known, (Option.filter_eq_some_iff.mp own).1⟩
  | above _ _ _ ih => exact ih result

theorem Finds.declared {inherited : Bool} {info : ClassInfo} {member : α}
    (found : index.Finds kind key inherited info (some member)) :
    (kind.table info.members).find? key = some member ∨
      ∃ name other, index.class? name = some other ∧
        (kind.table other.members).find? key = some member := by
  cases found with
  | own own => exact .inl (Option.filter_eq_some_iff.mp own).1
  | above _ among => exact .inr among.declared

/-- A search goes on where the first classes of it have no such member, and ends where
they have one. -/
theorem FindsAmong.append {pending rest : List (Bool × String)} {found other : Option α}
    (first : index.FindsAmong kind key pending found)
    (second : found = none → index.FindsAmong kind key rest other)
    (kept : ∀ member, found = some member → other = some member) :
    index.FindsAmong kind key (pending ++ rest) other := by
  induction first with
  | nothing => exact second rfl
  | own known own =>
      cases kept _ rfl
      exact .own known own
  | above known own _ ih =>
      rw [List.cons_append]
      refine .above known own ?_
      rw [← List.append_assoc]
      exact ih second kept

end EntityIndex

namespace Query

variable {name : String} {info : ClassInfo} {r : Reflector}

theorem known_of_classNamed (answered : (classNamed name).result r = .ok info)
    (same : ((classNamed name).next r).index = r.index) :
    r.index.class? (stripSeparator name) = some info := by
  rw [← same]
  exact known_after_classNamed answered

end Query

namespace Hierarchy

open Query

variable {α : Type}

theorem not_ok_tooDeep {info : ClassInfo} {member : α} {r : Reflector} :
    (do refuseCycle info; tooDeep info : Query α).result r ≠ .ok member := by
  intro answered
  obtain ⟨_, _, rest⟩ := ok_of_bind answered
  cases rest

theorem aboveClass_ok {info : ClassInfo} {query : Query α} (looks : query.Looks)
    {r : Reflector} {answer : α} (answered : (aboveClass info query).result r = .ok answer)
    (same : ((aboveClass info query).next r).index = r.index) :
    ∃ within : Reflector, within.index = r.index ∧ query.result within = .ok answer ∧
      (query.next within).index = within.index := by
  have inside := inside_looks (Underway.leaveClass_enterClass info.name) looks
  obtain ⟨_, refused, rest⟩ := ok_of_bind answered
  obtain ⟨middle, last⟩ := index_of_bind (refuseCycle_looks info).advances
    (fun _ => inside.advances) same
  have last := last _ refused
  rw [result_inside] at rest
  rw [next_inside] at last
  refine ⟨_, ?_, rest, last⟩
  exact middle

theorem orAncestor_looks {visit : ClassInfo → AncestorEdge → Query (Option α)}
    (looks : ∀ info edge, (visit info edge).Looks) (rest : List (String × AncestorEdge))
    (answer : Option α) :
    (match answer with
      | some answer => pure (some answer)
      | none => firstAncestor visit rest : Query (Option α)).Looks := by
  cases answer with
  | some answer => exact .pure _
  | none => exact firstAncestor_looks looks rest

theorem firstAncestor_finds {kind : MemberKind α} {key : NameKey} {inherited : Bool}
    {visit : ClassInfo → AncestorEdge → Query (Option α)}
    (looks : ∀ info edge, (visit info edge).Looks)
    (finds : ∀ info edge r found, (visit info edge).result r = .ok found →
      ((visit info edge).next r).index = r.index →
        r.index.Finds kind key (inherited || edge != .trait) info found)
    (names : List (String × AncestorEdge)) {r : Reflector} {found : Option α}
    (answered : (firstAncestor visit names).result r = .ok found)
    (same : ((firstAncestor visit names).next r).index = r.index) :
    r.index.FindsAmong kind key
      (names.map fun (name, edge) => (inherited || edge != .trait, name)) found := by
  induction names generalizing r with
  | nil =>
      cases answered
      exact .nothing
  | cons entry rest ih =>
      obtain ⟨name, edge⟩ := entry
      have restLooks := fun answer => orAncestor_looks looks rest answer
      unfold firstAncestor at answered same
      obtain ⟨ancestor, named, visited⟩ := ok_of_bind answered
      obtain ⟨sameNamed, afterNamed⟩ := index_of_bind (classNamed_looks name).advances
        (fun ancestor => .bind (looks ancestor edge).advances
          fun answer => (restLooks answer).advances) same
      have known := known_of_classNamed named sameNamed
      obtain ⟨answer, first, last⟩ := ok_of_bind visited
      obtain ⟨sameVisit, afterVisit⟩ := index_of_bind (looks ancestor edge).advances
        (fun answer => (restLooks answer).advances) (afterNamed _ named)
      have here := finds ancestor edge _ _ first sameVisit
      have sameRest := afterVisit _ first
      rw [sameNamed] at here sameVisit
      rw [List.map_cons]
      cases answer with
      | some member =>
          cases last
          cases here with
          | own own => exact .own known own
          | above own among => exact .above known own (among.append nofun fun _ same => same)
      | none =>
          have others := ih last sameRest
          rw [sameVisit] at others
          cases here with
          | above own among => exact .above known own (among.append (fun _ => others) nofun)

/-- A member that the code finds is the one that the order of the ancestors gives. -/
theorem findMember_finds {kind : MemberKind α} {key : NameKey} {room : Nat}
    {inherited : Bool} {info : ClassInfo} {r : Reflector} {found : Option α}
    (answered : (findMember kind key room inherited info).result r = .ok found)
    (same : ((findMember kind key room inherited info).next r).index = r.index) :
    r.index.Finds kind key inherited info found := by
  induction room generalizing inherited info r found with
  | zero =>
      unfold findMember at answered
      split at answered
      · cases answered
        exact .own ‹_›
      · exact absurd answered not_ok_tooDeep
  | succ room ih =>
      unfold findMember at answered same
      split at answered
      · cases answered
        exact .own ‹_›
      · rename_i own
        rw [own] at same
        have looks := fun ancestor (edge : AncestorEdge) =>
          findMember_looks kind key room (inherited || edge != .trait) ancestor
        obtain ⟨within, sameWithin, answered, same⟩ :=
          aboveClass_ok (firstAncestor_looks looks _) answered same
        rw [← sameWithin]
        exact .above own (firstAncestor_finds looks
          (fun _ _ _ _ answered same => ih answered same) _ answered same)

end Hierarchy

/-- Reflectors that the look-up of a member cannot tell apart. -/
structure Alike (r s : Reflector) : Prop where
  index : s.index = r.index
  options : s.options = r.options
  classes : s.underway.classes = r.underway.classes

theorem Alike.look {r s next nextToo : Reflector} (alike : Alike r s) (look : Look r next)
    (lookToo : Look s nextToo) (same : next.index = r.index)
    (sameToo : nextToo.index = s.index) : Alike next nextToo where
  index := by rw [sameToo, alike.index, same]
  options := by rw [lookToo.options, alike.options, look.options]
  classes := by rw [lookToo.underway, alike.classes, look.underway]

/-- An answer that needs no new file is the same for all reflectors that are alike. -/
def Query.Determined {α : Type} (query : Query α) : Prop :=
  ∀ r s answer, Alike r s → (query.next r).index = r.index →
    (query.next s).index = s.index → query.result r = .ok answer → query.result s = .ok answer

namespace Query

variable {α β : Type}

theorem Determined.bind {query : Query α} {rest : α → Query β} (first : query.Determined)
    (looks : query.Looks) (second : ∀ value, (rest value).Determined)
    (restLooks : ∀ value, (rest value).Looks) : (query >>= rest).Determined := by
  intro r s answer alike same sameToo answered
  obtain ⟨given, answeredFirst, answeredRest⟩ := ok_of_bind answered
  have restAdvances := fun value => (restLooks value).advances
  obtain ⟨middle, last⟩ := index_of_bind looks.advances restAdvances same
  obtain ⟨middleToo, lastToo⟩ := index_of_bind looks.advances restAdvances sameToo
  have firstToo := first r s given alike middle middleToo answeredFirst
  rw [result_bind_ok firstToo]
  exact second given _ _ answer (alike.look (looks.next r) (looks.next s) middle middleToo)
    (last _ answeredFirst) (lastToo _ firstToo) answeredRest

theorem Determined.pure (value : α) : (Pure.pure value : Query α).Determined :=
  fun _ _ _ _ _ _ answered => answered

theorem classNamed_determined (name : String) : (classNamed name).Determined := by
  intro r s info alike same _ answered
  have known := known_of_classNamed answered same
  rw [← alike.index] at known
  exact (classNamed_of_known known).1

theorem constant?_determined (name : String) : (constant? name).Determined := by
  intro r s found alike _ _ answered
  rw [result_constant?] at answered ⊢
  rw [alike.index]
  exact answered

end Query

namespace Hierarchy

open Query

variable {α : Type}

theorem refuseCycle_determined (info : ClassInfo) : (refuseCycle info).Determined := by
  intro r s answer alike _ _ answered
  unfold refuseCycle at answered ⊢
  rw [result_get_bind] at answered ⊢
  rw [alike.classes]
  split at answered
  · cases answered
  · exact answered

theorem aboveClass_determined {info : ClassInfo} {query : Query α} (looks : query.Looks)
    (determined : query.Determined) : (aboveClass info query).Determined := by
  refine .bind (refuseCycle_determined info) (refuseCycle_looks info) (fun _ => ?_)
    fun _ => inside_looks (Underway.leaveClass_enterClass info.name) looks
  intro r s answer alike same sameToo answered
  rw [result_inside] at answered ⊢
  rw [next_inside] at same sameToo
  refine determined _ _ answer ?_ same sameToo answered
  refine ⟨alike.index, alike.options, ?_⟩
  change s.underway.classes ++ [info.name] = r.underway.classes ++ [info.name]
  rw [alike.classes]

theorem firstAncestor_determined {visit : ClassInfo → AncestorEdge → Query (Option α)}
    (looks : ∀ info edge, (visit info edge).Looks)
    (determined : ∀ info edge, (visit info edge).Determined)
    (names : List (String × AncestorEdge)) : (firstAncestor visit names).Determined := by
  induction names with
  | nil => exact .pure _
  | cons entry rest ih =>
      unfold firstAncestor
      have restLooks := fun answer => orAncestor_looks looks rest answer
      refine .bind (classNamed_determined entry.1) (classNamed_looks entry.1)
        (fun ancestor => ?_) fun ancestor => .bind (looks ancestor entry.2) restLooks
      refine .bind (determined ancestor entry.2) (looks ancestor entry.2)
        (fun answer => ?_) restLooks
      cases answer with
      | some answer => exact .pure _
      | none => exact ih

theorem findMember_determined (kind : MemberKind α) (key : NameKey) (room : Nat)
    (inherited : Bool) (info : ClassInfo) :
    (findMember kind key room inherited info).Determined := by
  induction room generalizing inherited info with
  | zero =>
      unfold findMember
      split
      · exact .pure _
      · exact fun _ _ _ _ _ _ answered => absurd answered not_ok_tooDeep
  | succ room ih =>
      unfold findMember
      split
      · exact .pure _
      · have looks := fun ancestor (edge : AncestorEdge) =>
          findMember_looks kind key room (inherited || edge != .trait) ancestor
        exact aboveClass_determined (firstAncestor_looks looks _)
          (firstAncestor_determined looks (fun ancestor edge => ih _ ancestor) _)

end Hierarchy

namespace Query

variable {α : Type}

theorem member?_finds {kind : MemberKind α} {info : ClassInfo} {name : String}
    {r : Reflector} {found : Option α} (answered : (member? kind info name).result r = .ok found)
    (same : ((member? kind info name).next r).index = r.index) :
    r.index.Finds kind (kind.key name) false info found :=
  Hierarchy.findMember_finds answered same

theorem member?_determined (kind : MemberKind α) (info : ClassInfo) (name : String) :
    (member? kind info name).Determined := by
  refine .bind ?_ Hierarchy.room_looks
    (fun room => Hierarchy.findMember_determined kind _ room false info)
    fun room => Hierarchy.findMember_looks kind _ room false info
  intro r s answer alike _ _ answered
  cases answered
  change Except.ok _ = Except.ok _
  rw [alike.options, alike.classes]

end Query

end StaticReflection
