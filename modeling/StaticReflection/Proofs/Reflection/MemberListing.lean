import StaticReflection.Proofs.Reflection.KeyedTables

namespace StaticReflection

/-! Looking a member up and listing all members agree. Both walk the same ancestors in the
same order; the look-up stops at the first member with the key, and the listing keeps the
first member with each key. -/

/-- Two reflectors that answer alike: the same one, or two that know the same
files, have the same options and no locator. -/
def Matched (r s : Reflector) : Prop :=
  s = r ∨ Alike r s ∧ r.locator = .nowhere ∧ s.locator = .nowhere

namespace Query

theorem locateClass_nowhere {name : String} {r : Reflector} (nowhere : r.locator = .nowhere) :
    (locateClass name).result r = .error (.classNotFound name) := by
  unfold locateClass
  rw [result_modify_bind, result_get_bind]
  simp [nowhere, Locator.locate?]

theorem classNamed_nowhere {name : String} {r : Reflector} (nowhere : r.locator = .nowhere) :
    (classNamed name).result r =
      match r.index.class? (stripSeparator name) with
      | some info => .ok info
      | none => .error (.classNotFound (stripSeparator name)) := by
  cases known : r.index.class? (stripSeparator name) with
  | some info => exact (classNamed_of_known known).1
  | none =>
      apply result_bind_error
      rw [result, describeClass_of_unknown known]
      exact result_bind_error (locateClass_nowhere nowhere) _

end Query

namespace Matched

variable {r s : Reflector} (matched : Matched r s)

include matched

theorem options : s.options = r.options := by
  rcases matched with rfl | ⟨alike, _⟩
  · rfl
  · exact alike.options

theorem classes : s.underway.classes = r.underway.classes := by
  rcases matched with rfl | ⟨alike, _⟩
  · rfl
  · exact alike.classes

theorem classNamed (name : String) :
    (Query.classNamed name).result s = (Query.classNamed name).result r ∧
      Matched ((Query.classNamed name).next r) ((Query.classNamed name).next s) := by
  rcases matched with rfl | ⟨alike, nowhere, nowhereToo⟩
  · exact ⟨rfl, .inl rfl⟩
  · have look := (Query.classNamed_looks name).next r
    have lookToo := (Query.classNamed_looks name).next s
    refine ⟨?_, .inr ⟨?_, look.locator.trans nowhere, lookToo.locator.trans nowhereToo⟩⟩
    · rw [Query.classNamed_nowhere nowhere, Query.classNamed_nowhere nowhereToo, alike.index]
    · exact alike.look look lookToo (look.stays nowhere) (lookToo.stays nowhereToo)

theorem withUnderway (change : Underway → Underway)
    (classes : ∀ u v : Underway, u.classes = v.classes →
      (change u).classes = (change v).classes) :
    Matched (r.withUnderway (change r.underway)) (s.withUnderway (change s.underway)) := by
  rcases matched with rfl | ⟨alike, nowhere, nowhereToo⟩
  · exact .inl rfl
  · exact .inr ⟨⟨alike.index, alike.options, classes _ _ alike.classes⟩, nowhere, nowhereToo⟩

theorem entering (name : String) :
    Matched (r.withUnderway (r.underway.enterClass name))
      (s.withUnderway (s.underway.enterClass name)) :=
  matched.withUnderway (·.enterClass name) fun _ _ same => congrArg (· ++ [name]) same

theorem leaving :
    Matched (r.withUnderway r.underway.leaveClass) (s.withUnderway s.underway.leaveClass) :=
  matched.withUnderway (·.leaveClass) fun _ _ same => congrArg List.dropLast same

end Matched

namespace Hierarchy

open Query

variable {α : Type} {key : NameKey}

/-- A look-up of a key and a listing that has not met the key before. An error of the
look-up is one of the listing; where the look-up finds nothing, the listing goes on without
the key; and what the look-up finds is what the listing has, if it comes to its end. -/
def Parallel (key : NameKey) (find : Query (Option α)) (list : Query (OrderedMap NameKey α))
    (r s : Reflector) : Prop :=
  match find.result r with
  | .error error => list.result s = .error error
  | .ok none =>
      ∃ found, list.result s = .ok found ∧ found.find? key = none ∧
        Matched (find.next r) (list.next s)
  | .ok (some member) => ∀ found, list.result s = .ok found → found.find? key = some member

/-- The listing keeps the member that it has for a key. -/
def Retains (key : NameKey) (list : OrderedMap NameKey α → Query (OrderedMap NameKey α)) :
    Prop :=
  ∀ found s result member, found.find? key = some member →
    (list found).result s = .ok result → result.find? key = some member

theorem aboveClass_result {info : ClassInfo} {query : Query α} {r : Reflector} :
    (aboveClass info query).result r =
      match cycleFrom? r.underway.classes info.name with
      | some cycle => .error (.inheritanceCycle cycle)
      | none => query.result (r.withUnderway (r.underway.enterClass info.name)) := by
  unfold aboveClass refuseCycle
  rw [bind_assoc, result_get_bind]
  cases cycleFrom? r.underway.classes info.name with
  | some cycle => rfl
  | none => exact result_inside (·.enterClass info.name) (·.leaveClass) query r

theorem aboveClass_next {info : ClassInfo} {query : Query α} {r : Reflector}
    (acyclic : cycleFrom? r.underway.classes info.name = none) :
    (aboveClass info query).next r =
      let after := query.next (r.withUnderway (r.underway.enterClass info.name))
      after.withUnderway after.underway.leaveClass := by
  unfold aboveClass refuseCycle
  rw [bind_assoc, next_get_bind, acyclic]
  exact next_inside (·.enterClass info.name) (·.leaveClass) query r

theorem tooDeep_result {info : ClassInfo} {r : Reflector} :
    (do refuseCycle info; tooDeep info : Query α).result r =
      match cycleFrom? r.underway.classes info.name with
      | some cycle => .error (.inheritanceCycle cycle)
      | none => .error (.depthLimit (.ancestors info.name) r.options.maxInheritanceDepth) := by
  unfold refuseCycle
  rw [bind_assoc, result_get_bind]
  cases cycleFrom? r.underway.classes info.name <;> rfl

theorem foldAncestors_retains
    {visit : OrderedMap NameKey α → ClassInfo → AncestorEdge → Query (OrderedMap NameKey α)}
    (retains : ∀ info edge, Retains key fun found => visit found info edge)
    (names : List (String × AncestorEdge)) :
    Retains key fun found => foldAncestors visit found names := by
  induction names with
  | nil =>
      intro found s result member known answered
      cases answered
      exact known
  | cons entry rest ih =>
      intro found s result member known answered
      obtain ⟨ancestor, _, visited⟩ := ok_of_bind answered
      obtain ⟨middle, first, last⟩ := ok_of_bind visited
      exact ih middle _ result member (retains ancestor entry.2 _ _ _ _ known first) last

theorem collectMembers_retains (kind : MemberKind α) (key : NameKey) (room : Nat)
    (inherited : Bool) (info : ClassInfo) :
    Retains key fun found => collectMembers kind room inherited found info := by
  induction room generalizing inherited info with
  | zero => exact fun _ _ _ _ _ answered => absurd answered not_ok_tooDeep
  | succ room ih =>
      intro found s result member known answered
      unfold collectMembers at answered
      rw [aboveClass_result] at answered
      split at answered
      · cases answered
      · refine foldAncestors_retains (fun ancestor edge => ih _ ancestor) _ _ _ _ _ ?_ answered
        rw [OrderedMap.find?_foldl_insertNew, known]
        rfl

theorem ancestors_parallel {visit : ClassInfo → AncestorEdge → Query (Option α)}
    {list : OrderedMap NameKey α → ClassInfo → AncestorEdge → Query (OrderedMap NameKey α)}
    (retains : ∀ info edge, Retains key fun found => list found info edge)
    (parallel : ∀ found info edge r s, info.IsDeclared → Matched r s →
      found.find? key = none → Parallel key (visit info edge) (list found info edge) r s)
    (names : List (String × AncestorEdge)) {found : OrderedMap NameKey α} {r s : Reflector}
    (matched : Matched r s) (absent : found.find? key = none) :
    Parallel key (firstAncestor visit names) (foldAncestors list found names) r s := by
  induction names generalizing found r s with
  | nil => exact ⟨found, rfl, absent, matched⟩
  | cons entry rest ih =>
      obtain ⟨name, edge⟩ := entry
      obtain ⟨sameClass, matchedNamed⟩ := matched.classNamed name
      unfold firstAncestor foldAncestors Parallel
      cases named : (classNamed name).result r with
      | error error =>
          rw [result_bind_error named, result_bind_error (sameClass.trans named)]
      | ok ancestor =>
          have namedToo := sameClass.trans named
          have here := parallel found ancestor edge _ _
            (isDeclared_of_classNamed named) matchedNamed absent
          rw [result_bind_ok named, result_bind_ok namedToo, next_bind_ok named,
            next_bind_ok namedToo]
          unfold Parallel at here
          cases visited : (visit ancestor edge).result ((classNamed name).next r) with
          | error error =>
              rw [visited] at here
              rw [result_bind_error visited, result_bind_error here]
          | ok answer =>
              rw [visited] at here
              rw [result_bind_ok visited, next_bind_ok visited]
              cases answer with
              | some member =>
                  intro result answered
                  obtain ⟨middle, first, last⟩ := ok_of_bind answered
                  exact foldAncestors_retains retains rest _ _ _ _ (here middle first) last
              | none =>
                  obtain ⟨middle, listed, stillAbsent, matchedVisit⟩ := here
                  rw [result_bind_ok listed, next_bind_ok listed]
                  exact ih matchedVisit stillAbsent

theorem find?_addOwn {kind : MemberKind α} {nameOf : α → String} (names : kind.Names nameOf)
    {info : ClassInfo} (declared : info.IsDeclared) (inherited : Bool)
    (found : OrderedMap NameKey α) (key : NameKey) :
    ((kind.own inherited info).foldl (fun found (key, member) =>
      found.insertNew key member) found).find? key =
        (found.find? key <|> kind.own? key inherited info) := by
  rw [OrderedMap.find?_foldl_insertNew]
  unfold MemberKind.own MemberKind.own?
  rw [(declared.named.table names).lookup_filter]

theorem aboveClass_parallel {info : ClassInfo} {find : Query (Option α)}
    {list : Query (OrderedMap NameKey α)} {r s : Reflector} (matched : Matched r s)
    (parallel : ∀ r s, Matched r s → Parallel key find list r s) :
    Parallel key (aboveClass info find) (aboveClass info list) r s := by
  unfold Parallel
  rw [aboveClass_result, aboveClass_result, matched.classes]
  cases acyclic : cycleFrom? r.underway.classes info.name with
  | some cycle => rfl
  | none =>
      have within := parallel _ _ (matched.entering info.name)
      rw [aboveClass_next acyclic, aboveClass_next (matched.classes ▸ acyclic)]
      unfold Parallel at within
      dsimp only
      split at within
      · rename_i failed
        rw [failed]
        exact within
      · rename_i nothing
        rw [nothing]
        obtain ⟨found, listed, absent, after⟩ := within
        exact ⟨found, listed, absent, after.leaving⟩
      · rename_i here
        rw [here]
        exact within

theorem findMember_parallel {kind : MemberKind α} {nameOf : α → String}
    (names : kind.Names nameOf) (room : Nat) {inherited : Bool} {info : ClassInfo}
    {found : OrderedMap NameKey α} {r s : Reflector} (declared : info.IsDeclared)
    (matched : Matched r s) (absent : found.find? key = none) :
    Parallel key (findMember kind key room inherited info)
      (collectMembers kind room inherited found info) r s := by
  induction room generalizing inherited info found r s with
  | zero =>
      unfold findMember collectMembers
      cases kind.own? key inherited info with
      | some member => exact fun _ answered => absurd answered not_ok_tooDeep
      | none =>
          unfold Parallel
          dsimp only
          rw [tooDeep_result, tooDeep_result, matched.classes, matched.options]
          cases cycleFrom? r.underway.classes info.name <;> rfl
  | succ room ih =>
      have added := find?_addOwn names declared inherited found key
      rw [absent] at added
      have retains := fun ancestor (edge : AncestorEdge) =>
        collectMembers_retains kind key room (inherited || edge != .trait) ancestor
      unfold findMember collectMembers
      cases own : kind.own? key inherited info with
      | some member =>
          intro result answered
          rw [own] at added
          rw [aboveClass_result] at answered
          split at answered
          · cases answered
          · exact foldAncestors_retains retains _ _ _ _ _ added answered
      | none =>
          rw [own] at added
          exact aboveClass_parallel matched fun r s matched =>
            ancestors_parallel retains
              (fun _ _ _ _ _ declared matched absent => ih declared matched absent)
              _ matched added

/-! What a listing holds. -/

/-- A listing keeps each member under the key of its name. -/
def Orderly (kind : MemberKind α) (nameOf : α → String)
    (list : OrderedMap NameKey α → Query (OrderedMap NameKey α)) : Prop :=
  ∀ found s result, found.KeyedBy (fun member => kind.key (nameOf member)) →
    (list found).result s = .ok result →
      result.KeyedBy fun member => kind.key (nameOf member)

theorem foldAncestors_orderly {kind : MemberKind α} {nameOf : α → String}
    {visit : OrderedMap NameKey α → ClassInfo → AncestorEdge → Query (OrderedMap NameKey α)}
    (orderly : ∀ info edge, info.IsDeclared →
      Orderly kind nameOf fun found => visit found info edge)
    (names : List (String × AncestorEdge)) :
    Orderly kind nameOf fun found => foldAncestors visit found names := by
  induction names with
  | nil =>
      intro found s result keyed answered
      cases answered
      exact keyed
  | cons entry rest ih =>
      intro found s result keyed answered
      obtain ⟨ancestor, named, visited⟩ := ok_of_bind answered
      obtain ⟨middle, first, last⟩ := ok_of_bind visited
      have keyedMiddle :=
        orderly ancestor entry.2 (isDeclared_of_classNamed named) found _ middle keyed first
      exact ih middle _ result keyedMiddle last

theorem keyedBy_addOwn {kind : MemberKind α} {nameOf : α → String}
    (names : kind.Names nameOf) {info : ClassInfo} (declared : info.IsDeclared)
    (inherited : Bool) {found : OrderedMap NameKey α}
    (keyed : found.KeyedBy fun member => kind.key (nameOf member)) :
    ((kind.own inherited info).foldl (fun found (key, member) =>
      found.insertNew key member) found).KeyedBy fun member => kind.key (nameOf member) := by
  refine List.foldlRecOn
    (motive := (OrderedMap.KeyedBy · fun member => kind.key (nameOf member)))
    _ _ keyed fun found keyed entry member => keyed.insertNew ?_
  exact (declared.named.table names).key_of_mem (List.mem_filter.mp member).1

theorem collectMembers_orderly {kind : MemberKind α} {nameOf : α → String}
    (names : kind.Names nameOf) (room : Nat) {inherited : Bool} {info : ClassInfo}
    (declared : info.IsDeclared) :
    Orderly kind nameOf fun found => collectMembers kind room inherited found info := by
  induction room generalizing inherited info with
  | zero => exact fun _ _ _ _ answered => absurd answered not_ok_tooDeep
  | succ room ih =>
      intro found s result keyed answered
      unfold collectMembers at answered
      rw [aboveClass_result] at answered
      split at answered
      · cases answered
      · exact foldAncestors_orderly (fun ancestor edge declared => ih declared) _ _ _ result
          (keyedBy_addOwn names declared inherited keyed) answered

end Hierarchy

/-! Classes at which the agreement can be seen. -/

namespace Family

def propertyOf (visibility : WrittenModifiers) (declarator : NodeId) : Node :=
  .property ⟨visibility, none, [declarator], none⟩

def classOf (kind : ClassKind) (name : String) (parents : List String)
    (members : List NodeId) : Node :=
  .classLike ⟨kind, name, .none, parents, [], none, members, none⟩

/-- The nodes of `class P { private $p; public $q; }`, `trait T { private $t; }` and
`class C extends P { use T; }`. -/
def nodes : List Node :=
  [.propertyDeclarator "p" none, propertyOf { isPrivate := true } 0,
    .propertyDeclarator "q" none, propertyOf { isPublic := true } 2,
    classOf .plain "P" [] [1, 3],
    .propertyDeclarator "t" none, propertyOf { isPrivate := true } 5,
    classOf .trait "T" [] [6],
    .traitUse ["T"], classOf .plain "C" ["P"] [8],
    .sourceFile "/family.php" [4, 7, 9]]

def arena : Arena :=
  ⟨(nodes.map fun node => (node, ⟨0, 0⟩)).toArray⟩

def file : SourceFile where
  path := "/family.php"
  text := []
  lines := ⟨[0]⟩
  arena
  root := 10
  diagnostics := []
  blocks := namespaceBlocks ⟨arena, ⟨[0]⟩⟩ 10

def reflector : Reflector where
  index := .ofFiles [file]

def child : ClassInfo :=
  (reflector.index.class? "C").get rfl

theorem child_known : reflector.index.class? "C" = some child :=
  (Option.some_get _).symm

end Family

/-- Looking a member up by name and listing all members never contradict each other: one
fails where the other does, with the same error, and what is found by name is the member
with that name in the list. -/
theorem lookup_agrees_with_listing {α : Type} {kind : MemberKind α} {nameOf : α → String}
    (names : kind.Names nameOf) {r s : Reflector} (matched : Matched r s) {info : ClassInfo}
    (declared : info.IsDeclared) (name : String) :
    let found := (Query.member? kind info name).result r
    let listed := (Query.members kind info).result s
    (∀ list, listed = .ok list →
      (list.map fun member => kind.key (nameOf member)).Nodup ∧
      found = .ok (list.find? fun member => kind.key (nameOf member) = kind.key name)) ∧
    (found = .ok none → ∃ list, listed = .ok list) ∧
    ∀ error, found = .error error → listed = .error error := by
  intro found listed
  let room := r.options.maxInheritanceDepth - r.underway.classes.length
  let list := Hierarchy.collectMembers kind room false {} info
  have foundIs : found =
      (Hierarchy.findMember kind (kind.key name) room false info).result r := rfl
  have listedIs : listed = (list >>= fun found => pure found.values).result s := by
    change (Hierarchy.collectMembers kind _ false {} info >>= _).result s = _
    rw [matched.options, matched.classes]
  have parallel : Hierarchy.Parallel (kind.key name) _ list r s :=
    Hierarchy.findMember_parallel names room declared matched (OrderedMap.find?_empty _)
  unfold Hierarchy.Parallel at parallel
  rw [← foundIs] at parallel
  rw [listedIs]
  clear_value found
  refine ⟨fun all answered => ?_, fun nothing => ?_, fun error failed => ?_⟩
  · obtain ⟨collected, listing, rfl⟩ : ∃ collected, list.result s = .ok collected ∧
        collected.values = all := by
      obtain ⟨collected, listing, last⟩ := Query.ok_of_bind answered
      cases last
      exact ⟨collected, listing, rfl⟩
    have keyed := Hierarchy.collectMembers_orderly names room declared {} s collected
      OrderedMap.keyedBy_empty listing
    refine ⟨keyed.keys ▸ keyed.nodup, ?_⟩
    rw [← keyed.find?_eq]
    split at parallel
    · rw [listing] at parallel
      cases parallel
    · obtain ⟨_, listingToo, absent, _⟩ := parallel
      cases listing.symm.trans listingToo
      rw [absent]
    · rw [parallel collected listing]
  · rw [nothing] at parallel
    obtain ⟨collected, listing, _⟩ := parallel
    exact ⟨collected.values, by rw [Query.result_bind_ok listing]; rfl⟩
  · rw [failed] at parallel
    exact Query.result_bind_error parallel _

open Family in
/-- A private property of the parent is hidden from both, one of the trait from neither. -/
theorem private_of_trait_found_and_listed :
    Matched reflector reflector ∧ child.IsDeclared ∧
    ∃ list, (Query.members .property child).result reflector = .ok list ∧
      list.map (·.name) = ["q", "t"] ∧
      (Query.member? .property child "t").result reflector =
        .ok (list.find? fun property => NameKey.exact property.name = .exact "t") ∧
      (Query.member? .property child "p").result reflector = .ok none := by
  have matched : Matched reflector reflector := .inl rfl
  have declared : child.IsDeclared := EntityIndex.isDeclared_of_class? child_known
  obtain ⟨list, listed, namesOf⟩ : ∃ list,
      (Query.members .property child).result reflector = .ok list ∧
        list.map (·.name) = ["q", "t"] := ⟨_, rfl, rfl⟩
  have agrees := fun name =>
    (lookup_agrees_with_listing .property matched declared name).1 list listed
  exact ⟨matched, declared, list, listed, namesOf, (agrees "t").2, rfl⟩

end StaticReflection
