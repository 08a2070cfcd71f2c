import StaticReflection.Proofs.Reflection.Descriptors

namespace StaticReflection

/-! Finding declarations by name, and members and ancestors of classes, are look-ups. -/

theorem EntityIndex.files_foldl_addBlock (places : List PlacedBlock) (index : EntityIndex) :
    (places.foldl addBlock index).files = index.files := by
  induction places generalizing index with
  | nil => rfl
  | cons place rest ih => rw [List.foldl_cons, ih]; rfl

theorem EntityIndex.grows_addFile (index : EntityIndex) (file : SourceFile) :
    index.Grows (index.addFile file) := by
  unfold addFile
  dsimp only
  split
  · exact .inl rfl
  · right
    simp [files_foldl_addBlock]

/-- An outcome that is remembered is never replaced. -/
theorem SourceCache.within_remember (cache : SourceCache) (key : PathKey)
    (outcome : Unit → Except SourceError SourceFile) :
    cache.Within (cache.remember key outcome).2 := by
  unfold remember
  split
  · exact cache.within_refl
  · exact ⟨rfl, cache.outcomes.within_insertNew key _⟩

namespace Query

variable {α : Type}

theorem withSources_loads {change : SourceCache → Except SourceError α × SourceCache}
    (keeps : ∀ cache : SourceCache, cache.Within (change cache).2) :
    (withSources change).Loads := by
  intro r
  have load : Load r { r with sources := (change r.sources).2 } :=
    ⟨rfl, rfl, rfl, rfl, List.prefix_refl _, .inl rfl, keeps r.sources, r.index.within_refl,
      r.descriptors.within_refl⟩
  unfold withSources
  rw [next_get_bind, result_get_bind, next_modify_bind, result_modify_bind]
  split
  · refine ⟨load, fun error failed => ?_⟩
    cases failed
  · refine ⟨load, fun error failed => ?_⟩
    cases failed
    intro cycle same
    cases same

theorem addFile_loads (file : SourceFile) : (addFile file).Loads :=
  .modify fun r => ⟨rfl, rfl, rfl, rfl, List.prefix_refl _, r.index.grows_addFile file,
    r.sources.within_refl, r.index.within_addFile file, r.descriptors.within_refl⟩

theorem loadFile_loads (path : String) : (withSources (·.loadFile path)).Loads :=
  withSources_loads fun cache => cache.within_remember _ _

theorem file_loads (path : String) : (file path).Loads :=
  .bind (loadFile_loads path) fun loaded => .bind (addFile_loads loaded) fun _ => .pure _

theorem text_loads (path : String) (written : Text) : (text path written).Loads :=
  .bind (withSources_loads fun cache => cache.within_remember _ _) fun loaded =>
    .bind (addFile_loads loaded) fun _ => .pure _

theorem blockOf_loads (file : SourceFile) (name : String) : (blockOf file name).Loads := by
  unfold blockOf
  dsimp only
  split
  · split
    · exact .pure _
    · exact .throw nofun
  · exact .throw nofun

theorem namespaceOf_loads (path name : String) : (namespaceOf path name).Loads :=
  .bind (loadFile_loads path) fun loaded =>
    .bind (blockOf_loads loaded name) fun _ => .bind (addFile_loads loaded) fun _ => .pure _

theorem locateClass_loads (name : String) : (locateClass name).Loads := by
  refine .bind (.modify fun r => ⟨rfl, rfl, rfl, rfl, List.prefix_refl _, .inl rfl,
    r.sources.within_refl, r.index.within_refl, r.descriptors.within_refl⟩) fun _ => ?_
  refine .bind .get fun reflector => ?_
  split
  · exact .throw nofun
  · exact .bind (file_loads _) fun _ => .pure _

theorem locateClass_looks (name : String) : (locateClass name).Looks := by
  refine fun r => ⟨⟨(locateClass_loads name).next r, fun nowhere => ?_⟩,
    fun _ failed => (locateClass_loads name).error failed⟩
  unfold locateClass
  rw [next_modify_bind, next_get_bind]
  simp [nowhere, Locator.locate?]

theorem describeClass_looks (name : String) : (describeClass name).Looks := by
  refine .bind (describe?_notes _ _).looks fun found => ?_
  cases found with
  | some descriptor => exact .pure descriptor
  | none => exact .bind (locateClass_looks _) fun _ => Notes.looks (describeKnown_notes nofun)

theorem classNamed_looks (name : String) : (classNamed name).Looks :=
  .bind (describeClass_looks name) fun _ => .pure _

/-- With a leave for each enter, a look-up inside something is a look-up. -/
theorem inside_looks {enter leave : Underway → Underway} (undone : ∀ u, leave (enter u) = u)
    {query : Query α} (looks : query.Looks) : (inside enter leave query).Looks := by
  intro r
  have look := looks.next (r.withUnderway (enter r.underway))
  rw [next_inside, result_inside]
  refine ⟨⟨⟨?_, look.options, look.locator, look.states, look.hidden, look.index,
    look.sources, look.declared, look.described⟩, look.stays⟩, fun _ failed => looks.error failed⟩
  change leave (query.next _).underway = r.underway
  rw [look.underway]
  exact undone r.underway

theorem inside_advances {enter leave : Underway → Underway}
    (undone : ∀ u, leave (enter u) = u) {query : Query α} (advances : query.Advances) :
    (inside enter leave query).Advances := by
  intro r
  have advance := advances.next (r.withUnderway (enter r.underway))
  rw [next_inside]
  refine ⟨⟨⟨?_, advance.options, advance.locator, advance.hidden, advance.index,
    advance.sources, advance.declared, advance.described, advance.settled, advance.opened⟩,
    advance.stays⟩,
    fun _ _ => trivial⟩
  change leave (query.next _).underway = r.underway
  rw [advance.underway]
  exact undone r.underway

end Query

@[simp] theorem Underway.leaveClass_enterClass (name : String) (underway : Underway) :
    (underway.enterClass name).leaveClass = underway := by
  simp [enterClass, leaveClass]

@[simp] theorem Underway.leaveConstant_enterConstant (identity : String)
    (underway : Underway) : (underway.enterConstant identity).leaveConstant = underway := by
  simp [enterConstant, leaveConstant]

@[simp] theorem Underway.leaveExpression_enterExpression (underway : Underway) :
    underway.enterExpression.leaveExpression = underway := by
  simp [enterExpression, leaveExpression]

namespace Hierarchy

variable {α β : Type}

theorem refuseCycle_looks (info : ClassInfo) : (refuseCycle info).Looks := by
  refine .bind .get fun reflector => ?_
  split
  · exact .throw nofun
  · exact .pure _

theorem tooDeep_looks (info : ClassInfo) : (tooDeep info : Query α).Looks :=
  .bind .options fun _ => .throw nofun

theorem aboveClass_looks (info : ClassInfo) {query : Query α} (looks : query.Looks) :
    (aboveClass info query).Looks :=
  .bind (refuseCycle_looks info) fun _ =>
    Query.inside_looks (Underway.leaveClass_enterClass info.name) looks

theorem firstAncestor_looks {visit : ClassInfo → AncestorEdge → Query (Option α)}
    (looks : ∀ info edge, (visit info edge).Looks) (names : List (String × AncestorEdge)) :
    (firstAncestor visit names).Looks := by
  induction names with
  | nil => exact .pure none
  | cons entry rest ih =>
      refine .bind (Query.classNamed_looks entry.1) fun ancestor => ?_
      refine .bind (looks ancestor entry.2) fun answer => ?_
      cases answer with
      | some answer => exact .pure (some answer)
      | none => exact ih

theorem foldAncestors_looks {visit : β → ClassInfo → AncestorEdge → Query β}
    (looks : ∀ result info edge, (visit result info edge).Looks)
    (names : List (String × AncestorEdge)) (start : β) :
    (foldAncestors visit start names).Looks := by
  induction names generalizing start with
  | nil => exact .pure start
  | cons entry rest ih =>
      refine .bind (Query.classNamed_looks entry.1) fun ancestor => ?_
      exact .bind (looks start ancestor entry.2) ih

theorem findMember_looks (kind : MemberKind α) (key : NameKey) (room : Nat)
    (inherited : Bool) (info : ClassInfo) :
    (findMember kind key room inherited info).Looks := by
  induction room generalizing inherited info with
  | zero =>
      unfold findMember
      split
      · exact .pure _
      · exact .bind (refuseCycle_looks info) fun _ => tooDeep_looks info
  | succ room ih =>
      unfold findMember
      split
      · exact .pure _
      · exact aboveClass_looks info (firstAncestor_looks (fun ancestor edge => ih _ ancestor) _)

theorem collectMembers_looks (kind : MemberKind α) (room : Nat) (inherited : Bool)
    (found : OrderedMap NameKey α) (info : ClassInfo) :
    (collectMembers kind room inherited found info).Looks := by
  induction room generalizing inherited found info with
  | zero => exact .bind (refuseCycle_looks info) fun _ => tooDeep_looks info
  | succ room ih =>
      exact aboveClass_looks info
        (foldAncestors_looks (fun found ancestor edge => ih _ found ancestor) _ _)

theorem collectAncestors_looks (room : Nat) (byTrait : Bool)
    (found : OrderedMap NameKey Ancestor) (info : ClassInfo) :
    (collectAncestors room byTrait found info).Looks := by
  induction room generalizing byTrait found info with
  | zero => exact .bind (refuseCycle_looks info) fun _ => tooDeep_looks info
  | succ room ih =>
      exact aboveClass_looks info
        (foldAncestors_looks (fun found ancestor edge => ih _ _ ancestor) _ _)

theorem room_looks : room.Looks :=
  .bind .options fun _ => .bind .get fun _ => .pure _

end Hierarchy

namespace Query

variable {α : Type}

theorem member?_looks (kind : MemberKind α) (info : ClassInfo) (name : String) :
    (member? kind info name).Looks :=
  .bind Hierarchy.room_looks fun room => Hierarchy.findMember_looks _ _ room _ info

theorem members_looks (kind : MemberKind α) (info : ClassInfo) :
    (members kind info).Looks :=
  .bind Hierarchy.room_looks fun room =>
    .bind (Hierarchy.collectMembers_looks _ room _ _ info) fun _ => .pure _

theorem ancestors_looks (info : ClassInfo) : (ancestors info).Looks :=
  .bind Hierarchy.room_looks fun room =>
    .bind (Hierarchy.collectAncestors_looks room _ _ info) fun _ => .pure _

theorem interfaceNames_looks (info : ClassInfo) : (interfaceNames info).Looks :=
  .bind (ancestors_looks info) fun _ => .pure _

theorem isSubclass_looks (info : ClassInfo) (name : String) :
    (isSubclass info name).Looks := by
  unfold isSubclass
  dsimp only
  split
  · exact .pure _
  · exact .bind (ancestors_looks info) fun _ => .pure _

theorem implementsInterface_looks (info : ClassInfo) (name : String) :
    (implementsInterface info name).Looks := by
  unfold implementsInterface
  dsimp only
  split
  · exact .pure _
  · exact .bind (interfaceNames_looks info) fun _ => .pure _

theorem classModifiers_looks (info : ClassInfo) : (classModifiers info).Looks :=
  .bind (members_looks .method info) fun _ => .pure _

theorem isAbstract_looks (info : ClassInfo) : (isAbstract info).Looks :=
  .bind (classModifiers_looks info) fun _ => .pure _

theorem isOpenClass_looks (info : ClassInfo) (method : String) :
    (isOpenClass info method).Looks := by
  unfold isOpenClass
  split
  · exact .pure _
  · refine .bind (isAbstract_looks info) fun isAbstract => ?_
    split
    · exact .pure _
    · refine .bind (member?_looks .method info method) fun found => ?_
      cases found <;> exact .pure _

theorem parent?_looks (info : ClassInfo) : (parent? info).Looks := by
  unfold parent?
  split
  · exact .bind (classNamed_looks _) fun _ => .pure _
  · exact .pure _

theorem interfaces_looks (info : ClassInfo) : (interfaces info).Looks :=
  .bind (interfaceNames_looks info) fun names => .mapM classNamed_looks names

end Query

end StaticReflection
