import StaticReflection.Proofs.Reflection.StateChanges

namespace StaticReflection

/-! The descriptor of a declaration is the one that is kept, or else a new one that is kept from
then on. The kept ones agree with the index, so what is found by way of them is what the index
has. -/

/-- A reflector that keeps no descriptor and has all else in common with another one. -/
def Reflector.bare (r : Reflector) : Reflector :=
  { r with descriptors := {}, agreement := Descriptors.agreeWith_of_none r.index }

/-- All that is new is that more descriptors are kept. -/
structure Note (r next : Reflector) : Prop where
  described : r.descriptors.Within next.descriptors
  rest : next.bare = r.bare

namespace Note

variable {r next : Reflector} (note : Note r next)

include note

theorem index : next.index = r.index :=
  (congrArg Reflector.index note.rest :)

theorem locator : next.locator = r.locator :=
  (congrArg Reflector.locator note.rest :)

theorem options : next.options = r.options :=
  (congrArg Reflector.options note.rest :)

theorem underway : next.underway = r.underway :=
  (congrArg Reflector.underway note.rest :)

theorem states : next.states = r.states :=
  (congrArg Reflector.states note.rest :)

theorem state (id : ConstantId) : next.state id = r.state id :=
  (congrArg (·.state id) note.rest :)

theorem hidden : next.hidden = r.hidden :=
  (congrArg Reflector.hidden note.rest :)

theorem sources : next.sources = r.sources :=
  (congrArg Reflector.sources note.rest :)

theorem look : Look r next where
  underway := note.underway
  options := note.options
  locator := note.locator
  states := note.states
  hidden := note.hidden ▸ List.prefix_refl _
  index := .inl note.index
  sources := note.sources ▸ r.sources.within_refl
  declared := note.index ▸ r.index.within_refl
  described := note.described
  stays _ := note.index

end Note

instance : IsPreorder Reflector Note where
  refl r := ⟨r.descriptors.within_refl, rfl⟩
  trans _ _ _ first second :=
    ⟨first.described.trans second.described, second.rest.trans first.rest⟩

/-- What is noted inside something is noted where it is left again. -/
theorem Note.outside {r next : Reflector} {enter leave : Underway → Underway}
    (undone : ∀ u, leave (enter u) = u) (note : Note (r.withUnderway (enter r.underway)) next) :
    Note r (next.withUnderway (leave next.underway)) where
  described := note.described
  rest := by
    have underway : leave next.underway = r.underway := by
      rw [note.underway]
      exact undone r.underway
    rw [underway]
    exact congrArg (·.withUnderway r.underway) note.rest

namespace Reflector

variable {r : Reflector} {kind : DeclarationKind} {key : NameKey}
  {descriptor : Descriptor kind.Info} {info : kind.Info}

theorem describe_of_kept (kept : (r.descriptors.ofKind kind).find? key = some descriptor) :
    r.describe kind key = (some descriptor, r) := by
  rw [describe, kept]

theorem describe_of_unknown (unknown : r.index.info? kind key = none) :
    r.describe kind key = (none, r) := by
  unfold describe
  split
  next kept => cases unknown.symm.trans (r.agreement.declared kind key _ kept)
  next =>
    split
    next => rfl
    next known => cases unknown.symm.trans known

theorem describe_of_new (absent : (r.descriptors.ofKind kind).find? key = none)
    (known : r.index.info? kind key = some info) :
    r.describe kind key =
      (some (r.descriptors.fresh info),
        { r with
          descriptors := r.descriptors.keep kind key (r.descriptors.fresh info)
          agreement := r.agreement.keep known }) := by
  unfold describe
  rw [absent]
  dsimp only
  split
  next unknown => cases unknown.symm.trans known
  next found =>
    cases found.symm.trans known
    rfl

/-- What is answered for a known declaration describes it, and is kept. -/
theorem describe_of_known (known : r.index.info? kind key = some info) :
    ∃ descriptor, (r.describe kind key).1 = some descriptor ∧ descriptor.info = info ∧
      ((r.describe kind key).2.descriptors.ofKind kind).find? key = some descriptor := by
  cases kept : (r.descriptors.ofKind kind).find? key with
  | some descriptor =>
      have same := known.symm.trans (r.agreement.declared kind key descriptor kept)
      rw [describe_of_kept kept]
      exact ⟨descriptor, rfl, (Option.some.inj same).symm, kept⟩
  | none =>
      rw [describe_of_new kept known]
      refine ⟨r.descriptors.fresh info, rfl, rfl, ?_⟩
      rw [Descriptors.ofKind_keep, OrderedMap.find?_insertNew, if_pos ⟨rfl, kept⟩]

theorem note_describe : Note r (r.describe kind key).2 := by
  unfold describe
  split
  · exact refl r
  · split
    · exact refl r
    · exact ⟨Descriptors.within_keep, rfl⟩

theorem info_describe : (r.describe kind key).1.map (·.info) =
    r.index.info? kind key := by
  cases known : r.index.info? kind key with
  | none => rw [describe_of_unknown known, Option.map_none]
  | some info =>
      obtain ⟨descriptor, answered, rfl, _⟩ := describe_of_known known
      rw [answered, Option.map_some]

theorem kept_after_describe (answered : (r.describe kind key).1 = some descriptor) :
    ((r.describe kind key).2.descriptors.ofKind kind).find? key = some descriptor := by
  cases known : r.index.info? kind key with
  | none =>
      rw [describe_of_unknown known] at answered
      cases answered
  | some info =>
      obtain ⟨given, found, _, kept⟩ := describe_of_known known
      cases found.symm.trans answered
      exact kept

theorem eq_of_bare {s : Reflector} (bare : s.bare = r.bare)
    (descriptors : s.descriptors = r.descriptors) : s = r := by
  cases r
  cases s
  cases bare
  cases descriptors
  rfl

/-- What is described depends on the index and on what is kept. -/
theorem describe_congr {s : Reflector} (kind : DeclarationKind) (key : NameKey)
    (index : s.index = r.index) (descriptors : s.descriptors = r.descriptors) :
    (s.describe kind key).1 = (r.describe kind key).1 ∧
      (s.describe kind key).2.descriptors = (r.describe kind key).2.descriptors := by
  cases kept : (r.descriptors.ofKind kind).find? key with
  | some descriptor =>
      rw [describe_of_kept kept, describe_of_kept (descriptors ▸ kept)]
      exact ⟨rfl, descriptors⟩
  | none =>
      cases known : r.index.info? kind key with
      | none =>
          rw [describe_of_unknown known, describe_of_unknown (index ▸ known)]
          exact ⟨rfl, descriptors⟩
      | some info =>
          rw [describe_of_new kept known, describe_of_new (descriptors ▸ kept) (index ▸ known)]
          dsimp only
          rw [descriptors]
          exact ⟨rfl, rfl⟩

theorem describe_withUnderway (underway : Underway) :
    (r.withUnderway underway).describe kind key =
      ((r.describe kind key).1, (r.describe kind key).2.withUnderway underway) := by
  obtain ⟨answer, descriptors⟩ :=
    describe_congr (r := r) (s := r.withUnderway underway) kind key rfl rfl
  have bare : ((r.withUnderway underway).describe kind key).2.bare =
      ((r.describe kind key).2.withUnderway underway).bare :=
    note_describe.rest.trans (congrArg (·.withUnderway underway) note_describe.rest.symm)
  exact Prod.ext answer (eq_of_bare bare descriptors)

/-- A descriptor is kept under one name. -/
theorem name_of_kept {other : DeclarationKind} {otherKey : NameKey}
    {found : Descriptor other.Info}
    (kept : (r.descriptors.ofKind kind).find? key = some descriptor)
    (keptToo : (r.descriptors.ofKind other).find? otherKey = some found)
    (same : descriptor.serial = found.serial) : kind = other ∧ key = otherKey :=
  r.agreement.apart kind key descriptor other otherKey found kept keptToo same

end Reflector

namespace Query

variable {α : Type}

/-- A query that only looks at what is known. -/
def Notes (query : Query α) : Prop :=
  query.Moves Note ReflectionError.Ordinary

theorem Notes.looks {query : Query α} (notes : query.Notes) : query.Looks :=
  notes.mono (fun _ _ note => note.look) fun _ ordinary => ordinary

@[simp] theorem result_describe? (kind : DeclarationKind) (key : NameKey) (r : Reflector) :
    (describe? kind key).result r = .ok (r.describe kind key).1 := rfl

@[simp] theorem next_describe? (kind : DeclarationKind) (key : NameKey) (r : Reflector) :
    (describe? kind key).next r = (r.describe kind key).2 := rfl

theorem describe?_notes (kind : DeclarationKind) (key : NameKey) : (describe? kind key).Notes :=
  .of_ok (fun _ => Reflector.note_describe) fun r => ⟨(r.describe kind key).1, rfl⟩

theorem result_function? (name : String) (r : Reflector) :
    (function? name).result r = .ok (r.index.function? name) := by
  unfold function?
  rw [result_bind_ok (result_describe? _ _ r), result_pure]
  exact congrArg Except.ok Reflector.info_describe

theorem result_constant? (name : String) (r : Reflector) :
    (constant? name).result r = .ok (r.index.constant? name) := by
  unfold constant?
  rw [result_bind_ok (result_describe? _ _ r), result_pure]
  exact congrArg Except.ok Reflector.info_describe

theorem function?_notes (name : String) : (function? name).Notes :=
  .bind (describe?_notes _ _) fun _ => .pure _

theorem constant?_notes (name : String) : (constant? name).Notes :=
  .bind (describe?_notes _ _) fun _ => .pure _

section Known

variable {r : Reflector} {kind : DeclarationKind} {key : NameKey} {missing : ReflectionError}
  {descriptor : Descriptor kind.Info}

theorem describeKnown_notes (ordinary : missing.Ordinary) :
    (describeKnown kind key missing).Notes := by
  refine .bind (describe?_notes _ _) fun found => ?_
  cases found with
  | some descriptor => exact .pure descriptor
  | none => exact .throw ordinary

@[simp] theorem next_describeKnown :
    (describeKnown kind key missing).next r = (r.describe kind key).2 := by
  unfold describeKnown
  rw [next_bind_ok (result_describe? _ _ r)]
  cases (r.describe kind key).1 <;> rfl

theorem describeKnown_eq_ok_iff : (describeKnown kind key missing).result r = .ok descriptor ↔
    (r.describe kind key).1 = some descriptor := by
  unfold describeKnown
  rw [result_bind_ok (result_describe? _ _ r)]
  cases (r.describe kind key).1 <;> simp

theorem describeKnown_of_kept
    (kept : (r.descriptors.ofKind kind).find? key = some descriptor) :
    (describeKnown kind key missing).result r = .ok descriptor := by
  rw [describeKnown_eq_ok_iff, Reflector.describe_of_kept kept]

theorem kept_after_describeKnown
    (answered : (describeKnown kind key missing).result r = .ok descriptor) :
    (((describeKnown kind key missing).next r).descriptors.ofKind kind).find? key =
      some descriptor := by
  rw [next_describeKnown]
  exact Reflector.kept_after_describe (describeKnown_eq_ok_iff.mp answered)

/-- What is described is what the index has, whichever descriptors are kept. -/
theorem result_describeKnown_info :
    (do return (← describeKnown kind key missing).info : Query kind.Info).result r =
      match r.index.info? kind key with
      | some info => .ok info
      | none => .error missing := by
  rw [← Reflector.info_describe, result_bind]
  unfold describeKnown
  rw [result_bind_ok (result_describe? _ _ r)]
  cases (r.describe kind key).1 <;> rfl

theorem info_of_describeKnown {info : kind.Info} :
    (do return (← describeKnown kind key missing).info : Query kind.Info).result r = .ok info ↔
      r.index.info? kind key = some info := by
  rw [result_describeKnown_info]
  cases r.index.info? kind key <;> simp

end Known

theorem describeFunction_notes (name : String) : (describeFunction name).Notes :=
  describeKnown_notes nofun

theorem describeConstant_notes (name : String) : (describeConstant name).Notes :=
  describeKnown_notes nofun

theorem functionNamed_notes (name : String) : (functionNamed name).Notes :=
  .bind (describeFunction_notes name) fun _ => .pure _

theorem constantNamed_notes (name : String) : (constantNamed name).Notes :=
  .bind (describeConstant_notes name) fun _ => .pure _

theorem functionNamed_eq_ok_iff {name : String} {r : Reflector} {info : FunctionInfo} :
    (functionNamed name).result r = .ok info ↔ r.index.function? name = some info :=
  info_of_describeKnown

theorem constantNamed_eq_ok_iff {name : String} {r : Reflector} {info : ConstantInfo} :
    (constantNamed name).result r = .ok info ↔ r.index.constant? name = some info :=
  info_of_describeKnown

section Classes

variable {name : String} {r : Reflector} {info : ClassInfo} {descriptor : Descriptor ClassInfo}

theorem describeClass_of_kept
    (kept : r.descriptors.classes.find? (.folded (stripSeparator name)) = some descriptor) :
    describeClass name r = (.ok descriptor, r) := by
  have described : r.describe .classLike (.folded (stripSeparator name)) =
      (some descriptor, r) := Reflector.describe_of_kept kept
  apply Prod.ext
  · change (describeClass name).result r = _
    unfold describeClass
    rw [result_bind_ok (result_describe? _ _ r), described]
    rfl
  · change (describeClass name).next r = _
    unfold describeClass
    rw [next_bind_ok (result_describe? _ _ r), next_describe?, described]
    rfl

/-- A class that is known is not asked of the locator. -/
theorem describeClass_of_known (known : r.index.class? (stripSeparator name) = some info) :
    ∃ descriptor, (describeClass name).result r = .ok descriptor ∧ descriptor.info = info ∧
      Note r ((describeClass name).next r) := by
  have declared : r.index.info? .classLike (.folded (stripSeparator name)) =
      some info := known
  obtain ⟨descriptor, answered, same, _⟩ := Reflector.describe_of_known declared
  refine ⟨descriptor, ?_, same, ?_⟩
  · unfold describeClass
    rw [result_bind_ok (result_describe? _ _ r), answered]
    rfl
  · unfold describeClass
    rw [next_bind_ok (result_describe? _ _ r), answered]
    exact Reflector.note_describe

theorem describeClass_of_unknown (unknown : r.index.class? (stripSeparator name) = none) :
    describeClass name r =
      (do
        locateClass (stripSeparator name)
        describeKnown .classLike (.folded (stripSeparator name))
          (.classNotFound (stripSeparator name)) : Query (Descriptor ClassInfo)) r := by
  have described : r.describe .classLike (.folded (stripSeparator name)) = (none, r) :=
    Reflector.describe_of_unknown unknown
  unfold describeClass
  apply Prod.ext
  · change Query.result _ r = Query.result _ r
    rw [result_bind_ok (result_describe? _ _ r), next_describe?, described]
  · change Query.next _ r = Query.next _ r
    rw [next_bind_ok (result_describe? _ _ r), next_describe?, described]

theorem classNamed_of_unknown (unknown : r.index.class? (stripSeparator name) = none) :
    classNamed name r =
      (do
        locateClass (stripSeparator name)
        return (← describeKnown .classLike (.folded (stripSeparator name))
          (.classNotFound (stripSeparator name))).info : Query ClassInfo) r := by
  rw [← bind_assoc]
  have run := describeClass_of_unknown unknown
  apply Prod.ext
  · change Query.result _ r = Query.result _ r
    unfold classNamed
    rw [result_bind, result_bind, result, result, next, next, run]
  · change Query.next _ r = Query.next _ r
    unfold classNamed
    rw [next_bind, next_bind, result, result, next, next, run]

/-- The descriptor that is answered is kept. -/
theorem kept_after_describeClass (answered : (describeClass name).result r = .ok descriptor) :
    ((describeClass name).next r).descriptors.classes.find?
      (.folded (stripSeparator name)) = some descriptor := by
  unfold describeClass at answered ⊢
  rw [result_bind_ok (result_describe? _ _ r)] at answered
  rw [next_bind_ok (result_describe? _ _ r)]
  cases found : (r.describe .classLike (.folded (stripSeparator name))).1 with
  | none =>
      rw [found] at answered
      obtain ⟨_, located, rest⟩ := ok_of_bind answered
      dsimp only
      rw [next_bind_ok located]
      exact kept_after_describeKnown rest
  | some given =>
      rw [found] at answered
      cases answered
      exact Reflector.kept_after_describe found

@[simp] theorem next_classNamed (name : String) (r : Reflector) :
    (classNamed name).next r = (describeClass name).next r := by
  unfold classNamed
  rw [next_bind]
  cases (describeClass name).result r <;> rfl

theorem exists_of_classNamed (answered : (classNamed name).result r = .ok info) :
    ∃ descriptor, (describeClass name).result r = .ok descriptor ∧ descriptor.info = info := by
  obtain ⟨descriptor, described, rest⟩ := ok_of_bind answered
  cases rest
  exact ⟨descriptor, described, rfl⟩

theorem classNamed_of_known (known : r.index.class? (stripSeparator name) = some info) :
    (classNamed name).result r = .ok info ∧ Note r ((classNamed name).next r) := by
  obtain ⟨descriptor, described, rfl, note⟩ := describeClass_of_known known
  rw [next_classNamed]
  exact ⟨result_bind_ok described _, note⟩

theorem known_after_classNamed (answered : (classNamed name).result r = .ok info) :
    ((classNamed name).next r).index.class? (stripSeparator name) = some info := by
  obtain ⟨descriptor, described, rfl⟩ := exists_of_classNamed answered
  rw [next_classNamed]
  exact Reflector.agreement _ |>.declared .classLike _ _ (kept_after_describeClass described)

end Classes

end Query

end StaticReflection
