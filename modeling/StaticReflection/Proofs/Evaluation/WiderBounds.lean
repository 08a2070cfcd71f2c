import StaticReflection.Proofs.Reflection.MemberLookUp
import StaticReflection.Proofs.Reflection.Quiescence

namespace StaticReflection

/-! Bounds turn answers into errors and do nothing else. A run that keeps within some bounds
goes the same way under wider ones, step by step, so it ends with the same answer. -/

/-- Bounds within wider ones, with all else the same. -/
structure Options.Within (options wider : Options) : Prop where
  expressionDepth : options.maxExpressionDepth ≤ wider.maxExpressionDepth
  constantChain : options.maxConstantChain ≤ wider.maxConstantChain
  inheritanceDepth : options.maxInheritanceDepth ≤ wider.maxInheritanceDepth
  platform : wider.platform = options.platform

/-- Two reflectors of which the second has wider bounds, and which have all else in common but
the descriptors that they keep. -/
structure Eased (r s : Reflector) : Prop where
  bounds : r.options.Within s.options
  rest : s.bare = { r.bare with options := s.options }

namespace Eased

variable {r s : Reflector} (eased : Eased r s)

include eased

theorem sources : s.sources = r.sources :=
  (congrArg Reflector.sources eased.rest :)

theorem index : s.index = r.index :=
  (congrArg Reflector.index eased.rest :)

theorem locator : s.locator = r.locator :=
  (congrArg Reflector.locator eased.rest :)

theorem underway : s.underway = r.underway :=
  (congrArg Reflector.underway eased.rest :)

theorem hidden : s.hidden = r.hidden :=
  (congrArg Reflector.hidden eased.rest :)

theorem state (id : ConstantId) : s.state id = r.state id :=
  (congrArg (·.state id) eased.rest :)

/-- A change that leaves the options and the descriptors alone keeps two reflectors
together. -/
theorem change {f : Reflector → Reflector}
    (blind : ∀ r options, f { r.bare with options } = { (f r).bare with options })
    (kept : ∀ r, (f r).options = r.options) : Eased (f r) (f s) where
  bounds := by rw [kept, kept]; exact eased.bounds
  rest := by
    have bare : f s.bare = (f s).bare := by
      refine (blind s s.options).trans ?_
      rw [← kept s]
      rfl
    rw [kept, ← blind, ← bare, eased.rest]

theorem noted {next nextToo : Reflector} (note : Note r next) (noteToo : Note s nextToo) :
    Eased next nextToo where
  bounds := by rw [note.options, noteToo.options]; exact eased.bounds
  rest := by rw [note.rest, noteToo.rest, noteToo.options]; exact eased.rest

end Eased

theorem Eased.of_bare {r s : Reflector} (same : s.bare = r.bare) : Eased r s := by
  have options : s.options = r.options := (congrArg Reflector.options same :)
  constructor
  · rw [options]
    exact ⟨Nat.le_refl _, Nat.le_refl _, Nat.le_refl _, rfl⟩
  · rw [same, options]
    rfl

/-- The failure is that of a bound. -/
def ReflectionError.IsBound (error : ReflectionError) : Prop :=
  ∃ bound limit, error = .depthLimit bound limit

/-- A query fails with one of some errors, or another one has the same outcome under wider
bounds, and both leave the same behind. -/
def Query.Carries {α : Type} (E : ReflectionError → Prop) (query wider : Query α) : Prop :=
  ∀ r s, Eased r s →
    (∃ error, E error ∧ query.result r = .error error) ∨
      wider.result s = query.result r ∧ Eased (query.next r) (wider.next s)

namespace Query

variable {α β γ : Type} {E : ReflectionError → Prop}

theorem Carries.bind {query wider : Query α} {rest widerRest : α → Query β}
    (first : query.Carries E wider)
    (second : ∀ value, (rest value).Carries E (widerRest value)) :
    (query >>= rest).Carries E (wider >>= widerRest) := by
  intro r s eased
  rcases first r s eased with ⟨error, allowed, failed⟩ | ⟨same, easedNext⟩
  · exact .inl ⟨error, allowed, result_bind_error failed rest⟩
  · cases answered : query.result r with
    | ok value =>
        have again := same.trans answered
        rw [result_bind_ok answered, result_bind_ok again, next_bind_ok answered,
          next_bind_ok again]
        exact second value _ _ easedNext
    | error error =>
        have again := same.trans answered
        rw [result_bind_error answered, result_bind_error again, next_bind_error answered,
          next_bind_error again]
        exact .inr ⟨rfl, easedNext⟩

theorem carries_pure (value : α) : (pure value : Query α).Carries E (pure value) :=
  fun _ _ eased => .inr ⟨rfl, eased⟩

theorem carries_throw (error : ReflectionError) :
    (throw error : Query α).Carries E (throw error) :=
  fun _ _ eased => .inr ⟨rfl, eased⟩

/-- A query that fails in a way that wider bounds may spare it. -/
theorem carries_of_error {query : Query α}
    (fails : ∀ r, ∃ error, E error ∧ query.result r = .error error) (wider : Query α) :
    query.Carries E wider :=
  fun r _ _ => .inl (fails r)

theorem carries_ofExcept (result : Except ReflectionError α) :
    (ofExcept result : Query α).Carries E (ofExcept result) := by
  cases result with
  | ok value => exact carries_pure value
  | error error => exact carries_throw error

theorem carries_get {rest widerRest : Reflector → Query β}
    (second : ∀ r s, Eased r s → (rest r).Carries E (widerRest s)) :
    (get >>= rest : Query β).Carries E (get >>= widerRest) :=
  fun r s eased => second r s eased r s eased

theorem carries_options {rest widerRest : Options → Query β}
    (second : ∀ bounds wider : Options, bounds.Within wider →
      (rest bounds).Carries E (widerRest wider)) :
    (options >>= rest).Carries E (options >>= widerRest) :=
  fun r s eased => second r.options s.options eased.bounds r s eased

theorem carries_modify {change : Reflector → Reflector}
    (blind : ∀ r options, change { r.bare with options } = { (change r).bare with options })
    (kept : ∀ r, (change r).options = r.options) :
    (modify change : Query Unit).Carries E (modify change) :=
  fun _ _ eased => .inr ⟨rfl, eased.change blind kept⟩

theorem Carries.map {query wider : Query α} (carries : query.Carries E wider) (f : α → β) :
    (f <$> query).Carries E (f <$> wider) := by
  rw [map_eq_pure_bind, map_eq_pure_bind]
  exact carries.bind fun value => carries_pure (f value)

theorem Carries.foldlM {step : β → γ → Query β}
    (carries : ∀ result value, (step result value).Carries E (step result value))
    (values : List γ) (start : β) :
    (values.foldlM step start).Carries E (values.foldlM step start) := by
  induction values generalizing start with
  | nil => exact carries_pure start
  | cons value rest ih =>
      rw [List.foldlM_cons]
      exact (carries start value).bind ih

theorem Carries.inside {enter leave : Underway → Underway} {query wider : Query α}
    (carries : query.Carries E wider) :
    (inside enter leave query).Carries E (inside enter leave wider) := by
  intro r s eased
  have entered : Eased (r.withUnderway (enter r.underway)) (s.withUnderway (enter s.underway)) :=
    eased.change (f := fun r => r.withUnderway (enter r.underway)) (fun _ _ => rfl)
      fun _ => rfl
  rw [result_inside, result_inside, next_inside, next_inside]
  rcases carries _ _ entered with failed | ⟨same, easedNext⟩
  · exact .inl failed
  · exact .inr ⟨same, easedNext.change (f := fun r => r.withUnderway (leave r.underway))
      (fun _ _ => rfl) fun _ => rfl⟩

/-! Loading files and finding declarations by name know no bounds. -/

theorem withSources_carries (change : SourceCache → Except SourceError α × SourceCache) :
    (withSources change).Carries E (withSources change) := by
  refine carries_get fun r s eased => ?_
  rw [eased.sources]
  refine .bind (carries_modify (fun _ _ => rfl) fun _ => rfl) fun _ => ?_
  split
  · exact carries_pure _
  · exact carries_throw _

theorem addFile_carries (file : SourceFile) : (addFile file).Carries E (addFile file) :=
  carries_modify (fun _ _ => rfl) fun _ => rfl

theorem file_carries (path : String) : (file path).Carries E (file path) :=
  .bind (withSources_carries _) fun loaded =>
    .bind (addFile_carries loaded) fun _ => carries_pure _

theorem text_carries (path : String) (written : Text) :
    (text path written).Carries E (text path written) :=
  .bind (withSources_carries _) fun loaded =>
    .bind (addFile_carries loaded) fun _ => carries_pure _

theorem blockOf_carries (file : SourceFile) (name : String) :
    (blockOf file name).Carries E (blockOf file name) := by
  unfold blockOf
  dsimp only
  split
  · split
    · exact carries_pure _
    · exact carries_throw _
  · exact carries_throw _

theorem namespaceOf_carries (path name : String) :
    (namespaceOf path name).Carries E (namespaceOf path name) :=
  .bind (withSources_carries _) fun loaded => .bind (blockOf_carries loaded name) fun _ =>
    .bind (addFile_carries loaded) fun _ => carries_pure _

theorem locateClass_carries (name : String) :
    (locateClass name).Carries E (locateClass name) := by
  refine .bind (carries_modify (fun _ _ => rfl) fun _ => rfl) fun _ => ?_
  refine carries_get fun r s eased => ?_
  rw [eased.locator]
  split
  · exact carries_throw _
  · exact .bind (file_carries _) fun _ => carries_pure _

/-- What is only looked up in the index is found on both sides. -/
theorem Notes.carries {query : Query α} (notes : query.Notes)
    (same : ∀ r s : Reflector, s.index = r.index → query.result s = query.result r) :
    query.Carries E query :=
  fun r s eased => .inr ⟨same r s eased.index, eased.noted (notes.next r) (notes.next s)⟩

theorem describeKnown_carries (kind : DeclarationKind) (key : NameKey)
    (missing : ReflectionError) (ordinary : missing.Ordinary) :
    (do return (← describeKnown kind key missing).info : Query kind.Info).Carries E
      (do return (← describeKnown kind key missing).info) := by
  refine Notes.carries (.bind (describeKnown_notes ordinary) fun _ => .pure _) fun r s same => ?_
  rw [result_describeKnown_info, result_describeKnown_info, same]

theorem classNamed_carries (name : String) :
    (classNamed name).Carries E (classNamed name) := by
  intro r s eased
  cases known : r.index.class? (stripSeparator name) with
  | some info =>
      obtain ⟨answered, note⟩ := classNamed_of_known known
      obtain ⟨again, noteToo⟩ := classNamed_of_known (eased.index ▸ known)
      exact .inr ⟨again.trans answered.symm, eased.noted note noteToo⟩
  | none =>
      have run := classNamed_of_unknown known
      have runToo := classNamed_of_unknown (eased.index ▸ known)
      rw [result, result, next, next, run, runToo]
      have found := describeKnown_carries (E := E) .classLike
        (.folded (stripSeparator name)) (.classNotFound (stripSeparator name))
        fun cycle same => by cases same
      exact (locateClass_carries _).bind (fun _ => found) r s eased

theorem functionNamed_carries (name : String) :
    (functionNamed name).Carries E (functionNamed name) :=
  describeKnown_carries _ _ _ nofun

theorem constantNamed_carries (name : String) :
    (constantNamed name).Carries E (constantNamed name) :=
  describeKnown_carries _ _ _ nofun

theorem constant?_carries (name : String) :
    (constant? name).Carries E (constant? name) := by
  refine (constant?_notes name).carries fun r s same => ?_
  rw [result_constant?, result_constant?, same]

theorem hide_carries (declaration : HiddenDeclaration) :
    (hide declaration).Carries E (hide declaration) := by
  refine carries_get fun r s eased => ?_
  rw [eased.hidden]
  exact .bind (carries_modify (fun _ _ => rfl) fun _ => rfl) fun _ => carries_pure _

theorem blockConstant_carries (place : PlacedBlock) (entry : ConstantEntry) :
    (blockConstant place entry).Carries E (blockConstant place entry) := by
  refine .bind (constant?_carries entry.name) fun found => ?_
  cases found with
  | some info =>
      dsimp only
      split
      · exact carries_pure _
      · exact .bind (hide_carries _) fun _ => carries_pure _
  | none => exact .bind (hide_carries _) fun _ => carries_pure _

end Query

/-! Members of a class. -/

namespace Hierarchy

open Query

variable {α β : Type} {E : ReflectionError → Prop}

theorem refuseCycle_carries (info : ClassInfo) :
    (refuseCycle info).Carries E (refuseCycle info) := by
  refine carries_get fun r s eased => ?_
  rw [eased.underway]
  split
  · exact carries_throw _
  · exact carries_pure _

/-- A chain of ancestors that is too long fails only after it is found to be no cycle, and so
may go on under wider bounds. -/
theorem tooDeep_carries (info : ClassInfo) (wider : Query α) :
    (do refuseCycle info; tooDeep info : Query α).Carries ReflectionError.IsBound
      (do refuseCycle info; wider) := by
  refine .bind (refuseCycle_carries info) fun _ => carries_of_error (fun r => ?_) wider
  exact ⟨_, ⟨.ancestors info.name, r.options.maxInheritanceDepth, rfl⟩, rfl⟩

theorem aboveClass_carries (info : ClassInfo) {query wider : Query α}
    (carries : query.Carries E wider) :
    (aboveClass info query).Carries E (aboveClass info wider) :=
  .bind (refuseCycle_carries info) fun _ => carries.inside

theorem firstAncestor_carries {visit widerVisit : ClassInfo → AncestorEdge → Query (Option α)}
    (carries : ∀ info edge, (visit info edge).Carries E (widerVisit info edge))
    (names : List (String × AncestorEdge)) :
    (firstAncestor visit names).Carries E (firstAncestor widerVisit names) := by
  induction names with
  | nil => exact carries_pure none
  | cons entry rest ih =>
      refine .bind (classNamed_carries entry.1) fun ancestor => ?_
      refine .bind (carries ancestor entry.2) fun answer => ?_
      cases answer with
      | some answer => exact carries_pure (some answer)
      | none => exact ih

theorem foldAncestors_carries {visit widerVisit : β → ClassInfo → AncestorEdge → Query β}
    (carries : ∀ result info edge,
      (visit result info edge).Carries E (widerVisit result info edge))
    (names : List (String × AncestorEdge)) (start : β) :
    (foldAncestors visit start names).Carries E (foldAncestors widerVisit start names) := by
  induction names generalizing start with
  | nil => exact carries_pure start
  | cons entry rest ih =>
      refine .bind (classNamed_carries entry.1) fun ancestor => ?_
      exact .bind (carries start ancestor entry.2) ih

theorem findMember_of_own {kind : MemberKind α} {key : NameKey} {inherited : Bool}
    {info : ClassInfo} {member : α} (own : kind.own? key inherited info = some member)
    (room : Nat) : findMember kind key room inherited info = pure (some member) := by
  cases room <;> simp only [findMember, own]

theorem findMember_carries (kind : MemberKind α) (key : NameKey) {room more : Nat}
    (le : room ≤ more) (inherited : Bool) (info : ClassInfo) :
    (findMember kind key room inherited info).Carries ReflectionError.IsBound
      (findMember kind key more inherited info) := by
  induction room generalizing more inherited info with
  | zero =>
      cases own : kind.own? key inherited info with
      | some member =>
          rw [findMember_of_own own, findMember_of_own own]
          exact carries_pure _
      | none =>
          cases more <;> simp only [findMember, own] <;> exact tooDeep_carries info _
  | succ room ih =>
      cases more with
      | zero => exact absurd le (Nat.not_succ_le_zero room)
      | succ more =>
          unfold findMember
          split
          · exact carries_pure _
          · refine aboveClass_carries info (firstAncestor_carries (fun ancestor edge => ?_) _)
            exact ih (Nat.le_of_succ_le_succ le) _ ancestor

theorem collectMembers_carries (kind : MemberKind α) {room more : Nat} (le : room ≤ more)
    (inherited : Bool) (found : OrderedMap NameKey α) (info : ClassInfo) :
    (collectMembers kind room inherited found info).Carries ReflectionError.IsBound
      (collectMembers kind more inherited found info) := by
  induction room generalizing more inherited found info with
  | zero => cases more <;> exact tooDeep_carries info _
  | succ room ih =>
      cases more with
      | zero => exact absurd le (Nat.not_succ_le_zero room)
      | succ more =>
          refine aboveClass_carries info
            (foldAncestors_carries (fun found ancestor edge => ?_) _ _)
          exact ih (Nat.le_of_succ_le_succ le) _ found ancestor

/-- There is at least as much room under wider bounds. -/
theorem room_bind_carries {rest widerRest : Nat → Query β}
    (carries : ∀ room more, room ≤ more → (rest room).Carries E (widerRest more)) :
    (Hierarchy.room >>= rest).Carries E (Hierarchy.room >>= widerRest) := by
  intro r s eased
  refine carries (r.options.maxInheritanceDepth - r.underway.classes.length)
    (s.options.maxInheritanceDepth - s.underway.classes.length) ?_ r s eased
  rw [eased.underway]
  exact Nat.sub_le_sub_right eased.bounds.inheritanceDepth _

end Hierarchy

namespace Query

variable {α : Type}

theorem member?_carries (kind : MemberKind α) (info : ClassInfo) (name : String) :
    (member? kind info name).Carries ReflectionError.IsBound (member? kind info name) :=
  Hierarchy.room_bind_carries fun _ _ le => Hierarchy.findMember_carries kind _ le false info

theorem members_carries (kind : MemberKind α) (info : ClassInfo) :
    (members kind info).Carries ReflectionError.IsBound (members kind info) :=
  Hierarchy.room_bind_carries fun _ _ le =>
    .bind (Hierarchy.collectMembers_carries kind le false {} info) fun _ => carries_pure _

end Query

/-! Values. -/

theorem Eased.entering {r s : Reflector} (eased : Eased r s) (constant : ConstantInfo) :
    Eased (r.entering constant) (s.entering constant) :=
  eased.change (f := (·.entering constant)) (fun _ _ => rfl) fun _ => rfl

theorem Eased.leaving {r s : Reflector} (eased : Eased r s) (constant : ConstantInfo)
    (result : Except ReflectionError Value) :
    Eased (r.leaving constant result) (s.leaving constant result) :=
  eased.change (f := (·.leaving constant result)) (fun _ _ => rfl) fun _ => rfl

/-- Whatever the outcome, the constant is left in the same state, so what is remembered stays
the same on both sides. -/
theorem Evaluation.resolve_carries {eval widerEval : Scope → NodeId → Query Value}
    (carries : ∀ scope node,
      (eval scope node).Carries ReflectionError.IsBound (widerEval scope node))
    (constant : ConstantInfo) (node : NodeId) :
    (resolve eval constant node).Carries ReflectionError.IsBound
      (resolve widerEval constant node) := by
  intro r s eased
  have same := eased.state constant.id
  cases known : r.state constant.id with
  | resolved value =>
      rw [known] at same
      rw [(resolve_of_resolved known).1, (resolve_of_resolved known).2,
        (resolve_of_resolved same).1, (resolve_of_resolved same).2]
      exact .inr ⟨rfl, eased⟩
  | failed error =>
      rw [known] at same
      rw [(resolve_of_failed known).1, (resolve_of_failed known).2,
        (resolve_of_failed same).1, (resolve_of_failed same).2]
      exact .inr ⟨rfl, eased⟩
  | resolving =>
      rw [known] at same
      rw [(resolve_of_resolving known).1, (resolve_of_resolving known).2,
        (resolve_of_resolving same).1, (resolve_of_resolving same).2, eased.underway]
      exact .inr ⟨rfl, eased⟩
  | unresolved =>
      rw [known] at same
      by_cases long : r.options.maxConstantChain ≤ r.underway.constants.length
      · exact .inl ⟨_, ⟨.constantChain, _, rfl⟩, (resolve_of_long_chain known long).1⟩
      · have short := Nat.lt_of_not_le long
        have shortToo : s.underway.constants.length < s.options.maxConstantChain := by
          rw [eased.underway]
          exact Nat.lt_of_lt_of_le short eased.bounds.constantChain
        rw [(resolve_of_unresolved known short).1, (resolve_of_unresolved known short).2,
          (resolve_of_unresolved same shortToo).1, (resolve_of_unresolved same shortToo).2]
        rcases carries constant.scope node _ _ (eased.entering constant) with
          failed | ⟨again, easedNext⟩
        · exact .inl failed
        · rw [again]
          exact .inr ⟨rfl, easedNext.leaving constant _⟩

theorem Plan.carryOut_carries {α : Type} {nodeValue widerNode : Mode → NodeId → Query Value}
    {initializerValue widerInitializer : ConstantInfo → NodeId → Query Value}
    (nodes : ∀ mode node,
      (nodeValue mode node).Carries ReflectionError.IsBound (widerNode mode node))
    (initializers : ∀ constant node, (initializerValue constant node).Carries
      ReflectionError.IsBound (widerInitializer constant node))
    (plan : Plan α) :
    (plan.carryOut nodeValue initializerValue).Carries ReflectionError.IsBound
      (plan.carryOut widerNode widerInitializer) := by
  induction plan with
  | done result => exact Query.carries_ofExcept result
  | askNode mode node next ih => exact (nodes mode node).bind ih
  | askConstant constant node next ih => exact (initializers constant node).bind ih
  | askClass name next ih => exact (Query.classNamed_carries name).bind ih
  | askMember info name next ih => exact (Query.member?_carries .constant info name).bind ih
  | askDeclared name next ih => exact (Query.constant?_carries name).bind ih
  | askIndex next ih =>
      refine Query.carries_get fun r s eased => ?_
      rw [eased.index]
      exact ih r.index
  | askPlatform next ih =>
      refine Query.carries_options fun bounds wider within => ?_
      rw [within.platform]
      exact ih bounds.platform

/-- An expression that has a value where it may nest less deep has the same where it may nest
deeper. -/
theorem Evaluation.evaluate_carries {room more : Nat} (le : room ≤ more) (mode : Mode)
    (scope : Scope) (node : NodeId) :
    (evaluate room mode scope node).Carries ReflectionError.IsBound
      (evaluate more mode scope node) := by
  induction room generalizing more mode scope node with
  | zero =>
      refine Query.carries_of_error (fun r => ?_) _
      exact ⟨_, ⟨.expression, r.options.maxExpressionDepth, rfl⟩, rfl⟩
  | succ room ih =>
      cases more with
      | zero => exact absurd le (Nat.not_succ_le_zero room)
      | succ more =>
          have inner := fun mode scope node =>
            ih (Nat.le_of_succ_le_succ le) mode scope node
          exact .inside (Plan.carryOut_carries (fun mode node => inner mode scope node)
            (resolve_carries (inner .strict)) _)

namespace Query

variable {α : Type}

theorem perform_carries (scope : Scope) (plan : Plan α) :
    (perform scope plan).Carries ReflectionError.IsBound (perform scope plan) := by
  intro r s eased
  have deeper : r.options.maxExpressionDepth - r.underway.depth ≤
      s.options.maxExpressionDepth - s.underway.depth := by
    rw [eased.underway]
    exact Nat.sub_le_sub_right eased.bounds.expressionDepth _
  have values := fun mode scope node =>
    Evaluation.evaluate_carries deeper mode scope node
  exact plan.carryOut_carries (fun mode node => values mode scope node)
    (Evaluation.resolve_carries (values .strict)) r s eased

theorem constantValue_carries (constant : ConstantInfo) :
    (constantValue constant).Carries ReflectionError.IsBound (constantValue constant) :=
  perform_carries constant.scope _

theorem parameterDefault_carries (parameter : ParameterInfo) :
    (parameterDefault parameter).Carries ReflectionError.IsBound (parameterDefault parameter) := by
  unfold parameterDefault
  split
  · exact perform_carries parameter.scope _
  · exact carries_throw _

theorem propertyDefault_carries (property : PropertyInfo) :
    (propertyDefault property).Carries ReflectionError.IsBound (propertyDefault property) := by
  unfold propertyDefault
  split
  · exact perform_carries property.scope _
  · split
    · exact carries_pure _
    · exact carries_throw _

theorem constantIn?_carries (place : PlacedBlock) (name : String) :
    (constantIn? place name).Carries ReflectionError.IsBound (constantIn? place name) := by
  unfold constantIn?
  dsimp only
  split
  · exact .bind (blockConstant_carries place _) fun constant =>
      .bind (constantValue_carries constant) fun _ => carries_pure _
  · exact carries_pure _

theorem classConstant?_carries (info : ClassInfo) (name : String) :
    (classConstant? info name).Carries ReflectionError.IsBound (classConstant? info name) := by
  refine .bind (member?_carries .constant info name) fun found => ?_
  cases found with
  | some constant => exact .bind (constantValue_carries constant) fun _ => carries_pure _
  | none => exact carries_pure _

theorem constantValues_carries (constants : List ConstantInfo) :
    (constantValues constants).Carries ReflectionError.IsBound (constantValues constants) :=
  .foldlM (fun _ constant => .bind (constantValue_carries constant) fun _ => carries_pure _) _ _

theorem propertyDefaults_carries (info : ClassInfo) :
    (propertyDefaults info).Carries ReflectionError.IsBound (propertyDefaults info) :=
  .bind (members_carries .property info) fun _ =>
    .foldlM (fun _ property => .bind (propertyDefault_carries property) fun _ => carries_pure _)
      _ _

end Query

/-- A question for values or members, by the names that lead to them. -/
inductive Question : Type → Type 1
  | constant (name : String) : Question Value
  | constantIn (path space name : String) : Question (Option Value)
  | classConstant (owner name : String) : Question (Option Value)
  | backingValue (owner name : String) : Question (Option Value)
  | constantValues (owner : String) : Question (OrderedMap String Value)
  | parameterDefault (function parameter : String) : Question (Option Value)
  | methodDefault (owner method parameter : String) : Question (Option Value)
  | propertyDefault (owner property : String) : Question (Option Value)
  | propertyDefaults (owner : String) : Question (OrderedMap String Value)
  | member {α : Type} (kind : MemberKind α) (owner name : String) : Question (Option α)
  | members {α : Type} (kind : MemberKind α) (owner : String) : Question (List α)

namespace Question

open Query

def query {α : Type} : Question α → Query α
  | constant name => do constantValue (← constantNamed name)
  | constantIn path space name => do constantIn? (← namespaceOf path space) name
  | classConstant owner name => do classConstant? (← classNamed owner) name
  | backingValue owner name => do
      (← member? .constant (← classNamed owner) name).mapM Query.backingValue
  | constantValues owner => do
      Query.constantValues (← Query.members .constant (← classNamed owner))
  | parameterDefault function parameter => do
      ((← functionNamed function).parameter? parameter).mapM Query.parameterDefault
  | methodDefault owner method parameter => do
      let found ← member? .method (← classNamed owner) method
      (found.bind (·.function.parameter? parameter)).mapM Query.parameterDefault
  | propertyDefault owner property => do
      (← member? .property (← classNamed owner) property).mapM Query.propertyDefault
  | propertyDefaults owner => do Query.propertyDefaults (← classNamed owner)
  | member kind owner name => do member? kind (← classNamed owner) name
  | members kind owner => do Query.members kind (← classNamed owner)

end Question

theorem Query.carries_mapM {α β : Type} {E : ReflectionError → Prop} {f : α → Query β}
    (carries : ∀ value, (f value).Carries E (f value)) (found : Option α) :
    (found.mapM f).Carries E (found.mapM f) := by
  cases found with
  | none => exact carries_pure none
  | some value => exact .bind (carries value) fun _ => carries_pure _

open Query in
theorem Question.query_carries {α : Type} (question : Question α) :
    question.query.Carries ReflectionError.IsBound question.query := by
  cases question with
  | constant name => exact .bind (constantNamed_carries name) constantValue_carries
  | constantIn path space name =>
      exact .bind (namespaceOf_carries path space) fun place => constantIn?_carries place name
  | classConstant owner name =>
      exact .bind (classNamed_carries owner) fun info => classConstant?_carries info name
  | backingValue owner name =>
      exact .bind (classNamed_carries owner) fun info =>
        .bind (member?_carries .constant info name) fun found =>
          carries_mapM (fun constant => perform_carries constant.scope _) found
  | constantValues owner =>
      exact .bind (classNamed_carries owner) fun info =>
        .bind (members_carries .constant info) constantValues_carries
  | parameterDefault function parameter =>
      exact .bind (functionNamed_carries function) fun info =>
        carries_mapM parameterDefault_carries (info.parameter? parameter)
  | methodDefault owner method parameter =>
      exact .bind (classNamed_carries owner) fun info =>
        .bind (member?_carries .method info method) fun found =>
          carries_mapM parameterDefault_carries _
  | propertyDefault owner property =>
      exact .bind (classNamed_carries owner) fun info =>
        .bind (member?_carries .property info property) fun found =>
          carries_mapM propertyDefault_carries found
  | propertyDefaults owner => exact .bind (classNamed_carries owner) propertyDefaults_carries
  | member kind owner name =>
      exact .bind (classNamed_carries owner) fun info => member?_carries kind info name
  | members kind owner => exact .bind (classNamed_carries owner) (members_carries kind)

/-! Two reflectors that load the same files. -/

open Query in
theorem Eased.load {r s : Reflector} (eased : Eased r s) {request : Request}
    (load : request.isLoad = true) : Eased (r.after request) (s.after request) := by
  have carries : request.query.Carries (fun _ => False) request.query := by
    cases request with
    | loadFile path => exact (file_carries path).map _
    | loadText path written => exact (text_carries path written).map _
    | loadNamespace path name => exact (namespaceOf_carries path name).map _
    | _ => cases load
  rcases carries r s eased with ⟨_, impossible, _⟩ | ⟨_, easedNext⟩
  · exact absurd impossible id
  · exact easedNext

theorem Eased.loads {r s : Reflector} (eased : Eased r s) {requests : List Request}
    (loads : ∀ request ∈ requests, request.isLoad = true) :
    Eased (r.afterAll requests) (s.afterAll requests) := by
  induction requests generalizing r s with
  | nil => exact eased
  | cons request rest ih =>
      exact ih (eased.load (loads request (by simp)))
        fun other member => loads other (List.mem_cons_of_mem _ member)

/-- A question to a fresh reflector is answered the same way under wider bounds. Of the
errors, only those of a bound may give way to an answer or to another error. -/
theorem answer_kept_by_wider_bounds {α : Type} (question : Question α)
    {options wider : Options} (within : options.Within wider) (locator : Locator)
    (sources : SourceCache) {requests : List Request}
    (loads : ∀ request ∈ requests, request.isLoad = true) :
    let r := (Reflector.new options locator sources).afterAll requests
    let s := (Reflector.new wider locator sources).afterAll requests
    (∀ answer, question.query.result r = .ok answer → question.query.result s = .ok answer) ∧
    ∀ error, question.query.result r = .error error → ¬ error.IsBound →
      question.query.result s = .error error := by
  intro r s
  have fresh : Eased (.new options locator sources) (.new wider locator sources) := ⟨within, rfl⟩
  have eased : Eased r s := fresh.loads loads
  rcases question.query_carries r s eased with ⟨bound, isBound, failed⟩ | ⟨same, _⟩
  · refine ⟨fun answer answered => ?_, fun error other unbounded => ?_⟩
    · cases failed.symm.trans answered
    · cases failed.symm.trans other
      exact absurd isBound unbounded
  · exact ⟨fun answer answered => same.trans answered, fun error other _ => same.trans other⟩

/-- A sum over an inherited constant and a constant of the file, with no room to spare. -/
theorem sum_kept_by_wider_bounds :
    let tight : Options :=
      { maxExpressionDepth := 4, maxConstantChain := 3, maxInheritanceDepth := 1 }
    let text : Text := ("<?php class A \x7b const X = 1; \x7d " ++
      "class B extends A \x7b const Y = self::X + K; \x7d " ++
      "const K = 2; const Z = B::Y;").toList
    let requests : List Request := [.loadText "/app/a.php" text]
    let sum := (Question.constant "Z").query
    tight.Within {} ∧
    sum.result ((Reflector.new tight .nowhere {}).afterAll requests) = .ok (.int 3) ∧
    sum.result ((Reflector.new {} .nowhere {}).afterAll requests) = .ok (.int 3) := by
  intro tight text requests sum
  have within : tight.Within {} := ⟨by decide, by decide, by decide, rfl⟩
  have answered : sum.result ((Reflector.new tight .nowhere {}).afterAll requests) =
      .ok (.int 3) := by decide +kernel
  exact ⟨within, answered, (answer_kept_by_wider_bounds (.constant "Z") within .nowhere {}
    (by simp [requests, Request.isLoad])).1 _ answered⟩

end StaticReflection
