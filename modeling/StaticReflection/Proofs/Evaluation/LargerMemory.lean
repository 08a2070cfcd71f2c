import StaticReflection.Proofs.Evaluation.DerivedAnswers

namespace StaticReflection

/-! The same evaluation with less and with more remembered. What has an answer with less
has the same answer with more, unless something that it needs is remembered as failed. -/

open Evaluation Setting

variable {index : EntityIndex} {options : Options}

section Closure

variable {r : Reflector} {chain : List ConstantInfo} {constant other : ConstantInfo}

theorem Setting.Refers.holds (same : r.index = index)
    (refers : (bounded index options).Refers constant other) : r.Holds other := by
  obtain ⟨_, _, _, _, site⟩ := refers.mentions
  exact site.holds same

theorem Setting.Depends.holds {α : Type} {scope : Scope} {plan : Plan α}
    (same : r.index = index)
    (expected : (bounded index options).Only scope plan r.Expects)
    (depends : (bounded index options).Depends scope plan other) : r.Holds other := by
  obtain ⟨first, demands, reached⟩ := depends
  induction reached with
  | tail _ last _ => exact last.holds same
  | refl =>
      rcases demands with ⟨root, meets⟩ | ⟨mode, node, _, reaches⟩
      · exact (expected _ meets).2
      · obtain ⟨_, _, site⟩ := reaches.site
        exact site.holds same

theorem Reflector.Sound.resolved_of_reached (sound : r.Sound index options chain)
    (held : r.Holds constant)
    (resolved : ∃ value, r.state constant.id = .resolved value)
    (reached : Relation.ReflTransGen (bounded index options).Refers constant other) :
    r.Holds other ∧ ∃ value, r.state other.id = .resolved value := by
  induction reached with
  | refl => exact ⟨held, resolved⟩
  | tail _ last ih =>
      obtain ⟨heldMiddle, value, state⟩ := ih
      refine ⟨last.holds sound.index_eq, ?_⟩
      exact (sound.resolved _ value heldMiddle state).2 _ last

theorem Setting.Answers.resolved {α : Type} {scope : Scope} {plan : Plan α} {value : α}
    {next : Reflector} (answers : (bounded index options).Answers scope plan r next value)
    (sound : next.Sound index options chain)
    (held : ∀ first, (bounded index options).Demands scope plan first → next.Holds first)
    (depends : (bounded index options).Depends scope plan other) :
    next.Holds other ∧ ∃ value, next.state other.id = .resolved value := by
  obtain ⟨first, demands, reached⟩ := depends
  exact sound.resolved_of_reached (held first demands) (answers.needed first demands)
    reached

end Closure

/-- A reflector that has the same under way as another and remembers what that does. -/
structure Ahead (s t : Reflector) : Prop where
  underway : t.underway = s.underway
  resolved : ∀ id value, s.state id = .resolved value → t.state id = .resolved value

theorem Ahead.entering {s t : Reflector} (ahead : Ahead s t) (constant : ConstantInfo) :
    Ahead (s.entering constant) (t.entering constant) where
  underway := by
    change t.underway.enterConstant _ = s.underway.enterConstant _
    rw [ahead.underway]
  resolved id value state := by
    rw [Reflector.state_entering] at state ⊢
    split at state
    · cases state
    · rename_i apart
      rw [if_neg apart]
      exact ahead.resolved id value state

theorem Ahead.leaving {s t : Reflector} (ahead : Ahead s t) (constant : ConstantInfo)
    (value : Value) :
    Ahead (s.leaving constant (.ok value)) (t.leaving constant (.ok value)) where
  underway := by
    change t.underway.leaveConstant = s.underway.leaveConstant
    rw [ahead.underway]
  resolved id known state := by
    rw [Reflector.state_leaving] at state ⊢
    split at state
    · rename_i here
      rw [if_pos here]
      exact state
    · rename_i apart
      rw [if_neg apart]
      exact ahead.resolved id known state

/-- An answer that a reflector gets, one that is ahead gets too, and stays ahead. -/
def Query.Repeats {α : Type} (index : EntityIndex) (options : Options) (scope : Scope)
    (plan : Plan α) (query : Query α) : Prop :=
  ∀ chain s t, s.Sound index options chain → t.Sound index options chain → Ahead s t →
    (bounded index options).Serves chain s scope plan →
    (bounded index options).Serves chain t scope plan →
    (query.next s).index = s.index → (query.next t).index = t.index →
    (∀ constant error, (bounded index options).Depends scope plan constant →
      t.state constant.id ≠ .failed error) →
    ∀ value, query.result s = .ok value →
      query.result t = .ok value ∧ Ahead (query.next s) (query.next t)

section Parts

variable {scope : Scope} {α β : Type}

theorem Query.Repeats.bind {plan : Plan α} {rest : α → Plan β} {query : Query α}
    {continue_ : α → Query β} (first : query.Repeats index options scope plan)
    (follows : query.Follows index options scope plan) (advances : query.Advances)
    (second : ∀ value, (continue_ value).Repeats index options scope (rest value))
    (continueAdvances : ∀ value, (continue_ value).Advances) :
    (query >>= continue_).Repeats index options scope (plan >>= rest) := by
  intro chain s t soundS soundT ahead servesS servesT sameS sameT unfailed value answered
  obtain ⟨given, answeredFirst, answeredRest⟩ := ok_of_bind answered
  obtain ⟨middleS, lastS⟩ := index_of_bind advances continueAdvances sameS
  obtain ⟨middleT, lastT⟩ := index_of_bind advances continueAdvances sameT
  obtain ⟨answeredT, aheadMiddle⟩ := first chain s t soundS soundT ahead servesS.first
    servesT.first middleS middleT
    (fun constant error depends => unfailed constant error
      (depends.lift fun _ demands => demands_bind.mpr (.inl demands))) given answeredFirst
  obtain ⟨soundMiddleS, answersS, _⟩ := follows chain s soundS servesS.first middleS
  obtain ⟨soundMiddleT, answersT, _⟩ := follows chain t soundT servesT.first middleT
  have derived := (answersS given answeredFirst).derived
  have keeps : ∀ {r : Reflector}, (query.next r).index = r.index → r.Keeps (query.next r) :=
    fun {r} same => ⟨same, (advances.next r).hidden⟩
  rw [result_bind_ok answeredT, next_bind_ok answeredFirst, next_bind_ok answeredT]
  refine second given chain _ _ soundMiddleS soundMiddleT aheadMiddle
    (servesS.rest derived (keeps middleS)) (servesT.rest derived (keeps middleT))
    (lastS given answeredFirst) (lastT given answeredT) (fun constant error depends failed => ?_)
    value answeredRest
  -- An answer makes no constant fail, so what has failed now had failed before.
  exact unfailed constant error
    (depends.lift fun _ demands => demands_bind.mpr (.inr ⟨given, derived, demands⟩))
    ((answersT given answeredT).failures _ error failed)

theorem Query.repeats_done (result : Except ReflectionError α) :
    (ofExcept result : Query α).Repeats index options scope (.done result) := by
  intro chain s t _ _ ahead _ _ _ _ _ value answered
  rw [result_ofExcept] at answered ⊢
  rw [next_ofExcept, next_ofExcept]
  exact ⟨answered, ahead⟩

theorem Query.Looks.repeats {plan : Plan α} {query : Query α} (looks : query.Looks)
    (determined : query.Determined) : query.Repeats index options scope plan := by
  intro chain s t soundS soundT ahead _ _ sameS sameT _ value answered
  have alike : Alike s t :=
    ⟨soundT.alike.index.trans soundS.alike.index.symm,
      soundT.alike.options.trans soundS.alike.options.symm,
      soundT.alike.classes.trans soundS.alike.classes.symm⟩
  have lookS := looks.next s
  have lookT := looks.next t
  refine ⟨determined s t value alike sameS sameT answered, ?_, fun id known state => ?_⟩
  · rw [lookT.underway, lookS.underway, ahead.underway]
  · simp only [Reflector.state, lookT.states, lookS.states] at state ⊢
    exact ahead.resolved id known state

theorem Query.Repeats.transfer {part plan : Plan α} {query asked : Query α}
    (repeats : query.Repeats index options scope part)
    (demands : ∀ constant, (bounded index options).Demands scope plan constant ↔
      (bounded index options).Demands scope part constant)
    (expects : ∀ r : Reflector, r.index = index →
      (bounded index options).Only scope plan r.Expects →
        (bounded index options).Only scope part r.Expects)
    (same : ∀ r, Alike { options, index } r → asked r = query r) :
    asked.Repeats index options scope plan := by
  intro chain s t soundS soundT ahead servesS servesT sameS sameT unfailed value answered
  have serves : ∀ {r : Reflector}, r.Sound index options chain →
      (bounded index options).Serves chain r scope plan →
        (bounded index options).Serves chain r scope part :=
    fun sound serves => ⟨fun last member constant needs =>
        serves.belongs last member constant ((demands constant).mpr needs),
      expects _ sound.alike.index serves.expected⟩
  have run : ∀ {r : Reflector}, r.Sound index options chain →
      asked.next r = query.next r ∧ asked.result r = query.result r :=
    fun sound => ⟨congrArg Prod.snd (same _ sound.alike), congrArg Prod.fst (same _ sound.alike)⟩
  rw [(run soundS).1] at sameS ⊢
  rw [(run soundT).1] at sameT ⊢
  rw [(run soundS).2] at answered
  rw [(run soundT).2]
  exact repeats chain s t soundS soundT ahead (serves soundS servesS) (serves soundT servesT)
    sameS sameT (fun constant error depends => unfailed constant error
      (depends.lift fun first => (demands first).mpr)) value answered

end Parts

section Resolve

variable {chain : List ConstantInfo} {s t : Reflector} {scope : Scope}
  {constant : ConstantInfo} {node : NodeId} {value known : Value}

/-- What is found out of a constant, a reflector that knows the constant remembers. -/
theorem Ahead.of_known {next : Reflector} (ahead : Ahead s t)
    (step : Step s next) (soundNext : next.Sound index options chain)
    (soundT : t.Sound index options chain)
    (answers : (bounded index options).Answers scope (.initializer constant node) s next value)
    (stands : constant.value = some node) (heldNext : next.Holds constant)
    (heldT : t.Holds constant) (knownT : t.state constant.id = .resolved known) :
    value = known ∧ Ahead next t := by
  obtain ⟨⟨root, rootStands, derived⟩, _⟩ := soundT.resolved constant known heldT knownT
  cases stands.symm.trans rootStands
  refine ⟨(derives_initializer.mp answers.derived).unique bounded_functional derived,
    ahead.underway.trans step.underway.symm, fun id found state => ?_⟩
  by_cases before : s.state id = .resolved found
  · exact ahead.resolved id found before
  · obtain ⟨other, ⟨first, demands, reached⟩, rfl⟩ := answers.introduced id found state before
    cases demands_initializer.mp demands
    obtain ⟨heldOther, again, stateT⟩ :=
      soundT.resolved_of_reached heldT ⟨known, knownT⟩ reached
    obtain ⟨heldNew, _⟩ := soundNext.resolved_of_reached heldNext
      (answers.needed _ (demands_initializer.mpr rfl)) reached
    have evaluates := (soundNext.resolved other found heldNew state).1
    cases evaluates.unique bounded_functional (soundT.resolved other again heldOther stateT).1
    exact stateT

theorem Evaluation.find_out_repeats {query : Query Value}
    (repeats : query.Repeats index options constant.scope
      (expression constant.scope .strict node))
    (soundS : s.Sound index options chain) (soundT : t.Sound index options chain)
    (ahead : Ahead s t)
    (servesS : (bounded index options).Serves chain s scope (.initializer constant node))
    (servesT : (bounded index options).Serves chain t scope (.initializer constant node))
    (knownS : s.state constant.id = .unresolved) (knownT : t.state constant.id = .unresolved)
    (sameS : (query.next (s.entering constant)).index = s.index)
    (sameT : (query.next (t.entering constant)).index = t.index)
    (unfailed : ∀ other error, (bounded index options).Depends scope
      (.initializer constant node) other → t.state other.id ≠ .failed error)
    (answered : query.result (s.entering constant) = .ok value) :
    query.result (t.entering constant) = .ok value ∧
      Ahead ((query.next (s.entering constant)).leaving constant (.ok value))
        ((query.next (t.entering constant)).leaving constant (.ok value)) := by
  obtain ⟨stands, heldS⟩ := servesS.expected (.constant constant node) .constant
  obtain ⟨_, heldT⟩ := servesT.expected (.constant constant node) .constant
  have linked : ∀ last ∈ chain.getLast?, (bounded index options).Refers last constant :=
    fun last member => servesS.belongs last member constant (demands_initializer.mpr rfl)
  have unfailedInside : ∀ other error, (bounded index options).Depends constant.scope
      (expression constant.scope .strict node) other →
        (t.entering constant).state other.id ≠ .failed error := by
    intro other error depends failed
    rw [Reflector.state_entering] at failed
    split at failed
    · cases failed
    · obtain ⟨first, demands, reached⟩ := depends
      exact unfailed other error ⟨constant, demands_initializer.mpr rfl,
        .head ⟨node, stands, demands_expression.mp demands⟩ reached⟩ failed
  obtain ⟨answeredT, aheadNext⟩ := repeats _ _ _
    (soundS.entering heldS knownS linked) (soundT.entering heldT knownT linked)
    (ahead.entering constant) (soundS.serves_entering stands)
    (soundT.serves_entering stands) sameS sameT unfailedInside value answered
  exact ⟨answeredT, aheadNext.leaving constant value⟩

end Resolve

/-- What is found out is the same for both, and all that it took is remembered by the one
that is ahead. -/
theorem Evaluation.resolve_repeats {eval : Scope → NodeId → Query Value}
    (repeats : ∀ scope node,
      (eval scope node).Repeats index options scope (expression scope .strict node))
    (follows : ∀ scope node,
      (eval scope node).Follows index options scope (expression scope .strict node))
    (advances : ∀ scope node, (eval scope node).Advances) (scope : Scope)
    (constant : ConstantInfo) (node : NodeId) :
    (resolve eval constant node).Repeats index options scope (.initializer constant node) := by
  intro chain s t soundS soundT ahead servesS servesT sameS sameT unfailed value answered
  obtain ⟨stands, heldS⟩ := servesS.expected (.constant constant node) .constant
  obtain ⟨_, heldT⟩ := servesT.expected (.constant constant node) .constant
  cases knownT : t.state constant.id with
  | failed error =>
      exact absurd knownT (unfailed constant error (demands_initializer.mpr rfl).depends)
  | resolved known =>
      obtain ⟨soundNext, answers, _⟩ :=
        resolve_follows follows scope constant node chain s soundS servesS sameS
      have step := ((resolve_advances advances constant node).next s).toStep
      have keeps : s.Keeps ((resolve eval constant node).next s) := ⟨sameS, step.hidden⟩
      rw [(resolve_of_resolved knownT).1, (resolve_of_resolved knownT).2]
      obtain ⟨rfl, aheadNext⟩ := ahead.of_known step soundNext soundT
        (answers value answered) stands (keeps.holds heldS) heldT knownT
      exact ⟨rfl, aheadNext⟩
  | resolving =>
      have member := soundT.resolving constant heldT knownT
      rw [(resolve_of_resolving (soundS.opened constant member)).1] at answered
      cases answered
  | unresolved =>
      cases knownS : s.state constant.id with
      | resolved known => cases (ahead.resolved _ known knownS).symm.trans knownT
      | failed error =>
          rw [(resolve_of_failed knownS).1] at answered
          cases answered
      | resolving =>
          rw [(resolve_of_resolving knownS).1] at answered
          cases answered
      | unresolved =>
          by_cases long : s.options.maxConstantChain ≤ s.underway.constants.length
          · rw [(resolve_of_long_chain knownS long).1] at answered
            cases answered
          · have short := Nat.lt_of_not_le long
            have shortT : t.underway.constants.length < t.options.maxConstantChain := by
              rw [ahead.underway, soundT.alike.options, ← soundS.alike.options]
              exact short
            obtain ⟨resultS, nextS⟩ : (resolve eval constant node).result s = _ ∧
              (resolve eval constant node).next s = _ := resolve_of_unresolved knownS short
            obtain ⟨resultT, nextT⟩ : (resolve eval constant node).result t = _ ∧
              (resolve eval constant node).next t = _ := resolve_of_unresolved knownT shortT
            rw [resultS] at answered
            rw [nextS] at sameS
            rw [nextT] at sameT
            obtain ⟨answeredT, aheadNext⟩ := find_out_repeats (repeats _ _) soundS
              soundT ahead servesS servesT knownS knownT sameS sameT unfailed answered
            rw [resultT, nextT, nextS, answered, answeredT]
            exact ⟨rfl, aheadNext⟩

theorem Query.Repeats.within {α : Type} {scope : Scope} {plan : Plan α} {query : Query α}
    (repeats : query.Repeats index options scope plan) :
    (inside (·.enterExpression) (·.leaveExpression) query).Repeats index options scope plan := by
  intro chain s t soundS soundT ahead servesS servesT sameS sameT unfailed value answered
  have opened : ∀ {r : Reflector}, r.Sound index options chain →
      (r.withUnderway r.underway.enterExpression).Sound index options chain :=
    fun sound => sound.keep ⟨rfl, List.prefix_refl _⟩ rfl rfl rfl fun _ => rfl
  rw [result_inside] at answered ⊢
  rw [next_inside] at sameS sameT
  rw [next_inside, next_inside]
  have aheadInside : Ahead (s.withUnderway s.underway.enterExpression)
      (t.withUnderway t.underway.enterExpression) :=
    ⟨congrArg Underway.enterExpression ahead.underway, ahead.resolved⟩
  obtain ⟨answeredT, aheadNext⟩ := repeats chain _ _ (opened soundS) (opened soundT) aheadInside
    ⟨servesS.belongs, servesS.expected⟩ ⟨servesT.belongs, servesT.expected⟩ sameS sameT unfailed
    value answered
  exact ⟨answeredT, congrArg Underway.leaveExpression aheadNext.underway, aheadNext.resolved⟩

theorem Plan.carryOut_repeats {eval : Mode → Scope → NodeId → Query Value}
    (repeats : ∀ mode scope node,
      (eval mode scope node).Repeats index options scope (expression scope mode node))
    (follows : ∀ mode scope node,
      (eval mode scope node).Follows index options scope (expression scope mode node))
    (advances : ∀ mode scope node, (eval mode scope node).Advances) {α : Type} (scope : Scope)
    (plan : Plan α) :
    (plan.carryOut (eval · scope ·) (resolve (eval .strict))).Repeats index options scope
      plan := by
  have planAdvances := fun plan : Plan α => plan.carryOut_advances
    (fun mode node => advances mode scope node) (resolve_advances (advances .strict))
  have demands : ∀ mode node constant, (bounded index options).Demands scope
      (.value mode node) constant ↔
        (bounded index options).Demands scope (expression scope mode node) constant :=
    fun mode node constant => demands_value.trans demands_expression.symm
  have expects : ∀ mode node (r : Reflector), r.index = index →
      (bounded index options).Only scope (.value mode node) r.Expects →
        (bounded index options).Only scope (expression scope mode node) r.Expects :=
    fun mode node r same _ => r.expects_expression same scope mode node
  induction plan with
  | done result => exact Query.repeats_done result
  | askNode mode node next ih =>
      have nodeRepeats := (repeats mode scope node).transfer (demands mode node)
        (expects mode node) fun _ _ => rfl
      have nodeFollows := (follows mode scope node).transfer (fun _ => derives_value)
        (demands mode node) (expects mode node) fun _ _ => rfl
      exact nodeRepeats.bind nodeFollows (advances mode scope node) ih
        fun value => planAdvances (next value)
  | askConstant constant node next ih =>
      exact (resolve_repeats (repeats .strict) (follows .strict) (advances .strict)
        scope constant node).bind (resolve_follows (follows .strict) scope constant node)
        (resolve_advances (advances .strict) constant node) ih
        fun value => planAdvances (next value)
  | askClass name next ih =>
      exact ((Query.classNamed_looks name).repeats (Query.classNamed_determined name)).bind
        (Query.follows_classNamed name) (Query.classNamed_looks name).advances ih
        fun info => planAdvances (next info)
  | askMember info name next ih =>
      have looks := Query.member?_looks .constant info name
      exact (looks.repeats (Query.member?_determined .constant info name)).bind
        (Query.follows_member? info name) looks.advances ih
        fun member => planAdvances (next member)
  | askDeclared name next ih =>
      have looks := (Query.constant?_notes name).looks
      exact (looks.repeats (Query.constant?_determined name)).bind
        (Query.follows_constant? name) looks.advances ih
        fun constant => planAdvances (next constant)
  | askIndex next ih =>
      refine (ih index).transfer (fun constant => ⟨.lift ?_, .lift fun _ => .afterIndex⟩)
        (fun r _ only event meets => only event (.afterIndex meets)) ?_
      · rintro event ⟨meets⟩
        assumption
      · intro r alike
        have known : r.index = index := alike.index
        rw [← known]
        rfl
  | askPlatform next ih =>
      refine (ih options.platform).transfer
        (fun constant => ⟨.lift ?_, .lift fun _ => .afterPlatform⟩)
        (fun r _ only event meets => only event (.afterPlatform meets)) ?_
      · rintro event ⟨meets⟩
        assumption
      · intro r alike
        have known : r.options = options := alike.options
        rw [← known]
        rfl

theorem Evaluation.evaluate_repeats (room : Nat) (mode : Mode)
    (scope : Scope) (node : NodeId) :
    (evaluate room mode scope node).Repeats index options scope
      (expression scope mode node) := by
  induction room generalizing mode scope node with
  | zero =>
      intro chain s t _ _ _ _ _ _ _ _ value answered
      cases answered
  | succ room ih =>
      exact (Plan.carryOut_repeats ih (evaluate_follows room)
        (evaluate_advances room) scope (expression scope mode node)).within

theorem Query.perform_repeats {α : Type} (scope : Scope)
    (plan : Plan α) : (perform scope plan).Repeats index options scope plan := by
  intro chain s t soundS soundT ahead servesS servesT sameS sameT unfailed value answered
  have sameRoom : t.options.maxExpressionDepth - t.underway.depth =
      s.options.maxExpressionDepth - s.underway.depth := by
    rw [ahead.underway, soundT.alike.options, soundS.alike.options]
  have run : ∀ r : Reflector, perform scope plan r =
      let room := r.options.maxExpressionDepth - r.underway.depth
      plan.carryOut (Evaluation.evaluate room · scope ·)
        (resolve (Evaluation.evaluate room .strict)) r :=
    fun _ => rfl
  have runT := run t
  rw [sameRoom] at runT
  have nextT : (perform scope plan).next t = _ := congrArg Prod.snd runT
  have resultT : (perform scope plan).result t = _ := congrArg Prod.fst runT
  rw [nextT] at sameT ⊢
  rw [resultT]
  exact Plan.carryOut_repeats (evaluate_repeats _) (evaluate_follows _)
    (evaluate_advances _) scope plan chain s t soundS soundT ahead servesS servesT sameS sameT
    unfailed value answered

end StaticReflection
