import StaticReflection.Proofs.Reflection.LookUps

namespace StaticReflection

/-! The evaluation of a constant, by what is known of it, and what an evaluation changes. -/

def Reflector.entering (r : Reflector) (constant : ConstantInfo) : Reflector :=
  (r.withState constant.id .resolving).withUnderway
    (r.underway.enterConstant constant.identity)

def Reflector.leaving (r : Reflector) (constant : ConstantInfo)
    (result : Except ReflectionError Value) : Reflector :=
  (r.withUnderway r.underway.leaveConstant).withState constant.id
    (Evaluation.settled r.underway.leaveConstant.constants.isEmpty result)

theorem Reflector.state_entering (r : Reflector) (constant : ConstantInfo)
    (id : ConstantId) :
    (r.entering constant).state id =
      if id = constant.id then .resolving else r.state id :=
  r.state_withState constant.id id .resolving

theorem Reflector.state_leaving (r : Reflector) (constant : ConstantInfo)
    (result : Except ReflectionError Value) (id : ConstantId) :
    (r.leaving constant result).state id =
      if id = constant.id then
        Evaluation.settled r.underway.leaveConstant.constants.isEmpty result
      else r.state id :=
  (r.withUnderway _).state_withState constant.id id _

namespace Evaluation

variable {eval : Scope → NodeId → Query Value} {constant : ConstantInfo} {node : NodeId}
  {r : Reflector}

theorem resolve_of_resolved {value : Value}
    (known : r.state constant.id = .resolved value) :
    (resolve eval constant node).result r = .ok value ∧
      (resolve eval constant node).next r = r := by
  unfold resolve
  rw [Query.result_get_bind, Query.next_get_bind,
    Query.result_bind_ok (Query.result_stateOf _ _),
    Query.next_bind_ok (Query.result_stateOf _ _), Query.next_stateOf, known]
  exact ⟨rfl, rfl⟩

theorem resolve_of_failed {error : ReflectionError}
    (known : r.state constant.id = .failed error) :
    (resolve eval constant node).result r = .error error ∧
      (resolve eval constant node).next r = r := by
  unfold resolve
  rw [Query.result_get_bind, Query.next_get_bind,
    Query.result_bind_ok (Query.result_stateOf _ _),
    Query.next_bind_ok (Query.result_stateOf _ _), Query.next_stateOf, known]
  exact ⟨rfl, rfl⟩

theorem resolve_of_resolving (known : r.state constant.id = .resolving) :
    (resolve eval constant node).result r =
        .error (.circularConstant (cycleFrom r.underway.constants constant.identity)) ∧
      (resolve eval constant node).next r = r := by
  unfold resolve
  rw [Query.result_get_bind, Query.next_get_bind,
    Query.result_bind_ok (Query.result_stateOf _ _),
    Query.next_bind_ok (Query.result_stateOf _ _), Query.next_stateOf, known]
  exact ⟨rfl, rfl⟩

theorem resolve_of_long_chain (known : r.state constant.id = .unresolved)
    (long : r.options.maxConstantChain ≤ r.underway.constants.length) :
    (resolve eval constant node).result r =
        .error (.depthLimit .constantChain r.options.maxConstantChain) ∧
      (resolve eval constant node).next r = r := by
  unfold resolve
  rw [Query.result_get_bind, Query.next_get_bind,
    Query.result_bind_ok (Query.result_stateOf _ _),
    Query.next_bind_ok (Query.result_stateOf _ _), Query.next_stateOf, known]
  dsimp only
  rw [Query.result_bind_ok (Query.result_options _), Query.next_bind_ok (Query.result_options _),
    Query.next_options, if_pos long]
  exact ⟨rfl, rfl⟩

theorem resolve_of_unresolved (known : r.state constant.id = .unresolved)
    (short : r.underway.constants.length < r.options.maxConstantChain) :
    (resolve eval constant node).result r =
        (eval constant.scope node).result (r.entering constant) ∧
      (resolve eval constant node).next r =
        ((eval constant.scope node).next (r.entering constant)).leaving constant
          ((eval constant.scope node).result (r.entering constant)) := by
  unfold resolve
  rw [Query.result_get_bind, Query.next_get_bind,
    Query.result_bind_ok (Query.result_stateOf _ _),
    Query.next_bind_ok (Query.result_stateOf _ _), Query.next_stateOf, known]
  dsimp only
  rw [Query.result_bind_ok (Query.result_options _), Query.next_bind_ok (Query.result_options _),
    Query.next_options, if_neg (Nat.not_le.mpr short),
    Query.result_bind_ok (Query.result_setState _ _ _),
    Query.next_bind_ok (Query.result_setState _ _ _),
    Query.result_bind_ok (Query.result_outcome _ _),
    Query.next_bind_ok (Query.result_outcome _ _),
    Query.result_get_bind, Query.next_get_bind,
    Query.result_bind_ok (Query.result_setState _ _ _),
    Query.next_bind_ok (Query.result_setState _ _ _), Query.result_ofExcept,
    Query.next_ofExcept, Query.next_setState, Query.next_outcome, Query.next_inside,
    Query.result_inside, Query.next_setState]
  exact ⟨rfl, rfl⟩

/-- A constant that gives a value is remembered with it. -/
theorem state_of_resolve {value : Value}
    (answered : (resolve eval constant node).result r = .ok value) :
    ((resolve eval constant node).next r).state constant.id = .resolved value := by
  cases known : r.state constant.id with
  | resolved earlier =>
      have run := @resolve_of_resolved eval constant node r earlier known
      cases run.1.symm.trans answered
      rw [run.2, known]
  | failed error => cases (resolve_of_failed known).1.symm.trans answered
  | resolving => cases (resolve_of_resolving known).1.symm.trans answered
  | unresolved =>
      by_cases long : r.options.maxConstantChain ≤ r.underway.constants.length
      · cases (resolve_of_long_chain known long).1.symm.trans answered
      · have run := @resolve_of_unresolved eval constant node r known (Nat.lt_of_not_le long)
        rw [run.2, Reflector.state_leaving, if_pos rfl, ← run.1, answered]
        rfl

theorem settled_ne_resolving (outermost : Bool) (result : Except ReflectionError Value) :
    settled outermost result ≠ .resolving := by
  rcases result with error | value
  · cases error with
    | depthLimit bound limit => cases outermost <;> simp [settled]
    | _ => simp [settled]
  · simp [settled]

theorem eq_ok_of_settled {outermost : Bool} {result : Except ReflectionError Value}
    {value : Value} (settles : settled outermost result = .resolved value) :
    result = .ok value := by
  rcases result with error | given
  · cases error with
    | depthLimit bound limit => cases outermost <;> simp [settled] at settles
    | _ => simp [settled] at settles
  · simpa [settled] using settles

theorem eq_error_of_settled {outermost : Bool}
    {result : Except ReflectionError Value} {error : ReflectionError}
    (settles : settled outermost result = .failed error) : result = .error error := by
  rcases result with thrown | given
  · cases thrown with
    | depthLimit bound limit => cases outermost <;> simp_all [settled]
    | _ => simpa [settled] using settles
  · simp [settled] at settles

theorem resolve_advances (advances : ∀ scope node, (eval scope node).Advances)
    (constant : ConstantInfo) (node : NodeId) :
    (resolve eval constant node).Advances := by
  refine fun r => ⟨?_, fun _ _ => trivial⟩
  cases known : r.state constant.id with
  | resolved value => rw [(resolve_of_resolved known).2]; exact refl r
  | failed error => rw [(resolve_of_failed known).2]; exact refl r
  | resolving => rw [(resolve_of_resolving known).2]; exact refl r
  | unresolved =>
      by_cases long : r.options.maxConstantChain ≤ r.underway.constants.length
      · rw [(resolve_of_long_chain known long).2]
        exact refl r
      · rw [(resolve_of_unresolved known (Nat.lt_of_not_le long)).2]
        have advance := (advances constant.scope node).next (r.entering constant)
        generalize (eval constant.scope node).next (r.entering constant) = after at advance
        generalize (eval constant.scope node).result (r.entering constant) = result
        have others : ∀ id, id ≠ constant.id →
            (after.leaving constant result).state id = after.state id ∧
              (r.entering constant).state id = r.state id := by
          intro id apart
          exact ⟨by rw [Reflector.state_leaving, if_neg apart],
            by rw [Reflector.state_entering, if_neg apart]⟩
        -- The constant itself was open before, so only the others have to be followed
        -- through the evaluation.
        refine ⟨⟨?_, advance.options, advance.locator, advance.hidden, advance.index,
          advance.sources, advance.declared, advance.described, ?_, ?_⟩, advance.stays⟩
        · change after.underway.leaveConstant = r.underway
          rw [advance.underway]
          exact Underway.leaveConstant_enterConstant constant.identity r.underway
        · intro id settledBefore
          have apart : id ≠ constant.id := by
            rintro rfl
            exact settledBefore known
          rw [(others id apart).1, advance.settled id ((others id apart).2 ▸ settledBefore),
            (others id apart).2]
        · intro id unresolved
          by_cases same : id = constant.id
          · rw [same, Reflector.state_leaving, if_pos rfl]
            exact settled_ne_resolving _ _
          · rw [(others id same).1]
            exact advance.opened id ((others id same).2 ▸ unresolved)

end Evaluation

theorem Plan.carryOut_moves {α : Type} {R : Reflector → Reflector → Prop}
    [IsPreorder Reflector R] {nodeValue : Mode → NodeId → Query Value}
    {initializerValue : ConstantInfo → NodeId → Query Value}
    (looks : ∀ {β : Type} {query : Query β}, query.Looks → query.Moves R fun _ => True)
    (nodes : ∀ mode node, (nodeValue mode node).Moves R fun _ => True)
    (initializers : ∀ constant node,
      (initializerValue constant node).Moves R fun _ => True)
    (plan : Plan α) :
    (plan.carryOut nodeValue initializerValue).Moves R fun _ => True := by
  induction plan with
  | done result => exact .ofExcept fun _ _ => trivial
  | askNode mode node next ih => exact .bind (nodes mode node) ih
  | askConstant constant node next ih => exact .bind (initializers constant node) ih
  | askClass name next ih => exact .bind (looks (Query.classNamed_looks name)) ih
  | askMember info name next ih =>
      exact .bind (looks (Query.member?_looks .constant info name)) ih
  | askDeclared name next ih => exact .bind (looks (Query.constant?_notes name).looks) ih
  | askIndex next ih => exact .bind .get fun reflector => ih reflector.index
  | askPlatform next ih => exact .bind .options fun options => ih options.platform

theorem Plan.carryOut_advances {α : Type} {nodeValue : Mode → NodeId → Query Value}
    {initializerValue : ConstantInfo → NodeId → Query Value}
    (nodes : ∀ mode node, (nodeValue mode node).Advances)
    (initializers : ∀ constant node, (initializerValue constant node).Advances)
    (plan : Plan α) : (plan.carryOut nodeValue initializerValue).Advances :=
  plan.carryOut_moves (fun looks => looks.advances) nodes initializers

theorem Evaluation.evaluate_advances (room : Nat) (mode : Mode) (scope : Scope)
    (node : NodeId) : (evaluate room mode scope node).Advances := by
  induction room generalizing mode scope node with
  | zero => exact .bind .options fun _ => .throw trivial
  | succ room ih =>
      exact Query.inside_advances Underway.leaveExpression_enterExpression
        (Plan.carryOut_advances (fun mode node => ih mode scope node)
          (resolve_advances (ih .strict)) _)

theorem Query.perform_advances {α : Type} (scope : Scope) (plan : Plan α) :
    (perform scope plan).Advances :=
  .bind .options fun _ => .bind .get fun _ =>
    plan.carryOut_advances (fun mode node => Evaluation.evaluate_advances _ mode scope node)
      (Evaluation.resolve_advances (Evaluation.evaluate_advances _ .strict))

end StaticReflection
