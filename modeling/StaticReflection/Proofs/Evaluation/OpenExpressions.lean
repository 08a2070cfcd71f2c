import StaticReflection.Proofs.Evaluation.PlanRuns
import StaticReflection.Proofs.Reflection.LoadedAncestors

namespace StaticReflection

/-! How many expressions are open decides how much room an evaluation starts with, and nothing
else. What is asked with the same room runs in the same way inside an expression and outside. -/

/-- The query does the same with one more expression open. -/
def Query.Uncounted {α : Type} (query : Query α) : Prop :=
  ∀ r : Reflector, query.result r.opened = query.result r ∧
    query.next r.opened = (query.next r).opened

namespace Query

variable {α β : Type}

namespace Uncounted

theorem pure (value : α) : (Pure.pure value : Query α).Uncounted :=
  fun _ => ⟨rfl, rfl⟩

theorem throw (error : ReflectionError) : (MonadExcept.throw error : Query α).Uncounted :=
  fun _ => ⟨rfl, rfl⟩

theorem ofExcept (result : Except ReflectionError α) :
    (MonadExcept.ofExcept result : Query α).Uncounted := by
  cases result with
  | ok value => exact .pure value
  | error error => exact .throw error

theorem of_blind {query : Query α} (blind : query.Blind) : query.Uncounted := by
  intro r
  obtain ⟨result, next⟩ := blind r r.underway.enterExpression
  have own : query.next r = (query.next r).withUnderway r.underway := (blind r r.underway).2
  have underway : (query.next r).underway = r.underway := by
    rw [own]
    rfl
  refine ⟨result, ?_⟩
  rw [Reflector.opened, Reflector.opened, next, underway]

theorem bind {query : Query α} {rest : α → Query β} (first : query.Uncounted)
    (second : ∀ value, (rest value).Uncounted) : (query >>= rest).Uncounted := by
  intro r
  obtain ⟨result, next⟩ := first r
  rw [result_bind, next_bind, result, next, result_bind, next_bind]
  cases query.result r with
  | ok value => exact second value _
  | error error => exact ⟨rfl, rfl⟩

theorem reads {rest : Reflector → Query β} (apart : ∀ r : Reflector, rest r.opened = rest r)
    (each : ∀ r, (rest r).Uncounted) : (get >>= rest).Uncounted := by
  intro r
  rw [result_get_bind, next_get_bind, apart]
  exact each r r

theorem options : Query.options.Uncounted :=
  fun _ => ⟨rfl, rfl⟩

theorem inside {enter leave : Underway → Underway} {query : Query α}
    (entering : ∀ u : Underway, enter u.enterExpression = (enter u).enterExpression)
    (leaving : ∀ u : Underway, leave u.enterExpression = (leave u).enterExpression)
    (each : query.Uncounted) : (Query.inside enter leave query).Uncounted := by
  intro r
  have entered : r.opened.withUnderway (enter r.opened.underway) =
      (r.withUnderway (enter r.underway)).opened := by
    unfold Reflector.opened Reflector.withUnderway
    rw [entering]
  obtain ⟨result, next⟩ := each (r.withUnderway (enter r.underway))
  rw [result_inside, next_inside, result_inside, next_inside, entered, result, next]
  refine ⟨rfl, ?_⟩
  unfold Reflector.opened Reflector.withUnderway
  rw [leaving]

end Uncounted

end Query

namespace Hierarchy

open Query

variable {α : Type}

theorem aboveClass_uncounted (info : ClassInfo) {query : Query α} (each : query.Uncounted) :
    (aboveClass info query).Uncounted := by
  refine .bind (.reads (fun _ => rfl) fun r => ?_)
    fun _ => .inside (fun _ => rfl) (fun _ => rfl) each
  split
  · exact .throw _
  · exact .pure _

theorem firstAncestor_uncounted {visit : ClassInfo → AncestorEdge → Query (Option α)}
    (each : ∀ ancestor edge, (visit ancestor edge).Uncounted)
    (names : List (String × AncestorEdge)) : (firstAncestor visit names).Uncounted := by
  induction names with
  | nil => exact .pure none
  | cons entry rest ih =>
      refine .bind (.of_blind (classNamed_blind entry.1)) fun ancestor =>
        .bind (each ancestor entry.2) fun answer => ?_
      cases answer with
      | some answer => exact .pure _
      | none => exact ih

theorem findMember_uncounted (kind : MemberKind α) (key : NameKey) (room : Nat)
    (inherited : Bool) (info : ClassInfo) :
    (findMember kind key room inherited info).Uncounted := by
  induction room generalizing inherited info with
  | zero =>
      unfold findMember
      split
      · exact .pure _
      · refine .bind (.reads (fun _ => rfl) fun r => ?_) fun _ =>
          .bind .options fun _ => .throw _
        split
        · exact .throw _
        · exact .pure _
  | succ room ih =>
      unfold findMember
      split
      · exact .pure _
      · exact aboveClass_uncounted info
          (firstAncestor_uncounted (fun ancestor edge => ih _ ancestor) _)

end Hierarchy

theorem Query.member?_uncounted {α : Type} (kind : MemberKind α) (info : ClassInfo)
    (name : String) : (Query.member? kind info name).Uncounted := by
  refine .bind (.bind .options fun _ => .reads (fun _ => rfl) fun _ => .pure _) fun room => ?_
  exact Hierarchy.findMember_uncounted kind _ room false info

namespace Evaluation

open Query

theorem resolve_uncounted {eval : Scope → NodeId → Query Value}
    (each : ∀ scope node, (eval scope node).Uncounted) (constant : ConstantInfo)
    (node : NodeId) : (resolve eval constant node).Uncounted := by
  intro r
  have same : r.opened.state constant.id = r.state constant.id := rfl
  cases known : r.state constant.id with
  | resolved value =>
      rw [known] at same
      rw [(resolve_of_resolved known).1, (resolve_of_resolved known).2,
        (resolve_of_resolved same).1, (resolve_of_resolved same).2]
      exact ⟨rfl, rfl⟩
  | failed error =>
      rw [known] at same
      rw [(resolve_of_failed known).1, (resolve_of_failed known).2,
        (resolve_of_failed same).1, (resolve_of_failed same).2]
      exact ⟨rfl, rfl⟩
  | resolving =>
      rw [known] at same
      rw [(resolve_of_resolving known).1, (resolve_of_resolving known).2,
        (resolve_of_resolving same).1, (resolve_of_resolving same).2]
      exact ⟨rfl, rfl⟩
  | unresolved =>
      rw [known] at same
      by_cases long : r.options.maxConstantChain ≤ r.underway.constants.length
      · rw [(resolve_of_long_chain known long).1, (resolve_of_long_chain known long).2,
          (resolve_of_long_chain same long).1, (resolve_of_long_chain same long).2]
        exact ⟨rfl, rfl⟩
      · have short := Nat.lt_of_not_le long
        have entered : r.opened.entering constant = (r.entering constant).opened := rfl
        obtain ⟨result, next⟩ := each constant.scope node (r.entering constant)
        rw [(resolve_of_unresolved known short).1, (resolve_of_unresolved known short).2,
          (resolve_of_unresolved same short).1, (resolve_of_unresolved same short).2, entered,
          result, next]
        exact ⟨rfl, rfl⟩

theorem carryOut_uncounted {α : Type} {nodeValue : Mode → NodeId → Query Value}
    {initializerValue : ConstantInfo → NodeId → Query Value}
    (nodes : ∀ mode node, (nodeValue mode node).Uncounted)
    (initializers : ∀ constant node, (initializerValue constant node).Uncounted)
    (plan : Plan α) : (plan.carryOut nodeValue initializerValue).Uncounted := by
  induction plan with
  | done result => exact .ofExcept result
  | askNode mode node next ih => exact .bind (nodes mode node) ih
  | askConstant constant node next ih => exact .bind (initializers constant node) ih
  | askClass name next ih => exact .bind (.of_blind (classNamed_blind name)) ih
  | askMember info name next ih => exact .bind (member?_uncounted .constant info name) ih
  | askDeclared name next ih => exact .bind (.of_blind (constant?_blind name)) ih
  | askIndex next ih => exact .reads (fun _ => rfl) fun r => ih r.index
  | askPlatform next ih => exact .bind .options fun options => ih options.platform

theorem evaluate_uncounted (room : Nat) (mode : Mode) (scope : Scope) (node : NodeId) :
    (evaluate room mode scope node).Uncounted := by
  induction room generalizing mode scope node with
  | zero => exact .bind .options fun _ => .throw _
  | succ room ih =>
      intro r
      have carried : (carry room scope (expression scope mode node)).Uncounted :=
        carryOut_uncounted (fun mode node => ih mode scope node)
          (resolve_uncounted (ih .strict)) _
      obtain ⟨result, next⟩ := carried r.opened
      rw [result_evaluate_succ, next_evaluate_succ, result_evaluate_succ, next_evaluate_succ,
        result, next, (carried r).2]
      simp

theorem carry_uncounted {α : Type} (room : Nat) (scope : Scope) (plan : Plan α) :
    (carry room scope plan).Uncounted :=
  carryOut_uncounted (fun mode node => evaluate_uncounted room mode scope node)
    (resolve_uncounted (evaluate_uncounted room .strict)) plan

/-- An expression is carried out with less room, and otherwise as if it were not one. -/
theorem evaluate_eq_carry (room : Nat) (mode : Mode) (scope : Scope) (node : NodeId)
    (r : Reflector) :
    (evaluate (room + 1) mode scope node).result r =
        (carry room scope (expression scope mode node)).result r ∧
      (evaluate (room + 1) mode scope node).next r =
        (carry room scope (expression scope mode node)).next r := by
  obtain ⟨result, next⟩ := carry_uncounted room scope (expression scope mode node) r
  rw [result_evaluate_succ, next_evaluate_succ, result, next]
  simp

end Evaluation

end StaticReflection
