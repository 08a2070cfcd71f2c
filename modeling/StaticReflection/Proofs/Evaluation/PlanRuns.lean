import StaticReflection.Proofs.Evaluation.Resolution

namespace StaticReflection

/-! Plans as they are carried out, part by part. -/

/-- The reflector with one more expression open. -/
def Reflector.opened (r : Reflector) : Reflector :=
  r.withUnderway r.underway.enterExpression

/-- The reflector with the innermost expression done. -/
def Reflector.closed (r : Reflector) : Reflector :=
  r.withUnderway r.underway.leaveExpression

@[simp] theorem Reflector.closed_opened (r : Reflector) : r.opened.closed = r := by
  unfold opened closed Reflector.withUnderway
  simp

namespace Evaluation

open Query

variable {α β : Type}

/-- Carries out a plan for an expression that stands in a scope. `room` is how deep its parts
may nest. -/
def carry (room : Nat) (scope : Scope) (plan : Plan α) : Query α :=
  plan.carryOut (evaluate room · scope ·) (resolve (evaluate room .strict))

variable (room : Nat) (scope : Scope)

theorem result_evaluate_succ (mode : Mode) (node : NodeId) (r : Reflector) :
    (evaluate (room + 1) mode scope node).result r =
      (carry room scope (expression scope mode node)).result r.opened := by
  unfold evaluate
  rw [result_inside]
  rfl

theorem next_evaluate_succ (mode : Mode) (node : NodeId) (r : Reflector) :
    (evaluate (room + 1) mode scope node).next r =
      ((carry room scope (expression scope mode node)).next r.opened).closed := by
  unfold evaluate
  rw [next_inside]
  rfl

theorem result_perform (plan : Plan α) (r : Reflector) :
    (perform scope plan).result r =
      (carry (r.options.maxExpressionDepth - r.underway.depth) scope plan).result r :=
  rfl

theorem next_perform (plan : Plan α) (r : Reflector) :
    (perform scope plan).next r =
      (carry (r.options.maxExpressionDepth - r.underway.depth) scope plan).next r :=
  rfl

theorem carry_bind (plan : Plan α) (rest : α → Plan β) :
    carry room scope (plan >>= rest) =
      carry room scope plan >>= fun value => carry room scope (rest value) := by
  unfold carry
  change (plan.bind rest).carryOut _ _ = _
  induction plan with
  | done result =>
      cases result with
      | ok value =>
          change _ = (pure value : Query α) >>= _
          rw [pure_bind]
          rfl
      | error error => rfl
  | askNode mode node next ih =>
      simp only [Plan.bind, Plan.carryOut, bind_assoc, ih]
  | askConstant constant node next ih =>
      simp only [Plan.bind, Plan.carryOut, bind_assoc, ih]
  | askClass name next ih =>
      simp only [Plan.bind, Plan.carryOut, bind_assoc, ih]
  | askMember info name next ih =>
      simp only [Plan.bind, Plan.carryOut, bind_assoc, ih]
  | askDeclared name next ih =>
      simp only [Plan.bind, Plan.carryOut, bind_assoc, ih]
  | askIndex next ih =>
      simp only [Plan.bind, Plan.carryOut, bind_assoc, ih]
  | askPlatform next ih =>
      simp only [Plan.bind, Plan.carryOut, bind_assoc, ih]

@[simp] theorem carry_value (mode : Mode) (node : NodeId) :
    carry room scope (.value mode node) = evaluate room mode scope node :=
  bind_pure _

@[simp] theorem carry_initializer (constant : ConstantInfo) (node : NodeId) :
    carry room scope (.initializer constant node) =
      resolve (evaluate room .strict) constant node :=
  bind_pure _

@[simp] theorem carry_classNamed (name : String) :
    carry room scope (.classNamed name) = Query.classNamed name :=
  bind_pure _

@[simp] theorem carry_member? (info : ClassInfo) (name : String) :
    carry room scope (.member? info name) = Query.member? .constant info name :=
  bind_pure _

@[simp] theorem carry_declared? (name : String) :
    carry room scope (.declared? name) = Query.constant? name :=
  bind_pure _

theorem carry_advances (plan : Plan α) : (carry room scope plan).Advances :=
  plan.carryOut_advances (fun mode node => evaluate_advances room mode scope node)
    (resolve_advances (evaluate_advances room .strict))

end Evaluation

end StaticReflection
