import StaticReflection.Reflection.Expression
import StaticReflection.Reflection.Hierarchy

namespace StaticReflection

/-! How expressions are evaluated. Each constant is evaluated at most once, and one that
depends on itself has no value. -/

namespace Evaluation

open Query

/-- The constants under evaluation from a constant on, closed by it again. -/
def cycleFrom (chain : List String) (identity : String) : List String :=
  let cycle := chain.dropWhile (· ≠ identity)
  (if cycle.isEmpty then chain else cycle) ++ [identity]

/-- What an evaluation leaves known of a constant. Where a bound was hit depends on the
constants around, so an inner constant stays open. -/
def settled (outermost : Bool) : Except ReflectionError Value → ResolutionState
  | .ok value => .resolved value
  | .error (.depthLimit bound limit) =>
      if outermost then .failed (.depthLimit bound limit) else .unresolved
  | .error error => .failed error

/-- The value of a constant's expression, which `eval` computes the first time. -/
def resolve (eval : Scope → NodeId → Query Value) (constant : ConstantInfo)
    (node : NodeId) : Query Value := do
  let chain := (← get).underway.constants
  match ← stateOf constant with
  | .resolved value => return value
  | .failed error => throw error
  | .resolving => throw (.circularConstant (cycleFrom chain constant.identity))
  | .unresolved =>
      let limit := (← options).maxConstantChain
      if limit ≤ chain.length then throw (.depthLimit .constantChain limit)
      else
        setState constant .resolving
        let result ← outcome (inside (·.enterConstant constant.identity) (·.leaveConstant)
          (eval constant.scope node))
        setState constant (settled (← get).underway.constants.isEmpty result)
        ofExcept result

end Evaluation

/-- Answers the questions of a plan, given the values of nodes and of the expressions of
constants. -/
def Plan.carryOut {α : Type} (nodeValue : Mode → NodeId → Query Value)
    (initializerValue : ConstantInfo → NodeId → Query Value) : Plan α → Query α
  | .done result => ofExcept result
  | .askNode mode node next => do
      (next (← nodeValue mode node)).carryOut nodeValue initializerValue
  | .askConstant constant node next => do
      (next (← initializerValue constant node)).carryOut nodeValue initializerValue
  | .askClass name next => do
      (next (← Query.classNamed name)).carryOut nodeValue initializerValue
  | .askMember info name next => do
      (next (← Query.member? .constant info name)).carryOut nodeValue initializerValue
  | .askDeclared name next => do
      (next (← Query.constant? name)).carryOut nodeValue initializerValue
  | .askIndex next => do
      (next (← get).index).carryOut nodeValue initializerValue
  | .askPlatform next => do
      (next (← Query.options).platform).carryOut nodeValue initializerValue

namespace Evaluation

open Query

/-- The value of a node. `room` is how deep expressions may still nest. -/
def evaluate : Nat → Mode → Scope → NodeId → Query Value
  | 0, _, _, _ => do
      throw (.depthLimit .expression (← options).maxExpressionDepth)
  | room + 1, mode, scope, node =>
      inside (·.enterExpression) (·.leaveExpression)
        ((expression scope mode node).carryOut (evaluate room · scope ·)
          (resolve (evaluate room .strict)))

end Evaluation

namespace Query

/-- Carries out a plan for an expression that stands in a scope. -/
def perform {α : Type} (scope : Scope) (plan : Plan α) : Query α := do
  let room := (← options).maxExpressionDepth - (← get).underway.depth
  plan.carryOut (Evaluation.evaluate room · scope ·)
    (Evaluation.resolve (Evaluation.evaluate room .strict))

/-- The value of an expression. -/
def evaluate (scope : Scope) (node : NodeId) : Query Value :=
  perform scope (.value .strict node)

def constantValue (constant : ConstantInfo) : Query Value :=
  perform constant.scope (Evaluation.constantValue constant)

/-- The value behind an enumeration case. -/
def backingValue (constant : ConstantInfo) : Query Value :=
  perform constant.scope (Evaluation.backingValue constant)

end Query

end StaticReflection
