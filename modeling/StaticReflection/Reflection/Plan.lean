import StaticReflection.Reflection.Reflector

namespace StaticReflection

/-! Evaluations as the questions that they ask. A plan does not know how its questions
are answered: what is remembered, what is under way and how deep it may go are matters of
the one who carries it out. -/

/-- How an expression is evaluated: what is missing may be null instead of a fault. -/
inductive Mode where
  | strict
  | quiet
  deriving DecidableEq, Repr

/-- An evaluation that is done, or asks for something and goes on with the answer. -/
inductive Plan (α : Type) where
  | done (result : Except ReflectionError α)
  /-- The value of a node of the same expression. -/
  | askNode (mode : Mode) (node : NodeId) (next : Value → Plan α)
  /-- The value of the expression of a constant, which stands at a node. -/
  | askConstant (constant : ConstantInfo) (node : NodeId) (next : Value → Plan α)
  | askClass (name : String) (next : ClassInfo → Plan α)
  /-- The constant of a class with a name, its own or an inherited one. -/
  | askMember (info : ClassInfo) (name : String) (next : Option ConstantInfo → Plan α)
  /-- The constant of a namespace that is declared under a name. -/
  | askDeclared (name : String) (next : Option ConstantInfo → Plan α)
  | askIndex (next : EntityIndex → Plan α)
  | askPlatform (next : Platform → Plan α)

namespace Plan

variable {α β γ : Type}

def bind : Plan α → (α → Plan β) → Plan β
  | .done (.ok value), next => next value
  | .done (.error error), _ => .done (.error error)
  | .askNode mode node first, next => .askNode mode node fun value => (first value).bind next
  | .askConstant constant node first, next =>
      .askConstant constant node fun value => (first value).bind next
  | .askClass name first, next => .askClass name fun info => (first info).bind next
  | .askMember info name first, next =>
      .askMember info name fun member => (first member).bind next
  | .askDeclared name first, next =>
      .askDeclared name fun constant => (first constant).bind next
  | .askIndex first, next => .askIndex fun index => (first index).bind next
  | .askPlatform first, next => .askPlatform fun platform => (first platform).bind next

instance : Monad Plan where
  pure value := .done (.ok value)
  bind := bind

def fail (error : ReflectionError) : Plan α :=
  .done (.error error)

def fault (scope : Scope) (fault : Fault) (node : Option NodeId) : Plan α :=
  fail (scope.failure fault node)

/-- Stops at a node that only running code could evaluate. -/
def unresolvable (scope : Scope) (kind : String) (node : Option NodeId) : Plan α :=
  fail (scope.unresolvable kind node)

/-- The result of an operation on values, with its faults blamed on a node. -/
def ofFault (scope : Scope) (node : Option NodeId) : Except Fault α → Plan α
  | .ok value => pure value
  | .error fault => Plan.fault scope fault node

def value (mode : Mode) (node : NodeId) : Plan Value :=
  .askNode mode node pure

def initializer (constant : ConstantInfo) (node : NodeId) : Plan Value :=
  .askConstant constant node pure

def classNamed (name : String) : Plan ClassInfo :=
  .askClass name pure

def member? (info : ClassInfo) (name : String) : Plan (Option ConstantInfo) :=
  .askMember info name pure

def declared? (name : String) : Plan (Option ConstantInfo) :=
  .askDeclared name pure

def index : Plan EntityIndex :=
  .askIndex pure

def platform : Plan Platform :=
  .askPlatform pure

end Plan

end StaticReflection
