import StaticReflection.OrderedMap
import StaticReflection.Reflection.Function

namespace StaticReflection

/-! Members of classes, and constants. -/

/-- What tells declarations apart: the name under which one is found, or a number for
a declaration that an earlier one of the same name hides. -/
inductive DeclarationId where
  | named (key : NameKey)
  | hidden (serial : Nat)
  deriving DecidableEq, Repr

/-- What tells constants apart. -/
inductive ConstantId where
  | global (id : DeclarationId)
  | member (owner : DeclarationId) (key : NameKey)
  deriving DecidableEq, Repr

structure ConstantInfo where
  id : ConstantId
  /-- Fully qualified for a constant of a namespace, short for one of a class. -/
  name : String
  /-- The class that declares it. -/
  owner : Option String
  /-- The expression of its value, or of the value behind an enumeration case. -/
  value : Option NodeId
  modifiers : ConstantModifiers
  type : Option DeclaredType
  isCase : Bool
  doc : Option String
  lines : Nat × Nat
  scope : Scope

/-- The constant in messages. -/
def ConstantInfo.identity (constant : ConstantInfo) : String :=
  match constant.owner with
  | some owner => owner ++ "::" ++ constant.name
  | none => constant.name

def ConstantModifiers.plain : ConstantModifiers := ⟨.visiblePublic, false⟩

def ConstantInfo.declaredAt (id : DeclarationId) (place : PlacedBlock) (entry : ConstantEntry) :
    ConstantInfo where
  id := .global id
  name := entry.name
  owner := none
  value := some entry.value
  modifiers := .plain
  type := none
  isCase := false
  doc := entry.doc
  lines := { place : Scope }.lines entry.node
  scope := { place }

structure MethodInfo where
  function : FunctionInfo
  /-- The class that declares it. -/
  owner : String
  modifiers : MethodModifiers

def MethodInfo.name (method : MethodInfo) : String :=
  method.function.name

def MethodInfo.isConstructor (method : MethodInfo) : Bool :=
  sameFolded method.name "__construct"

def MethodInfo.isDestructor (method : MethodInfo) : Bool :=
  sameFolded method.name "__destruct"

structure PropertyInfo where
  name : String
  /-- The class that declares it. -/
  owner : String
  modifiers : PropertyModifiers
  type : Option DeclaredType
  default : Option NodeId
  /-- Declared by a parameter of the constructor. -/
  isPromoted : Bool
  doc : Option String
  lines : Nat × Nat
  scope : Scope

/-- A property without a type starts as null even if it has no initial value, unless a
parameter declares it. -/
def PropertyInfo.hasDefault (property : PropertyInfo) : Bool :=
  property.default.isSome || (property.type.isNone && !property.isPromoted)

/-- The members that a class itself declares, by name. -/
structure Members where
  methods : OrderedMap NameKey MethodInfo := {}
  properties : OrderedMap NameKey PropertyInfo := {}
  constants : OrderedMap NameKey ConstantInfo := {}

namespace Members

/-- The first declaration of a name counts. -/
def addMethod (members : Members) (method : MethodInfo) : Members :=
  { members with methods := members.methods.insertNew (.folded method.name) method }

def addProperty (members : Members) (property : PropertyInfo) : Members :=
  { members with
    properties := members.properties.insertNew (.exact property.name) property }

def addConstant (members : Members) (constant : ConstantInfo) : Members :=
  { members with
    constants := members.constants.insertNew (.exact constant.name) constant }

end Members

end StaticReflection
