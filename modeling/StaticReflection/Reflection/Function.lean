import StaticReflection.Reflection.Modifiers
import StaticReflection.Reflection.Scope

namespace StaticReflection

/-! Functions and their parameters, as declared. -/

structure ParameterInfo where
  /-- The name without its mark. -/
  name : String
  position : Nat
  /-- The function in messages: its name with parentheses. -/
  function : String
  type : Option DeclaredType
  default : Option NodeId
  byRef : Bool
  variadic : Bool
  /-- Whether a call may leave the parameter out. -/
  isOptional : Bool := false
  /-- The modifiers of the property that the parameter declares, if it does. -/
  promoted : Option PropertyModifiers
  scope : Scope

def ParameterInfo.ofDecl (scope : Scope) (function : String) (position : Nat)
    (decl : ParameterDecl) : ParameterInfo where
  name := decl.name
  position
  function
  type := scope.type? decl.type
  default := decl.default
  byRef := decl.byRef
  variadic := decl.variadic
  promoted := if decl.isPromoted then some (.ofWritten decl.modifiers false) else none
  scope

/-- Marks a parameter in front of others. A default makes it optional only if all
later parameters are. -/
def markOptional (parameter : ParameterInfo) (later : List ParameterInfo) :
    List ParameterInfo :=
  let tailOptional := (later.head?.map (·.isOptional)).getD true
  { parameter with
    isOptional := parameter.variadic || (tailOptional && parameter.default.isSome) } :: later

structure FunctionInfo where
  /-- Fully qualified for a function, as declared for a method. -/
  name : String
  node : NodeId
  parameters : List ParameterInfo
  returnType : Option DeclaredType
  byRef : Bool
  isGenerator : Bool
  statics : List StaticVariable
  doc : Option String
  lines : Nat × Nat
  scope : Scope

def Scope.parameter? (scope : Scope) (node : NodeId) : Option ParameterDecl :=
  match scope.node? node with
  | some (.parameter decl) => some decl
  | _ => none

def FunctionInfo.ofDecl (scope : Scope) (name shown : String) (node : NodeId)
    (decl : FunctionDecl) : FunctionInfo where
  name
  node
  parameters :=
    (((decl.parameters.filterMap scope.parameter?).zipIdx.map fun (parameter, position) =>
      ParameterInfo.ofDecl scope shown position parameter)).foldr markOptional []
  returnType := scope.type? decl.returnType
  byRef := decl.byRef
  isGenerator := decl.isGenerator
  statics := decl.statics
  doc := decl.doc
  lines := scope.lines node
  scope

def FunctionInfo.declaredAt? (place : PlacedBlock) (entry : FunctionEntry) :
    Option FunctionInfo :=
  match place.file.arena.node? entry.node with
  | some (.function decl) =>
      let scope : Scope := { place, function := some entry.name }
      some (.ofDecl scope entry.name (entry.name ++ "()") entry.node decl)
  | _ => none

namespace FunctionInfo

def parameter? (function : FunctionInfo) (name : String) : Option ParameterInfo :=
  function.parameters.find? (·.name == name)

/-- How many parameters a call must give. -/
def requiredCount (function : FunctionInfo) : Nat :=
  function.parameters.countP (!·.isOptional)

def isVariadic (function : FunctionInfo) : Bool :=
  function.parameters.any (·.variadic)

end FunctionInfo

/-- Whether the default is the literal null. -/
def ParameterInfo.defaultsToNull (parameter : ParameterInfo) : Bool :=
  match parameter.default.bind parameter.scope.node? with
  | some (.constFetch name) => sameFolded (stripSeparator name) "null"
  | _ => false

/-- A parameter takes null if it has no type, a type that allows it, or null as its
default. -/
def ParameterInfo.allowsNull (parameter : ParameterInfo) : Bool :=
  match parameter.type with
  | none => true
  | some type => type.allowsNull || parameter.defaultsToNull

end StaticReflection
