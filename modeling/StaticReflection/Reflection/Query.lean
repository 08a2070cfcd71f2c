import StaticReflection.Reflection.Evaluation

namespace StaticReflection.Query

/-! Values that declarations hold, and what namespaces and files declare. -/

def parameterDefault (parameter : ParameterInfo) : Query Value :=
  match parameter.default with
  | some node => evaluate parameter.scope node
  | none => throw (.noDefault (.parameter parameter.name parameter.function))

/-- The constant that the default of a parameter is, if it is nothing but one. A
constant of a namespace is named as it is declared, or else as the global one. -/
def defaultConstantName? (parameter : ParameterInfo) : Query (Option String) := do
  let scope := parameter.scope
  match parameter.default.bind scope.node? with
  | some (.constFetch name) =>
      if (literalConstant? (stripSeparator name)).isSome then return none
      let candidates := scope.resolver.constantCandidates name
      let declared ← candidates.findM? fun candidate => return (← constant? candidate).isSome
      return declared <|> candidates.getLast?
  | some (.classConstFetch owner name) =>
      if sameFolded name "class" then return none
      match scope.node? owner with
      | some (.nameRef written) =>
          let owner :=
            if sameFolded written "self" then scope.owner.map (·.name)
            else if sameFolded written "parent" then scope.owner.bind (·.parent)
            else some (scope.resolver.classNamed written)
          return owner.map (· ++ "::" ++ name)
      | _ => return none
  | _ => return none

def propertyDefault (property : PropertyInfo) : Query Value :=
  match property.default with
  | some node => evaluate property.scope node
  | none =>
      if property.hasDefault then return .null
      else throw (.noDefault (.property property.owner property.name))

/-- The value that a static variable starts with. One without an expression starts as
null. -/
def staticValue (scope : Scope) (static : StaticVariable) : Query Value :=
  match static.initializer with
  | some node => evaluate scope node
  | none => pure .null

def addStatic (scope : Scope) (values : OrderedMap String Value) (static : StaticVariable) :
    Query (OrderedMap String Value) := do
  return values.insert static.name (← staticValue scope static)

/-- The initial values of the static variables of a function. A name that comes twice has
its last value. -/
def staticValues (function : FunctionInfo) : Query (OrderedMap String Value) :=
  function.statics.foldlM (addStatic function.scope) {}

def addDefault (values : OrderedMap String Value) (property : PropertyInfo) :
    Query (OrderedMap String Value) := do
  return values.insert property.name (← propertyDefault property)

def propertyDefaults (info : ClassInfo) : Query (OrderedMap String Value) := do
  let properties ← members .property info
  (properties.filter (·.hasDefault)).foldlM addDefault {}

def addValue (values : OrderedMap String Value) (constant : ConstantInfo) :
    Query (OrderedMap String Value) := do
  return values.insert constant.name (← constantValue constant)

/-- The values of some constants. The first one without a value decides. -/
def constantValues (constants : List ConstantInfo) : Query (OrderedMap String Value) :=
  constants.foldlM addValue {}

def classConstant? (info : ClassInfo) (name : String) : Query (Option Value) := do
  match ← member? .constant info name with
  | some constant => return some (← constantValue constant)
  | none => return none

/-! Namespaces and files. -/

/-- The classes of a block in source order. -/
def blockClasses (place : PlacedBlock) : Query (List ClassInfo) := do
  return (← place.block.entities.classes.values.mapM (blockClass? place)).filterMap id

/-- The functions of a block in source order. -/
def blockFunctions (place : PlacedBlock) : Query (List FunctionInfo) := do
  return (← place.block.entities.functions.values.mapM (blockFunction? place)).filterMap id

/-- The constants of a block in source order. -/
def blockConstants (place : PlacedBlock) : Query (List ConstantInfo) :=
  place.block.entities.constants.values.mapM (blockConstant place)

def addValue? (values : OrderedMap String Value) (constant : ConstantInfo) :
    Query (OrderedMap String Value) := do
  match ← outcome (constantValue constant) with
  | .ok value => return values.insert constant.name value
  | .error _ => return values

/-- Adds the values of the constants of a block that have one. -/
def addBlockValues (values : OrderedMap String Value) (place : PlacedBlock) :
    Query (OrderedMap String Value) := do
  (← blockConstants place).foldlM addValue? values

/-- The class of a block with a short or fully qualified name. -/
def classIn? (place : PlacedBlock) (name : String) : Query (Option ClassInfo) := do
  let entities := place.block.entities
  match entities.class? (joinNamespace place.block.name name)
      <|> entities.class? (stripSeparator name) with
  | some entry => blockClass? place entry
  | none => return none

/-- The value of the constant of a block with a short or fully qualified name. -/
def constantIn? (place : PlacedBlock) (name : String) : Query (Option Value) := do
  let entities := place.block.entities
  match entities.constant? (joinNamespace place.block.name name)
      <|> entities.constant? name with
  | some entry => return some (← constantValue (← blockConstant place entry))
  | none => return none

def fileClasses (file : SourceFile) : Query (List ClassInfo) := do
  return (← file.placedBlocks.mapM blockClasses).flatten

def fileFunctions (file : SourceFile) : Query (List FunctionInfo) := do
  return (← file.placedBlocks.mapM blockFunctions).flatten

/-- The values of the constants of a file. A name that two blocks declare has the value
of the later one. -/
def fileValues (file : SourceFile) : Query (OrderedMap String Value) :=
  file.placedBlocks.foldlM addBlockValues {}

end StaticReflection.Query
