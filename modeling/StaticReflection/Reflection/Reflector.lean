import StaticReflection.Reflection.Index
import StaticReflection.Reflection.Locator

namespace StaticReflection

/-! The state of a reflector, and how declarations are found by name. -/

structure Options where
  /-- How deep expressions may nest, across the constants that they refer to. -/
  maxExpressionDepth : Nat := 256
  /-- How many constants may be under evaluation at once. -/
  maxConstantChain : Nat := 64
  /-- How long a chain of ancestors may be. -/
  maxInheritanceDepth : Nat := 256
  /-- Whether predefined constants have values. -/
  predefinedConstants : Bool := true
  directorySeparator : Char := '/'
  deriving DecidableEq, Repr

/-- What the values of expressions depend on besides the declarations. -/
structure Platform where
  predefinedConstants : Bool
  directorySeparator : Char
  deriving DecidableEq, Repr

def Options.platform (options : Options) : Platform :=
  ⟨options.predefinedConstants, options.directorySeparator⟩

/-- What is known of a constant's value. -/
inductive ResolutionState where
  | unresolved
  | resolving
  | resolved (value : Value)
  | failed (error : ReflectionError)

instance : Inhabited ResolutionState := ⟨.unresolved⟩

/-- A declaration that an earlier one of the same name hides. -/
inductive HiddenDeclaration where
  | classLike (place : PlacedBlock) (entry : ClassEntry)
  | constant (place : PlacedBlock) (entry : ConstantEntry)

/-- What is being worked on at the moment. -/
structure Underway where
  /-- The classes whose ancestors are visited, outermost first. -/
  classes : List String := []
  /-- The constants under evaluation, outermost first. -/
  constants : List String := []
  /-- How many expressions are open. -/
  depth : Nat := 0
  deriving DecidableEq, Repr

namespace Underway

def enterClass (underway : Underway) (name : String) : Underway :=
  { underway with classes := underway.classes ++ [name] }

def leaveClass (underway : Underway) : Underway :=
  { underway with classes := underway.classes.dropLast }

def enterConstant (underway : Underway) (identity : String) : Underway :=
  { underway with constants := underway.constants ++ [identity] }

def leaveConstant (underway : Underway) : Underway :=
  { underway with constants := underway.constants.dropLast }

def enterExpression (underway : Underway) : Underway :=
  { underway with depth := underway.depth + 1 }

def leaveExpression (underway : Underway) : Underway :=
  { underway with depth := underway.depth - 1 }

end Underway

structure Reflector where
  options : Options := {}
  locator : Locator := .nowhere
  sources : SourceCache := {}
  index : EntityIndex := {}
  /-- The descriptors that were built for declarations of the index, each when it was first
  asked for. -/
  descriptors : Descriptors := {}
  agreement : descriptors.AgreeWith index := by exact Descriptors.agreeWith_of_none _
  /-- The states of constants that were asked for. -/
  states : OrderedMap ConstantId ResolutionState := {}
  /-- The hidden declarations that were asked for, in order. -/
  hidden : List HiddenDeclaration := []
  underway : Underway := {}
  /-- The classes that the locator was asked for, in order. -/
  asked : List String := []

/-- A reflector that was asked nothing yet. -/
def Reflector.new (options : Options) (locator : Locator) (sources : SourceCache) :
    Reflector :=
  { options, locator, sources }

/-- A reflector with the same sources that was asked nothing yet. -/
def Reflector.renew (reflector : Reflector) : Reflector :=
  .new reflector.options reflector.locator reflector.sources

/-- The descriptor of the declaration that has a name: the one that is kept, or else one that
is built and kept. -/
def Reflector.describe (reflector : Reflector) (kind : DeclarationKind) (key : NameKey) :
    Option (Descriptor kind.Info) × Reflector :=
  match (reflector.descriptors.ofKind kind).find? key with
  | some descriptor => (some descriptor, reflector)
  | none =>
      match known : reflector.index.info? kind key with
      | none => (none, reflector)
      | some info =>
          let descriptor := reflector.descriptors.fresh info
          (some descriptor,
            { reflector with
              descriptors := reflector.descriptors.keep kind key descriptor
              agreement := reflector.agreement.keep known })

/-- A question to a reflector. What a reflector learns on the way stays known also if
there is no answer. -/
abbrev Query := ExceptT ReflectionError (StateM Reflector)

namespace Query

def outcome {α : Type} (query : Query α) : Query (Except ReflectionError α) :=
  fun reflector => let (result, next) := query reflector; (.ok result, next)

/-- The result of an operation on values, with its faults blamed on a node. -/
def ofFault {α : Type} (scope : Scope) (node : Option NodeId) : Except Fault α → Query α
  | .ok value => pure value
  | .error fault => throw (scope.failure fault node)

def options : Query Options := do
  return (← get).options

/-- Runs a query inside something else, which is left whatever the outcome. -/
def inside {α : Type} (enter leave : Underway → Underway) (query : Query α) : Query α := do
  modify fun reflector => { reflector with underway := enter reflector.underway }
  let result ← outcome query
  modify fun reflector => { reflector with underway := leave reflector.underway }
  ofExcept result

def withSources {α : Type} (change : SourceCache → Except SourceError α × SourceCache) :
    Query α := do
  let (result, sources) := change (← get).sources
  modify fun reflector => { reflector with sources }
  match result with
  | .ok value => return value
  | .error error => throw (.source error)

/-- Makes the declarations of a file known. -/
def addFile (file : SourceFile) : Query Unit :=
  modify fun reflector =>
    { reflector with
      index := reflector.index.addFile file
      agreement := reflector.agreement.within (reflector.index.within_addFile file) }

/-- The file at a path, with its declarations known. -/
def file (path : String) : Query SourceFile := do
  let file ← withSources (·.loadFile path)
  addFile file
  return file

/-- A text under a path, with its declarations known. -/
def text (path : String) (text : Text) : Query SourceFile := do
  let file ← withSources (·.loadText path text)
  addFile file
  return file

def blockOf (file : SourceFile) (name : String) : Query PlacedBlock :=
  let name := stripSeparator name
  match file.blockIndex? name with
  | some index =>
      match file.placedBlocks[index]? with
      | some place => pure place
      | none => throw (.namespaceNotFound file.path name)
  | none => throw (.namespaceNotFound file.path name)

/-- One namespace of the file at a path. The file is not indexed if it has no such
namespace. -/
def namespaceOf (path name : String) : Query PlacedBlock := do
  let file ← withSources (·.loadFile path)
  let place ← blockOf file name
  addFile file
  return place

/-- Asks the locator for a class, and makes the file known that it names. -/
def locateClass (name : String) : Query Unit := do
  modify fun reflector => { reflector with asked := reflector.asked ++ [name] }
  match (← get).locator.locate? name with
  | none => throw (.classNotFound name)
  | some path =>
      let _ ← file path

def describe? (kind : DeclarationKind) (key : NameKey) :
    Query (Option (Descriptor kind.Info)) :=
  modifyGet fun reflector => reflector.describe kind key

/-- The descriptor of a declaration that has to be known. -/
def describeKnown (kind : DeclarationKind) (key : NameKey) (missing : ReflectionError) :
    Query (Descriptor kind.Info) := do
  match ← describe? kind key with
  | some descriptor => return descriptor
  | none => throw missing

/-- The descriptor of a class: of one that is known, or else of one that the locator finds. -/
def describeClass (name : String) : Query (Descriptor ClassInfo) := do
  let name := stripSeparator name
  match ← describe? .classLike (.folded name) with
  | some descriptor => return descriptor
  | none =>
      locateClass name
      describeKnown .classLike (.folded name) (.classNotFound name)

def describeFunction (name : String) : Query (Descriptor FunctionInfo) :=
  describeKnown .function (.folded name) (.functionNotFound (stripSeparator name))

def describeConstant (name : String) : Query (Descriptor ConstantInfo) :=
  describeKnown .constant (.constant name) (.constantNotFound (stripSeparator name))

def classNamed (name : String) : Query ClassInfo := do
  return (← describeClass name).info

def functionNamed (name : String) : Query FunctionInfo := do
  return (← describeFunction name).info

def constantNamed (name : String) : Query ConstantInfo := do
  return (← describeConstant name).info

def function? (name : String) : Query (Option FunctionInfo) := do
  return (← describe? .function (.folded name)).map (·.info)

def constant? (name : String) : Query (Option ConstantInfo) := do
  return (← describe? .constant (.constant name)).map (·.info)

/-- Notes a hidden declaration. Its number tells it apart. -/
def hide (declaration : HiddenDeclaration) : Query DeclarationId := do
  let serial := (← get).hidden.length
  modify fun reflector => { reflector with hidden := reflector.hidden ++ [declaration] }
  return .hidden serial

/-- The constant that a block declares. It is the one found by name unless an earlier
declaration hides it; then it is a constant of its own each time. -/
def blockConstant (place : PlacedBlock) (entry : ConstantEntry) : Query ConstantInfo := do
  match ← constant? entry.name with
  | some info =>
      if info.scope.place.isSame place then return info
      else return .declaredAt (← hide (.constant place entry)) place entry
  | none => return .declaredAt (← hide (.constant place entry)) place entry

/-- The class that a block declares, which an earlier declaration may hide. -/
def blockClass? (place : PlacedBlock) (entry : ClassEntry) : Query (Option ClassInfo) := do
  match ← outcome (classNamed entry.name) with
  | .ok info =>
      if info.scope.place.isSame place && info.node == entry.node then return some info
      else return ClassInfo.declaredAt? (← hide (.classLike place entry)) place entry
  | .error _ => return ClassInfo.declaredAt? (← hide (.classLike place entry)) place entry

/-- The function that a block declares, which an earlier declaration may hide. -/
def blockFunction? (place : PlacedBlock) (entry : FunctionEntry) :
    Query (Option FunctionInfo) := do
  match ← function? entry.name with
  | some info =>
      if info.scope.place.isSame place && info.node == entry.node then return some info
      else return FunctionInfo.declaredAt? place entry
  | none => return FunctionInfo.declaredAt? place entry

/-- What is known of a constant's value. -/
def stateOf (constant : ConstantInfo) : Query ResolutionState := do
  return ((← get).states.find? constant.id).getD .unresolved

def setState (constant : ConstantInfo) (state : ResolutionState) : Query Unit :=
  modify fun reflector =>
    { reflector with states := reflector.states.insert constant.id state }

end Query

end StaticReflection
