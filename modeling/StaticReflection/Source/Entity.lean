import StaticReflection.Source.Import
import StaticReflection.Text.Line
import StaticReflection.Text.Utf8

namespace StaticReflection

/-! What a namespace block declares. One pass over its statements collects classes,
functions, constants and imports. What cannot be registered is noted and left out;
it does not affect the rest. -/

/-- A declared class, by its fully qualified name. -/
structure ClassEntry where
  name : String
  kind : ClassKind
  node : NodeId
  deriving DecidableEq, Repr

structure FunctionEntry where
  name : String
  node : NodeId
  deriving DecidableEq, Repr

/-- How a constant is declared. -/
inductive ConstantOrigin where
  | statement
  | call
  deriving DecidableEq, Repr

structure ConstantEntry where
  name : String
  value : NodeId
  /-- The declarator, or the call that defines it. -/
  node : NodeId
  origin : ConstantOrigin
  doc : Option String
  deriving DecidableEq, Repr

/-- Why something could not be registered. -/
inductive SkipReason where
  | unnamedClass
  | duplicateClass
  | unnamedFunction
  | duplicateFunction
  | importTaken
  | defineArguments
  | defineDynamicName
  | defineEmptyName
  | duplicateConstant
  deriving DecidableEq, Repr

def SkipReason.message : SkipReason → String
  | .unnamedClass => "class-like declaration without a name"
  | .duplicateClass => "duplicate class-like declaration"
  | .unnamedFunction => "function declaration without a name"
  | .duplicateFunction => "duplicate function declaration"
  | .importTaken => "import alias is already in use"
  | .defineArguments => "define() expects a name and a value"
  | .defineDynamicName => "define() name is not a static string"
  | .defineEmptyName => "define() name is empty"
  | .duplicateConstant => "constant already defined"

structure SkippedEntity where
  node : NodeId
  name : Option String
  line : Nat
  reason : SkipReason
  deriving DecidableEq, Repr

/-- The entities of a namespace block, by name. -/
structure Entities where
  space : String
  classes : OrderedMap NameKey ClassEntry := {}
  functions : OrderedMap NameKey FunctionEntry := {}
  constants : OrderedMap NameKey ConstantEntry := {}
  imports : ImportTable := {}
  skipped : List SkippedEntity := []

namespace Entities

def class? (entities : Entities) (name : String) : Option ClassEntry :=
  entities.classes.find? (.folded name)

def function? (entities : Entities) (name : String) : Option FunctionEntry :=
  entities.functions.find? (.folded name)

def constant? (entities : Entities) (name : String) : Option ConstantEntry :=
  entities.constants.find? (.constant name)

def resolver (entities : Entities) : Resolver :=
  ⟨entities.space, entities.imports⟩

/-- Where declarations are looked for: the nodes of a file and its lines. -/
structure Site where
  arena : Arena
  lines : LineMap

def Site.lineOf (site : Site) (node : NodeId) : Nat :=
  ((site.arena.span? node).map fun span => site.lines.lineOf span.start).getD 0

/-- Notes something that could not be registered. -/
def skip (entities : Entities) (site : Site) (node : NodeId) (name : Option String)
    (reason : SkipReason) : Entities :=
  { entities with skipped := entities.skipped ++ [⟨node, name, site.lineOf node, reason⟩] }

def addClass (entities : Entities) (site : Site) (node : NodeId) (decl : ClassDecl) :
    Entities :=
  if decl.name = "" then entities.skip site node none .unnamedClass
  else
    let name := joinNamespace entities.space decl.name
    if (entities.class? name).isSome then
      entities.skip site node (some name) .duplicateClass
    else
      { entities with
        classes := entities.classes.insertNew (.folded name) ⟨name, decl.kind, node⟩ }

def addFunction (entities : Entities) (site : Site) (node : NodeId) (decl : FunctionDecl) :
    Entities :=
  if decl.name = "" then entities.skip site node none .unnamedFunction
  else
    let name := joinNamespace entities.space decl.name
    if (entities.function? name).isSome then
      entities.skip site node (some name) .duplicateFunction
    else
      { entities with
        functions := entities.functions.insertNew (.folded name) ⟨name, node⟩ }

def addConstant (entities : Entities) (site : Site) (entry : ConstantEntry) : Entities :=
  if (entities.constant? entry.name).isSome then
    entities.skip site entry.node (some entry.name) .duplicateConstant
  else
    { entities with
      constants := entities.constants.insertNew (.constant entry.name) entry }

def addImport (entities : Entities) (site : Site) (node : NodeId) (item : ImportItem) :
    Entities :=
  match entities.imports.add? item with
  | some imports => { entities with imports }
  | none => entities.skip site node (some item.localName) .importTaken

/-- A name that is known without evaluation: a string literal, the name of the
namespace, or a concatenation of such. A node is older than the nodes that refer to
it, so its own number bounds the descent. -/
def staticName? (entities : Entities) (arena : Arena) : Nat → NodeId → Option String
  | 0, _ => none
  | fuel + 1, node =>
      match arena.node? node with
      | some (.stringLiteral bytes) => Utf8.toString? bytes
      | some (.magicConst .magicNamespace) => some entities.space
      | some (.binary .dot left right) => do
          return (← entities.staticName? arena fuel left) ++
            (← entities.staticName? arena fuel right)
      | _ => none

/-- The values of the arguments of a call that are not spread. -/
def plainArguments (arena : Arena) (list : List NodeId) : List NodeId :=
  list.filterMap fun id =>
    match arena.node? id with
    | some (.argument _ value false) => some value
    | _ => none

/-- Registers the constant that a call defines. Calls of other functions declare
nothing. -/
def addDefinition (entities : Entities) (site : Site) (node : NodeId) : Entities :=
  match site.arena.node? node with
  | some (.call callee list callable) =>
      match site.arena.node? callee with
      | some (.nameRef function) =>
          if !sameFolded (stripSeparator function) "define" then entities
          else
            match callable, plainArguments site.arena list with
            | false, name :: value :: rest =>
                if 1 < rest.length then entities.skip site node none .defineArguments
                else
                  match entities.staticName? site.arena (name + 1) name with
                  | none => entities.skip site node none .defineDynamicName
                  | some name =>
                      let name := stripSeparator name
                      if name = "" then entities.skip site node none .defineEmptyName
                      else entities.addConstant site ⟨name, value, node, .call, none⟩
            | _, _ => entities.skip site node none .defineArguments
      | _ => entities
  | _ => entities

/-- Registers what a statement declares. -/
def addStatement (site : Site) (entities : Entities) (node : NodeId) : Entities :=
  match site.arena.node? node with
  | some (.classLike decl) => entities.addClass site node decl
  | some (.function decl) => entities.addFunction site node decl
  | some (.constStatement declarators doc) =>
      declarators.foldl (fun entities declarator =>
        match site.arena.node? declarator with
        | some (.constDeclarator name value) =>
            entities.addConstant site
              ⟨joinNamespace entities.space name, value, declarator, .statement, doc⟩
        | _ => entities) entities
  | some (.expressionStatement expression) => entities.addDefinition site expression
  | some (.imports items) =>
      items.foldl (fun entities item => entities.addImport site node item) entities
  | _ => entities

/-- The entities that the statements of a namespace declare. -/
def discover (site : Site) (space : String) (statements : List NodeId) : Entities :=
  statements.foldl (addStatement site) { space }

end Entities

end StaticReflection
