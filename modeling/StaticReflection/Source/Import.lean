import StaticReflection.OrderedMap
import StaticReflection.Tree.Node

namespace StaticReflection

/-! Imports of a namespace block, and what names mean inside it. -/

/-- Imported names by the names they are known by. -/
structure ImportTable where
  classes : OrderedMap NameKey String := {}
  functions : OrderedMap NameKey String := {}
  constants : OrderedMap NameKey String := {}

def ImportTable.class? (table : ImportTable) (name : String) : Option String :=
  table.classes.find? (.folded name)

def ImportTable.function? (table : ImportTable) (name : String) : Option String :=
  table.functions.find? (.folded name)

def ImportTable.constant? (table : ImportTable) (name : String) : Option String :=
  table.constants.find? (.exact name)

def ImportTable.size (table : ImportTable) : Nat :=
  table.classes.size + table.functions.size + table.constants.size

def ImportTable.isEmpty (table : ImportTable) : Bool :=
  table.size == 0

/-- Adds an import; nothing if its name is taken. -/
def ImportTable.add? (table : ImportTable) (item : ImportItem) : Option ImportTable :=
  let name := item.localName
  match item.kind with
  | .classLike =>
      if table.classes.contains (.folded name) then none
      else some { table with classes := table.classes.insertNew (.folded name) item.name }
  | .function =>
      if table.functions.contains (.folded name) then none
      else some { table with functions := table.functions.insertNew (.folded name) item.name }
  | .constant =>
      if table.constants.contains (.exact name) then none
      else some { table with constants := table.constants.insertNew (.exact name) item.name }

/-- Class names that stand for a class in the hierarchy. -/
def isSpecialClass (name : String) : Bool :=
  ["self", "parent", "static"].contains (foldCase name)

/-- Where names are resolved: a namespace and its imports. -/
structure Resolver where
  space : String
  imports : ImportTable

/-- The fully qualified form of a name with several segments: its first segment may
be an imported class or namespace. -/
def Resolver.qualified (resolver : Resolver) (name : QualifiedName) : String :=
  match resolver.imports.class? name.first with
  | some target => target ++ "\\" ++ name.tail
  | none => joinNamespace resolver.space name.joined

/-- The fully qualified name of a class. Special names stay as they are. -/
def Resolver.classNamed (resolver : Resolver) (text : String) : String :=
  if isSpecialClass text then text
  else
    let name := QualifiedName.parse text
    match name.form with
    | .fullyQualified => name.joined
    | .relative => joinNamespace resolver.space name.joined
    | .qualified => resolver.qualified name
    | .unqualified =>
        (resolver.imports.class? name.first).getD (joinNamespace resolver.space name.joined)

/-- The fully qualified names that a function or constant may have, in the order in
which they are tried: an unqualified name that is not imported is looked for in the
namespace, then globally. -/
def Resolver.candidates (resolver : Resolver) (text : String) (imported : Option String) :
    List String :=
  let name := QualifiedName.parse text
  match name.form with
  | .fullyQualified => [name.joined]
  | .relative => [joinNamespace resolver.space name.joined]
  | .qualified => [resolver.qualified name]
  | .unqualified =>
      match imported with
      | some target => [target]
      | none =>
          if resolver.space = "" then [text]
          else [joinNamespace resolver.space text, text]

def Resolver.functionCandidates (resolver : Resolver) (name : String) : List String :=
  resolver.candidates name (resolver.imports.function? name)

def Resolver.constantCandidates (resolver : Resolver) (name : String) : List String :=
  resolver.candidates name (resolver.imports.constant? name)

end StaticReflection
