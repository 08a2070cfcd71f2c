import StaticReflection.Reflection.Error
import StaticReflection.Reflection.Type
import StaticReflection.Source.File

namespace StaticReflection

/-! Where an expression stands, which decides what its names mean. -/

/-- A namespace block together with its file. -/
structure PlacedBlock where
  file : SourceFile
  /-- The place among the blocks of the file. -/
  index : Nat
  block : NamespaceBlock

/-- The blocks of a file in their order. -/
def SourceFile.placedBlocks (file : SourceFile) : List PlacedBlock :=
  file.blocks.zipIdx.map fun (block, index) => ⟨file, index, block⟩

/-- Blocks are the same if they are at the same place of the same file. -/
def PlacedBlock.isSame (a b : PlacedBlock) : Bool :=
  a.file.isSame b.file && a.index == b.index

/-- The class around a declaration. -/
structure ClassScope where
  name : String
  kind : ClassKind
  parent : Option String
  deriving DecidableEq, Repr

structure Scope where
  place : PlacedBlock
  owner : Option ClassScope := none
  /-- The function or method around the expression. -/
  function : Option String := none

namespace Scope

def file (scope : Scope) : SourceFile :=
  scope.place.file

def arena (scope : Scope) : Arena :=
  scope.file.arena

def node? (scope : Scope) (node : NodeId) : Option Node :=
  scope.arena.node? node

def resolver (scope : Scope) : Resolver :=
  scope.place.block.resolver

/-- The first and the last line of a node; zeros if there is no node. -/
def lines (scope : Scope) (node : NodeId) : Nat × Nat :=
  (scope.file.nodeLines? node).getD (0, 0)

/-- The line on which a node starts; zero if there is no node. -/
def line (scope : Scope) (node : Option NodeId) : Nat :=
  (node.map fun node => (scope.lines node).1).getD 0

def type? (scope : Scope) (node : Option NodeId) : Option DeclaredType :=
  DeclaredType.ofNode? scope.arena scope.resolver node

/-- An expression that only running code could evaluate. -/
def unresolvable (scope : Scope) (kind : String) (node : Option NodeId) : ReflectionError :=
  .unresolvable kind scope.file.path (scope.line node) node

def failure (scope : Scope) (fault : Fault) (node : Option NodeId) : ReflectionError :=
  .evaluation fault scope.file.path (scope.line node)

/-- The class that a name refers to. Special names refer to the class around. -/
def classNamed (scope : Scope) (name : String) (node : NodeId) :
    Except ReflectionError String :=
  let fail (fault : Fault) : Except ReflectionError String :=
    .error (scope.failure fault (some node))
  if sameFolded name "self" then
    match scope.owner with
    | some owner => .ok owner.name
    | none => fail (.noClassScope "self")
  else if sameFolded name "parent" then
    match scope.owner with
    | none => fail (.noClassScope "parent")
    | some owner =>
        match owner.parent with
        | some parent => .ok parent
        | none => fail .noParent
  else if sameFolded name "static" then fail .lateStaticBinding
  else .ok (scope.resolver.classNamed name)

/-- The name of the class around, or nothing. -/
def ownerName (scope : Scope) : String :=
  (scope.owner.map (·.name)).getD ""

def magicConstant (scope : Scope) (kind : TokenKind) (node : NodeId) : Value :=
  match kind with
  | .magicLine => .int (Int64.ofNat (scope.lines node).1)
  | .magicFile => .text scope.file.path
  | .magicDir => .text scope.file.directory
  | .magicNamespace => .text scope.place.block.name
  | .magicClass => .text scope.ownerName
  | .magicTrait =>
      .text (((scope.owner.filter (·.kind == .trait)).map (·.name)).getD "")
  | .magicFunction => .text (scope.function.getD "")
  | .magicMethod =>
      .text (match scope.owner, scope.function with
        | some owner, some function => owner.name ++ "::" ++ function
        | none, some function => function
        | _, none => "")
  | _ => .text ""

end Scope

end StaticReflection
