import StaticReflection.Grammar.File
import StaticReflection.Source.Entity
import StaticReflection.Source.Path

namespace StaticReflection

/-! Parsed source files and their namespace blocks. -/

/-- A namespace statement, or all of a file that has none. -/
structure NamespaceBlock where
  name : String
  /-- The namespace, or the file itself. -/
  node : NodeId
  statements : List NodeId
  doc : Option String
  entities : Entities

def NamespaceBlock.isGlobal (block : NamespaceBlock) : Bool :=
  block.name == ""

def NamespaceBlock.resolver (block : NamespaceBlock) : Resolver :=
  block.entities.resolver

structure SourceFile where
  path : String
  /-- The size of the file that was read; zero for text from memory. -/
  storedBytes : Nat := 0
  text : Text
  lines : LineMap
  arena : Arena
  root : NodeId
  diagnostics : List Diagnostic
  blocks : List NamespaceBlock

def namespaceBlock? (site : Entities.Site) (node : NodeId) : Option NamespaceBlock :=
  match site.arena.node? node with
  | some (.namespaceDecl decl) =>
      some ⟨decl.name, node, decl.statements, decl.doc,
        Entities.discover site decl.name decl.statements⟩
  | _ => none

/-- The blocks of a file. If it has namespaces, code outside them is ignored;
otherwise it is one global block. -/
def namespaceBlocks (site : Entities.Site) (root : NodeId) : List NamespaceBlock :=
  match site.arena.node? root with
  | some (.sourceFile _ statements) =>
      match statements.filterMap (namespaceBlock? site) with
      | [] => [⟨"", root, statements, none, Entities.discover site "" statements⟩]
      | blocks => blocks
  | _ => []

namespace SourceFile

/-- Parses a text under a path. A tree is built also for a text with errors. -/
def parse (path : String) (text : Text) (storedBytes : Nat := 0) : SourceFile :=
  let parsed := parseFile path text
  let lines := LineMap.ofText text
  { path, storedBytes, text, lines
    arena := parsed.arena
    root := parsed.root
    diagnostics := parsed.diagnostics
    blocks := namespaceBlocks ⟨parsed.arena, lines⟩ parsed.root }

/-- The first and the last line of a node. -/
def nodeLines? (file : SourceFile) (node : NodeId) : Option (Nat × Nat) :=
  (file.arena.span? node).map fun span =>
    (file.lines.lineOf span.start, file.lines.lineOf (max (span.stop - 1) span.start))

def nodeText? (file : SourceFile) (node : NodeId) : Option String :=
  (file.arena.span? node).map fun span =>
    String.ofList (file.text.slice span.start span.stop)

def directory (file : SourceFile) : String :=
  parentPath file.path

/-- The place of the first block with a name, in any case. -/
def blockIndex? (file : SourceFile) (name : String) : Option Nat :=
  file.blocks.findIdx? fun block => NameKey.folded block.name = NameKey.folded name

def block? (file : SourceFile) (name : String) : Option NamespaceBlock :=
  (file.blockIndex? name).bind fun index => file.blocks[index]?

/-- Files of one cache are the same if they have the same path. -/
def isSame (a b : SourceFile) : Bool :=
  PathKey.ofPath a.path == PathKey.ofPath b.path

/-- Two files are alike when they have the same path and the same text, and so the
same tree. -/
def alike (a b : SourceFile) : Bool :=
  a.isSame b && a.text == b.text

end SourceFile

end StaticReflection
