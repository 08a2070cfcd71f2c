import StaticReflection.OrderedMap
import StaticReflection.Source.Disk
import StaticReflection.Source.File

namespace StaticReflection

/-! A cache of parsed files. It is keyed by canonical paths, and the first outcome for
a key stays: later changes of a file are not seen. -/

/-- Why there is no tree for a path. -/
inductive SourceError where
  | missing (path : String)
  | malformed (path : String) (diagnostics : List Diagnostic)
  deriving DecidableEq, Repr

def SourceError.path : SourceError → String
  | .missing path | .malformed path _ => path

def SourceError.message : SourceError → String
  | .missing path => "cannot read " ++ path ++ ": No such file or directory (os error 2)"
  | .malformed path diagnostics =>
      let first := diagnostics.head?
      "syntax error in " ++ path ++ " on line "
        ++ String.ofList (Nat.toDigits 10 ((first.map (·.line)).getD 0)) ++ ": "
        ++ (first.map (·.message)).getD ""

structure SourceCache where
  disk : Disk := {}
  outcomes : OrderedMap PathKey (Except SourceError SourceFile) := {}

namespace SourceCache

def key (cache : SourceCache) (path : String) : PathKey :=
  .ofPath (cache.disk.canonical path)

def contains (cache : SourceCache) (path : String) : Bool :=
  cache.outcomes.contains (cache.key path)

def size (cache : SourceCache) : Nat :=
  cache.outcomes.size

/-- The files that were parsed, oldest first. -/
def files (cache : SourceCache) : List SourceFile :=
  cache.outcomes.values.filterMap Except.toOption

/-- A file without errors, or its errors. -/
def checkSyntax (file : SourceFile) : Except SourceError SourceFile :=
  if file.diagnostics.isEmpty then .ok file
  else .error (.malformed file.path file.diagnostics)

/-- The outcome under a key, which is computed if there is none yet. -/
def remember (cache : SourceCache) (key : PathKey)
    (outcome : Unit → Except SourceError SourceFile) :
    Except SourceError SourceFile × SourceCache :=
  match cache.outcomes.find? key with
  | some known => (known, cache)
  | none =>
      let fresh := outcome ()
      (fresh, { cache with outcomes := cache.outcomes.insertNew key fresh })

/-- Parses a file from the disk. Bytes that are not UTF-8 are replaced. -/
def parseStored (disk : Disk) (path : String) : Except SourceError SourceFile :=
  match disk.read? path with
  | some bytes => checkSyntax (.parse path (Utf8.decode bytes) bytes.length)
  | none => .error (.missing path)

def loadFile (cache : SourceCache) (path : String) :
    Except SourceError SourceFile × SourceCache :=
  cache.remember (cache.key path) fun _ =>
    parseStored cache.disk (cache.disk.canonical path)

/-- A text under a path. An earlier outcome for the path wins. -/
def loadText (cache : SourceCache) (path : String) (text : Text) :
    Except SourceError SourceFile × SourceCache :=
  cache.remember (cache.key path) fun _ =>
    checkSyntax (.parse (cache.disk.canonical path) text)

end SourceCache

end StaticReflection
