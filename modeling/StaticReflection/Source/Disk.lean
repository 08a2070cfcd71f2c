import StaticReflection.Source.Path

namespace StaticReflection

/-! Files on a disk. A directory exists where a file lies under it. -/

structure Disk where
  /-- Contents by the components of absolute paths. -/
  files : List (List String × List UInt8) := []

namespace Disk

def contents? (disk : Disk) (components : List String) : Option (List UInt8) :=
  disk.files.lookup components

/-- Puts a file on the disk, in place of an earlier one. -/
def write (disk : Disk) (components : List String) (bytes : List UInt8) : Disk :=
  ⟨disk.files.filter (fun file => file.1 ≠ components) ++ [(components, bytes)]⟩

def isDirectory (disk : Disk) (components : List String) : Bool :=
  components.isEmpty
    || disk.files.any fun file => components.isPrefixOf file.1 && file.1 != components

def holds (disk : Disk) (components : List String) : Bool :=
  disk.isDirectory components || (disk.contents? components).isSome

/-- One step along a path. It starts from a directory and ends at something that
exists. -/
def descend? (disk : Disk) (place : List String) (part : String) : Option (List String) :=
  if !disk.isDirectory place then none
  else if part = "" ∨ part = "." then some place
  else if part = ".." then some place.dropLast
  else if disk.holds (place ++ [part]) then some (place ++ [part])
  else none

/-- The components of the place that an absolute path leads to. -/
def resolve? (disk : Disk) (path : String) : Option (List String) :=
  if path.toList.head? ≠ some '/' then none
  else ((path.toList.splitOn '/').map String.ofList).foldlM disk.descend? []

/-- The canonical spelling of a path that exists; any other path as it is. -/
def canonical (disk : Disk) (path : String) : String :=
  ((disk.resolve? path).map fun components => PathKey.render ⟨true, components⟩).getD path

/-- The contents of the file that a path leads to. -/
def read? (disk : Disk) (path : String) : Option (List UInt8) :=
  (disk.resolve? path).bind disk.contents?

/-- Whether a list of names comes before another one, name by name. -/
def componentsLE : List String → List String → Bool
  | [], _ => true
  | _ :: _, [] => false
  | a :: as, b :: bs => a < b || (a == b && componentsLE as bs)

/-- The paths of all files under a directory, in the order of a walk that visits the
entries of each directory by name. -/
def filesUnder (disk : Disk) (directory : String) : List String :=
  match disk.resolve? directory with
  | none => []
  | some place =>
      (((disk.files.map (·.1)).filter place.isPrefixOf).mergeSort componentsLE).map
        fun components => PathKey.render ⟨true, components⟩

end Disk

end StaticReflection
