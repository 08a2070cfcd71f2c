import StaticReflection.Source.Cache

namespace StaticReflection

/-! Which file declares a class that no known file declares. -/

inductive Locator where
  /-- Knows no file. -/
  | nowhere
  /-- A map from class names, whose case does not count. -/
  | classMap (paths : OrderedMap NameKey String)
  /-- The path of the file follows the name of the class. -/
  | byName (directory : String)
  /-- A function decides. -/
  | byFunction (answer : String → Option String)

namespace Locator

def mapKey (name : String) : NameKey :=
  .folded (stripSeparator name)

/-- The path of a file named for a class. -/
def pathOfName (directory name : String) : String :=
  let path := name.toList.map fun c => if c = '\\' then '/' else c
  directory ++ "/" ++ String.ofList path ++ ".php"

def locate? (locator : Locator) (name : String) : Option String :=
  match locator with
  | nowhere => none
  | classMap paths => paths.find? (mapKey name)
  | byName directory => some (pathOfName directory name)
  | byFunction answer => answer name

/-- A map from pairs of a class and a path; a later pair replaces an earlier one. -/
def ofPairs (pairs : List (String × String)) : Locator :=
  .classMap (pairs.foldl (fun paths (name, path) => paths.insert (mapKey name) path) {})

/-- Whether the file of a path is taken to be source text. -/
def isSourcePath (path : String) : Bool :=
  match fileExtension? (String.ofList (path.toList.reverse.takeWhile (· ≠ '/')).reverse) with
  | some extension => sameFolded extension "php"
  | none => false

/-- Adds the classes of a file. Classes that are in the map stay. -/
def addFile (disk : Disk) (paths : OrderedMap NameKey String) (path : String) :
    OrderedMap NameKey String :=
  match SourceCache.parseStored disk path with
  | .ok file =>
      let names := file.blocks.flatMap fun block => block.entities.classes.values.map (·.name)
      names.foldl (fun paths name => paths.insertNew (.folded name) file.path) paths
  | .error _ => paths

/-- The classes that the source files under a directory declare. Files with errors are
left out, and the first declaration of a name counts. -/
def scan (disk : Disk) (directory : String) : Locator :=
  .classMap (((disk.filesUnder directory).filter isSourcePath).foldl (addFile disk) {})

end Locator

end StaticReflection
