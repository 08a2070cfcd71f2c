namespace StaticReflection

/-! Paths of files. Two spellings of a path are the same when they have the same
components: repeated and final separators do not count, nor do `.` components
other than a first one. -/

/-- The components of a path. -/
structure PathKey where
  isAbsolute : Bool
  components : List String
  deriving DecidableEq, Repr

/-- The components between separators that count. -/
def pathComponents (path : List Char) : List String :=
  ((path.splitOn '/').filter fun part => part ≠ [] ∧ part ≠ ['.']).map String.ofList

def PathKey.ofPath (path : String) : PathKey :=
  let chars := path.toList
  let components := pathComponents chars
  if chars.head? = some '/' then ⟨true, components⟩
  else if (chars.splitOn '/').head? = some ['.'] then ⟨false, "." :: components⟩
  else ⟨false, components⟩

def PathKey.render (key : PathKey) : String :=
  (if key.isAbsolute then "/" else "") ++ "/".intercalate key.components

/-- Removes separators and `.` components from the end of a reversed path, but not
its very first character. -/
def trimPathEnd : List Char → List Char
  | '/' :: c :: rest => trimPathEnd (c :: rest)
  | '.' :: '/' :: c :: rest => trimPathEnd (c :: rest)
  | '.' :: '/' :: [] => ['/']
  | reversed => reversed

/-- The path of the directory that holds a path: the path without its last
component. It is empty where there is none. -/
def parentPath (path : String) : String :=
  let trimmed := trimPathEnd path.toList.reverse
  if trimmed = ['/'] then ""
  else
    let rest := trimmed.dropWhile (· ≠ '/')
    String.ofList (trimPathEnd rest).reverse

/-- A path inside a directory; an absolute path stands for itself. -/
def joinPath (directory path : String) : String :=
  if path.toList.head? = some '/' then path
  else if directory = "" then path
  else if directory.toList.getLast? = some '/' then directory ++ path
  else directory ++ "/" ++ path

/-- The part of a file name after its last point. A point that starts the name does
not count. -/
def fileExtension? (name : String) : Option String :=
  let reversed := name.toList.reverse
  let extension := reversed.takeWhile (· ≠ '.')
  let stem := (reversed.drop extension.length).drop 1
  if stem = [] then none else some (String.ofList extension.reverse)

end StaticReflection
