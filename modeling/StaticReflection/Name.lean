import StaticReflection.Text.Basic

namespace StaticReflection

/-! Names of namespaced entities. Class-like, function, method and namespace
names do not distinguish the case of ASCII letters; constant, property and
variable names do, except in the namespace part of a namespaced constant. -/

/-- How a name is written. -/
inductive NameForm where
  | unqualified
  | qualified
  | fullyQualified
  | relative
  deriving DecidableEq, Repr

/-- A name as its segments. -/
structure QualifiedName where
  form : NameForm
  parts : List String
  deriving DecidableEq, Repr

/-- The non-empty segments between separators. -/
def nameSegments (text : List Char) : List String :=
  ((text.splitOn '\\').filter (· ≠ [])).map String.ofList

def relativeMarker : List Char := "namespace\\".toList

/-- Reads a name as written: `\A\B`, `A\B`, `namespace\A` or `A`. -/
def QualifiedName.parse (text : String) : QualifiedName :=
  match text.toList with
  | '\\' :: rest => ⟨.fullyQualified, nameSegments rest⟩
  | chars =>
      if (chars.take relativeMarker.length).map Char.toLower = relativeMarker then
        ⟨.relative, nameSegments (chars.drop relativeMarker.length)⟩
      else if chars.contains '\\' then
        ⟨.qualified, nameSegments chars⟩
      else
        ⟨.unqualified, nameSegments chars⟩

def QualifiedName.inNamespace (space short : String) : QualifiedName :=
  ⟨.fullyQualified, nameSegments space.toList ++ [short]⟩

def QualifiedName.first (name : QualifiedName) : String :=
  name.parts.head?.getD ""

def QualifiedName.last (name : QualifiedName) : String :=
  name.parts.getLast?.getD ""

def QualifiedName.isUnqualified (name : QualifiedName) : Bool :=
  name.form == .unqualified

/-- Segments with separators between them. -/
def joinSegments (parts : List String) : String :=
  "\\".intercalate parts

/-- All segments, without a leading separator. -/
def QualifiedName.joined (name : QualifiedName) : String :=
  joinSegments name.parts

/-- All segments but the first. -/
def QualifiedName.tail (name : QualifiedName) : String :=
  joinSegments name.parts.tail

/-- The name in its written form. -/
def QualifiedName.render (name : QualifiedName) : String :=
  match name.form with
  | .fullyQualified => "\\" ++ name.joined
  | .relative => "namespace\\" ++ name.joined
  | .unqualified | .qualified => name.joined

/-- A name without one leading separator. -/
def stripSeparator (name : String) : String :=
  match name.toList with
  | '\\' :: rest => String.ofList rest
  | _ => name

/-- A short name inside a namespace; the global namespace is empty. -/
def joinNamespace (space short : String) : String :=
  if space = "" then short else space ++ "\\" ++ short

/-- The namespace and the short name of a fully qualified name: the parts before
and after its last separator. -/
def splitNamespace (name : String) : String × String :=
  let chars := (stripSeparator name).toList
  let short := (chars.reverse.takeWhile (· ≠ '\\')).reverse
  if short.length = chars.length then
    ("", String.ofList chars)
  else
    (String.ofList (chars.take (chars.length - short.length - 1)), String.ofList short)

/-- The part after the last separator. -/
def shortName (name : String) : String :=
  String.ofList (name.toList.reverse.takeWhile (· ≠ '\\')).reverse

/-- Keys under which names are looked up. -/
structure NameKey where
  text : String
  deriving DecidableEq, Repr

/-- The key of a name whose case does not count. -/
def NameKey.folded (name : String) : NameKey :=
  ⟨foldCase (stripSeparator name)⟩

/-- The key of a name whose case counts. -/
def NameKey.exact (name : String) : NameKey :=
  ⟨name⟩

/-- The key of a namespaced constant: case counts in the short name only. -/
def NameKey.constant (name : String) : NameKey :=
  let (space, short) := splitNamespace name
  if space = "" then ⟨short⟩ else ⟨foldCase space ++ "\\" ++ short⟩

end StaticReflection
