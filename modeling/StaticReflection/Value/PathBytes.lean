import StaticReflection.Value.Number

namespace StaticReflection

/-! Paths inside string values. A slash always separates components; another
separator does so as well if it is a single byte. -/

def isPathSeparator (separator : Char) (byte : UInt8) : Bool :=
  byte == 0x2f || byte.toNat == separator.toNat

/-- A path without separators at its end. -/
def trimSeparators (separator : Char) (path : Bytes) : Bytes :=
  (path.reverse.dropWhile (isPathSeparator separator)).reverse

def lastComponent (separator : Char) (path : Bytes) : Bytes :=
  (path.reverse.takeWhile fun byte => !isPathSeparator separator byte).reverse

/-- The parent of a path: the path up to its last component, a point if it is only
that component, and the first byte if nothing but separators is left. -/
def parentOf (separator : Char) (path : Bytes) : Bytes :=
  let trimmed := trimSeparators separator path
  if trimmed = [] then path.take 1
  else
    let base := lastComponent separator trimmed
    if base.length = trimmed.length then [0x2e]
    else
      match trimSeparators separator (trimmed.take (trimmed.length - base.length)) with
      | [] => path.take 1
      | parent => parent

/-- The parent taken a number of times, until it is its own parent. -/
def ancestorOf (separator : Char) : Nat → Bytes → Bytes
  | 0, path => path
  | levels + 1, path =>
      let parent := parentOf separator path
      if parent = path then path else ancestorOf separator levels parent

/-- The last component of a path, without a suffix that is not all of it. -/
def baseName (separator : Char) (path suffix : Bytes) : Bytes :=
  let base := lastComponent separator (trimSeparators separator path)
  if suffix ≠ [] ∧ suffix.length < base.length ∧ suffix.isSuffixOf base then
    base.take (base.length - suffix.length)
  else
    base

end StaticReflection
