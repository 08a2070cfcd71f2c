import StaticReflection.Text.Basic

namespace StaticReflection

/-! The formats of diagnostic logging, read leniently from a setting. -/

/-- Output formats of diagnostic logging. -/
inductive LogFormat where
  | text
  | tree
  | json
  deriving DecidableEq, Repr

/-- The characters with the Unicode property `White_Space`. -/
def isBlank (c : Char) : Bool :=
  let n := c.toNat
  (9 ≤ n && n ≤ 13) || n == 0x20 || n == 0x85 || n == 0xa0 || n == 0x1680
    || (0x2000 ≤ n && n ≤ 0x200a) || n == 0x2028 || n == 0x2029 || n == 0x202f
    || n == 0x205f || n == 0x3000

/-- Text without blanks at either end. -/
def trimBlanks (text : List Char) : List Char :=
  ((text.dropWhile isBlank).reverse.dropWhile isBlank).reverse

/-- Reads a format name; any other text means plain text. -/
def LogFormat.parse (value : String) : LogFormat :=
  match foldCase (String.ofList (trimBlanks value.toList)) with
  | "tree" => .tree
  | "json" => .json
  | _ => .text

end StaticReflection
