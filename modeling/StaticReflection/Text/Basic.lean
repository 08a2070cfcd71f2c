namespace StaticReflection

/-! Source text as the characters of one file. Offsets into a text count the
bytes of its UTF-8 form, and every offset the library produces lies between two
characters. -/

abbrev Text := List Char

/-- Bytes of the UTF-8 form. -/
def Text.byteSize (text : Text) : Nat :=
  text.foldl (fun size c => size + c.utf8Size) 0

def Text.dropBytes : Nat → Text → Text
  | 0, text => text
  | _ + 1, [] => []
  | n + 1, c :: text => Text.dropBytes (n + 1 - c.utf8Size) text

def Text.takeBytes : Nat → Text → Text
  | 0, _ => []
  | _ + 1, [] => []
  | n + 1, c :: text => c :: Text.takeBytes (n + 1 - c.utf8Size) text

/-- The part of the text between two byte offsets. -/
def Text.slice (text : Text) (start stop : Nat) : Text :=
  Text.takeBytes (stop - start) (Text.dropBytes start text)

/-- A half-open range of byte offsets. Tokens and nodes are handed out with offsets of 32 bits;
these have no bound, and are the same in a text of less than 4 GiB. -/
structure Span where
  start : Nat
  stop : Nat
  deriving DecidableEq, Repr

/-- Bytes as characters of the same numbers. -/
def byteChars (bytes : List UInt8) : List Char :=
  bytes.map fun b => Char.ofNat b.toNat

/-! Character classes. A character outside ASCII may appear anywhere in an
identifier. -/

def isNameStart (c : Char) : Bool :=
  c.isAlpha || c == '_' || 0x80 ≤ c.toNat

def isNamePart (c : Char) : Bool :=
  c.isAlphanum || c == '_' || 0x80 ≤ c.toNat

/-- Space and horizontal tab, the characters that indent a line. -/
def isIndent (c : Char) : Bool :=
  c == ' ' || c == '\t'

/-- The six characters that separate tokens. -/
def isSeparatorSpace (c : Char) : Bool :=
  c == ' ' || c == '\t' || c == '\r' || c == '\n' || c == '\x0b' || c == '\x0c'

/-- White space of a tag or a documentation comment; a vertical tab is not. -/
def isTagSpace (c : Char) : Bool :=
  c == ' ' || c == '\t' || c == '\r' || c == '\n' || c == '\x0c'

/-- The value of a digit in bases up to sixteen. -/
def digitValue? (c : Char) : Option Nat :=
  if c.isDigit then some (c.toNat - 48)
  else if 'a' ≤ c ∧ c ≤ 'f' then some (c.toNat - 87)
  else if 'A' ≤ c ∧ c ≤ 'F' then some (c.toNat - 55)
  else none

/-- The value of a digit of the given base. -/
def digitOf? (base : Nat) (c : Char) : Option Nat :=
  (digitValue? c).filter (· < base)

def isHexDigit (c : Char) : Bool :=
  (digitValue? c).isSome

/-- Lower case for ASCII letters; every other character stays. -/
def foldCase (text : String) : String :=
  String.ofList (text.toList.map Char.toLower)

/-- Equality up to the case of ASCII letters. -/
def sameFolded (a b : String) : Bool :=
  foldCase a == foldCase b

end StaticReflection
