import StaticReflection.Text.Basic
import StaticReflection.Text.Utf8

namespace StaticReflection

/-! Escape sequences of quoted strings and heredocs. A numeric escape stands for
one byte; a backslash that starts no escape stands for itself. -/

def backslashByte : UInt8 := 0x5c

/-- The byte that a one-letter escape stands for. The quote may be escaped only
inside that quote. -/
def simpleEscape? (quote : Option Char) (c : Char) : Option UInt8 :=
  match c with
  | 'n' => some 0x0a
  | 't' => some 0x09
  | 'r' => some 0x0d
  | 'v' => some 0x0b
  | 'e' => some 0x1b
  | 'f' => some 0x0c
  | '\\' => some 0x5c
  | '$' => some 0x24
  | '"' => if quote = some '"' then some 0x22 else none
  | _ => none

/-- The number that digits of a base denote; characters that are no digits count
as zero. -/
def digitsValue (base : Nat) (digits : List Char) : Nat :=
  digits.foldl (fun value c => value * base + (digitValue? c).getD 0) 0

/-- The character of a `\u` escape after its opening brace, and the length of what
it takes through the closing brace. -/
def codePointEscape? (text : List Char) : Option (Char × Nat) :=
  let digits := text.takeWhile isHexDigit
  let code := digitsValue 16 digits
  if digits ≠ [] ∧ text[digits.length]? = some '\x7d' ∧ code.isValidChar then
    some (Char.ofNat code, digits.length + 1)
  else
    none

/-- What the text after a backslash stands for, and how many of its characters
belong to the escape. -/
def escape (quote : Option Char) (text : List Char) : List UInt8 × Nat :=
  match text with
  | [] => ([backslashByte], 0)
  | c :: rest =>
      match simpleEscape? quote c with
      | some byte => ([byte], 1)
      | none =>
          if (digitOf? 8 c).isSome then
            let digits := (text.take 3).takeWhile fun d => (digitOf? 8 d).isSome
            ([UInt8.ofNat (digitsValue 8 digits)], digits.length)
          else
            match c, rest with
            | 'x', d :: _ =>
                if isHexDigit d then
                  let digits := (rest.take 2).takeWhile isHexDigit
                  ([UInt8.ofNat (digitsValue 16 digits)], digits.length + 1)
                else
                  ([backslashByte], 0)
            | 'u', '\x7b' :: rest =>
                match codePointEscape? rest with
                | some (decoded, length) => (String.utf8EncodeChar decoded, length + 2)
                | none => ([backslashByte], 0)
            | _, _ => ([backslashByte], 0)

/-- Decodes after skipping `skip` characters, onto the bytes decoded so far, which
are in reverse. -/
def decodeEscapesOnto (quote : Option Char) (decoded : List UInt8) :
    Nat → List Char → List UInt8
  | _, [] => decoded.reverse
  | skip + 1, _ :: text => decodeEscapesOnto quote decoded skip text
  | 0, c :: text =>
      if c = '\\' then
        let (bytes, length) := escape quote text
        decodeEscapesOnto quote (bytes.reverse ++ decoded) length text
      else
        decodeEscapesOnto quote ((String.utf8EncodeChar c).reverse ++ decoded) 0 text

/-- The bytes of a string body. `quote` is the quote that delimits it, if any. -/
def decodeEscapes (quote : Option Char) (body : List Char) : List UInt8 :=
  decodeEscapesOnto quote [] 0 body

/-- Whether a string body has an expression to interpolate: an unescaped `$`
before a name or a brace, or an unescaped brace before `$`. -/
def hasInterpolation : List Char → Bool
  | '\\' :: _ :: text => hasInterpolation text
  | '\\' :: [] => false
  | '$' :: c :: text => isNameStart c || c == '\x7b' || hasInterpolation (c :: text)
  | '\x7b' :: c :: text => c == '$' || hasInterpolation (c :: text)
  | _ :: text => hasInterpolation text
  | [] => false

/-- The length of a quoted body up to its unescaped closing quote; nothing when no
such quote comes. -/
def quotedLength? (quote : Char) : Nat → List Char → Option Nat
  | _, [] => none
  | length, '\\' :: _ :: text => quotedLength? quote (length + 2) text
  | length, c :: text =>
      if c = quote then some length else quotedLength? quote (length + 1) text

/-- The characters of a single-quoted body, and its length through the closing
quote when there is one. Only the quote and the backslash can be escaped. -/
def singleQuoted (read : List Char) (length : Nat) : List Char → List Char × Nat × Bool
  | [] => (read.reverse, length, false)
  | '\'' :: _ => (read.reverse, length + 1, true)
  | '\\' :: '\'' :: text => singleQuoted ('\'' :: read) (length + 2) text
  | '\\' :: '\\' :: text => singleQuoted ('\\' :: read) (length + 2) text
  | c :: text => singleQuoted (c :: read) (length + 1) text

end StaticReflection
