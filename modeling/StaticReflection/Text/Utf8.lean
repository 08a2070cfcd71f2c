namespace StaticReflection.Utf8

/-! UTF-8 as bytes. Decoding never fails: each maximal ill-formed part becomes
one replacement character. -/

def encode (text : List Char) : List UInt8 :=
  text.flatMap String.utf8EncodeChar

/-- The bytes of a string. -/
def ofString (text : String) : List UInt8 :=
  text.toUTF8.toList

/-- The string with the given bytes, if they are well formed. -/
def toString? (bytes : List UInt8) : Option String :=
  String.fromUTF8? ⟨bytes.toArray⟩

def replacement : Char := '\ufffd'

/-- The bytes that may follow a leading byte, and how many continuation bytes
come after that one. -/
def secondByte (lead : UInt8) : Option (UInt8 × UInt8 × Nat) :=
  if 0xc2 ≤ lead ∧ lead ≤ 0xdf then some (0x80, 0xbf, 0)
  else if lead = 0xe0 then some (0xa0, 0xbf, 1)
  else if lead = 0xed then some (0x80, 0x9f, 1)
  else if 0xe1 ≤ lead ∧ lead ≤ 0xef then some (0x80, 0xbf, 1)
  else if lead = 0xf0 then some (0x90, 0xbf, 2)
  else if 0xf1 ≤ lead ∧ lead ≤ 0xf3 then some (0x80, 0xbf, 2)
  else if lead = 0xf4 then some (0x80, 0x8f, 2)
  else none

/-- The payload bits of a leading byte of a sequence with `more` continuation
bytes after the second byte. -/
def leadBits (lead : UInt8) (more : Nat) : Nat :=
  lead.toNat % Nat.pow 2 (5 - more)

/-- Reads `more` continuation bytes onto `code`. The result is the character and
the number of bytes read; the character is the replacement when a byte is not a
continuation. -/
def readTail : Nat → Nat → Nat → List UInt8 → Char × Nat
  | code, read, 0, _ => (Char.ofNat code, read)
  | _, read, _ + 1, [] => (replacement, read)
  | code, read, more + 1, b :: bytes =>
      if 0x80 ≤ b ∧ b ≤ 0xbf then
        readTail (code * 64 + b.toNat % 64) (read + 1) more bytes
      else
        (replacement, read)

/-- The first character of a byte sequence, and how many bytes after the leading
one belong to it. -/
def firstChar (lead : UInt8) (rest : List UInt8) : Char × Nat :=
  if lead < 0x80 then (Char.ofNat lead.toNat, 0)
  else
    match secondByte lead, rest with
    | some (low, high, more), b :: bytes =>
        if low ≤ b ∧ b ≤ high then
          readTail (leadBits lead more * 64 + b.toNat % 64) 1 more bytes
        else
          (replacement, 0)
    | _, _ => (replacement, 0)

/-- Decodes after skipping `skip` bytes, onto the characters read so far, which
are in reverse. -/
def decodeOnto (decoded : List Char) : Nat → List UInt8 → List Char
  | _, [] => decoded.reverse
  | skip + 1, _ :: bytes => decodeOnto decoded skip bytes
  | 0, b :: bytes =>
      let (c, read) := firstChar b bytes
      decodeOnto (c :: decoded) read bytes

def decode (bytes : List UInt8) : List Char :=
  decodeOnto [] 0 bytes

def decodeString (bytes : List UInt8) : String :=
  String.ofList (decode bytes)

end StaticReflection.Utf8
