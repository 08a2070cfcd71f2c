import StaticReflection.Text.Utf8
import StaticReflection.Value.Number

namespace StaticReflection

/-! Ordered arrays with integer and string keys. -/

inductive ArrayKey where
  | int (index : Int64)
  | string (bytes : Bytes)
  deriving DecidableEq, Repr

/-- The integer that a string spells in canonical form: no sign but a minus, no
leading zeros, no negative zero. -/
def canonicalInt? (bytes : Bytes) : Option Int64 :=
  let text := byteChars bytes
  let digits := if text.head? = some '-' then text.tail else text
  if digits ≠ [] ∧ digits.all Char.isDigit ∧ (digits = ['0'] ∨ digits.head? ≠ some '0')
      ∧ text ≠ ['-', '0'] then
    readInt64? 10 text
  else
    none

/-- The key of a string: an integer if the string spells one. -/
def ArrayKey.ofBytes (bytes : Bytes) : ArrayKey :=
  ((canonicalInt? bytes).map ArrayKey.int).getD (.string bytes)

/-- The key in messages. -/
def ArrayKey.render : ArrayKey → String
  | .int i => intText i.toInt
  | .string bytes => "\"" ++ Utf8.decodeString bytes ++ "\""

/-- Values under keys, in the order in which the keys were added. -/
structure KeyedArray (α : Type) where
  entries : List (ArrayKey × α) := []
  /-- The key of the next value without one; none after the greatest key. -/
  nextFree : Option Int64 := some 0

namespace KeyedArray

variable {α : Type}

def empty : KeyedArray α := {}

def size (array : KeyedArray α) : Nat :=
  array.entries.length

def isEmpty (array : KeyedArray α) : Bool :=
  array.entries.isEmpty

def get? (array : KeyedArray α) (key : ArrayKey) : Option α :=
  array.entries.lookup key

def contains (array : KeyedArray α) (key : ArrayKey) : Bool :=
  (array.get? key).isSome

def values (array : KeyedArray α) : List α :=
  array.entries.map (·.2)

/-- The next free key once a key is in use. -/
def nextAfter (nextFree : Option Int64) : ArrayKey → Option Int64
  | .string _ => nextFree
  | .int index =>
      nextFree.bind fun next =>
        if next ≤ index then toInt64? (index.toInt + 1) else some next

/-- Gives a key a value. A key that is there keeps its place. -/
def insert (array : KeyedArray α) (key : ArrayKey) (value : α) : KeyedArray α where
  entries :=
    if array.contains key then
      array.entries.map fun entry => if entry.1 = key then (key, value) else entry
    else
      array.entries ++ [(key, value)]
  nextFree := nextAfter array.nextFree key

/-- Appends a value under the next free key, if there is one. -/
def push? (array : KeyedArray α) (value : α) : Option (KeyedArray α) :=
  array.nextFree.map fun index => array.insert (.int index) value

/-- The array of a list of entries; a key that comes twice keeps its first place and
its last value. -/
def ofEntries (entries : List (ArrayKey × α)) : KeyedArray α :=
  entries.foldl (fun array entry => array.insert entry.1 entry.2) {}

/-- The values under the keys from zero on. -/
def ofList (values : List α) : KeyedArray α :=
  values.foldl (fun array value => (array.push? value).getD array) {}

/-- Whether the keys are the numbers from zero on, in order. -/
def isListFrom : Nat → List (ArrayKey × α) → Bool
  | _, [] => true
  | position, (key, _) :: rest =>
      key == .int (Int64.ofNat position) && isListFrom (position + 1) rest

def isList (array : KeyedArray α) : Bool :=
  isListFrom 0 array.entries

/-- The array with the entries of another one whose keys it lacks. -/
def union (array other : KeyedArray α) : KeyedArray α :=
  other.entries.foldl (fun result entry =>
    if result.contains entry.1 then result else result.insert entry.1 entry.2) array

end KeyedArray

end StaticReflection
