import StaticReflection.Value.Basic

namespace StaticReflection

/-! Comparison of values. Loose comparison converts its operands; strict comparison
does not. -/

def compareBytes : Bytes → Bytes → Ordering
  | [], [] => .eq
  | [], _ :: _ => .lt
  | _ :: _, [] => .gt
  | a :: as, b :: bs => (compare a b).then (compareBytes as bs)

/-- The order of two doubles; a NaN has none. -/
def compareFloats? (a b : Float) : Option Ordering :=
  if a < b then some .lt
  else if a == b then some .eq
  else if b < a then some .gt
  else none

def Number.compare? : Number → Number → Option Ordering
  | .int a, .int b => some (compare a.toInt b.toInt)
  | a, b => compareFloats? a.toFloat b.toFloat

/-- A number against a string: as numbers if the string is one, else as strings. -/
def compareWithText? (number : Number) (bytes : Bytes) : Option Ordering :=
  match wholeNumber? bytes with
  | some other => number.compare? other
  | none =>
      match number.toValue.toBytes with
      | .ok own => some (compareBytes own bytes)
      | .error _ => none

/-- Two strings: as numbers if both are, else byte by byte. -/
def compareTexts? (a b : Bytes) : Option Ordering :=
  match wholeNumber? a, wholeNumber? b with
  | some a, some b => a.compare? b
  | _, _ => some (compareBytes a b)

def compareTruth (a b : Value) : Ordering :=
  compare a.toBool.toNat b.toBool.toNat

mutual

/-- The loose order of two values; nothing when they cannot be compared. -/
def Value.looseCompare? : Value → Value → Option Ordering
  | .array ⟨left, _⟩, .array right =>
      if left.length ≠ right.size then some (compare left.length right.size)
      else compareEntries? left right
  | .null, .null => some .eq
  | .string a, .string b => compareTexts? a b
  | .bool a, b => some (compareTruth (.bool a) b)
  | a, .bool b => some (compareTruth a (.bool b))
  | .null, .string b => some (compareBytes [] b)
  | .string a, .null => some (compareBytes a [])
  | .null, b => some (compareTruth .null b)
  | a, .null => some (compareTruth a .null)
  | .int a, .int b => Number.compare? (.int a) (.int b)
  | .int a, .float b => Number.compare? (.int a) (.float b)
  | .float a, .int b => Number.compare? (.float a) (.int b)
  | .float a, .float b => Number.compare? (.float a) (.float b)
  | .int a, .string b => compareWithText? (.int a) b
  | .float a, .string b => compareWithText? (.float a) b
  | .string a, .int b => (compareWithText? (.int b) a).map Ordering.swap
  | .string a, .float b => (compareWithText? (.float b) a).map Ordering.swap
  | .array _, _ => some .gt
  | _, .array _ => some .lt
  | .enumCase a c, .enumCase b d => if a = b ∧ c = d then some .eq else none
  | _, _ => none
  termination_by structural left => left

/-- The order of the first values under equal keys that differ. A key that the right
array lacks leaves the arrays uncomparable. -/
def compareEntries? : List (ArrayKey × Value) → KeyedArray Value → Option Ordering
  | [], _ => some .eq
  | (key, value) :: rest, right => do
      let other ← right.get? key
      match ← value.looseCompare? other with
      | .eq => compareEntries? rest right
      | unequal => some unequal
  termination_by structural left => left

end

def Value.looseEquals (a b : Value) : Bool :=
  a.looseCompare? b == some .eq

/-- The order as an integer; values that cannot be compared count as greater. -/
def Value.spaceship (a b : Value) : Int64 :=
  match a.looseCompare? b with
  | some .lt => -1
  | some .eq => 0
  | _ => 1

mutual

/-- Same type and same value. Arrays have the same pairs in the same order. -/
def Value.strictEquals : Value → Value → Bool
  | .null, .null => true
  | .bool a, .bool b => a == b
  | .int a, .int b => a == b
  | .float a, .float b => a == b
  | .string a, .string b => a == b
  | .array ⟨a, _⟩, .array ⟨b, _⟩ => strictEqualEntries a b
  | .enumCase a c, .enumCase b d => a == b && c == d
  | _, _ => false
  termination_by structural left => left

def strictEqualEntries : List (ArrayKey × Value) → List (ArrayKey × Value) → Bool
  | [], [] => true
  | (k, v) :: rest, (k', v') :: rest' =>
      k == k' && v.strictEquals v' && strictEqualEntries rest rest'
  | _, _ => false
  termination_by structural left => left

end

end StaticReflection
