namespace StaticReflection

/-- The quotient rounded to the nearest integer; a half goes to the even
neighbour. -/
def roundDivEven (num den : Nat) : Nat :=
  let quotient := num / den
  let twice := 2 * (num % den)
  if den < twice || (twice == den && quotient % 2 == 1) then quotient + 1 else quotient

namespace Binary64

/-! Doubles as `mantissa · 2^exponent`, computed exactly. -/

/-- The exponent of the last place of the smallest doubles. -/
def minExponent : Int := -1074

def infinityBits : Nat := 0x7ff0000000000000

/-- `num / den` scaled by `2^(-exponent)`, as a numerator and a denominator. -/
def scaled (num den : Nat) (exponent : Int) : Nat × Nat :=
  if exponent < 0 then (num * Nat.pow 2 (-exponent).toNat, den)
  else (num, den * Nat.pow 2 exponent.toNat)

/-- The exponent of the last place of the double nearest to a positive ratio. -/
def lastPlace (num den : Nat) : Int :=
  let estimate : Int := (num.log2 : Int) - den.log2 - 53
  let (n, d) := scaled num den estimate
  max minExponent (if Nat.pow 2 53 ≤ n / d then estimate + 1 else estimate)

/-- The bits of the double nearest to `num / den`; a half goes to the even
neighbour, and what is too large is infinite. -/
def nearestBits (num den : Nat) : Nat :=
  if num = 0 then 0
  else
    let exponent := lastPlace num den
    let (n, d) := scaled num den exponent
    min infinityBits ((exponent - minExponent).toNat * Nat.pow 2 52 + roundDivEven n d)

/-- The nearest double with the given sign. -/
def ofRatio (negative : Bool) (num den : Nat) : Float :=
  Float.ofBits (UInt64.ofNat (nearestBits num den + if negative then Nat.pow 2 63 else 0))

/-- The nearest double to an integer. -/
def ofInt (value : Int) : Float :=
  ofRatio (value < 0) value.natAbs 1

/-- The nearest double to `±digits · 10^exponent`. Exponents that are out of the
range of doubles for the number of digits are answered without a power. -/
def ofDecimal (negative : Bool) (digits : Nat) (exponent : Int) : Float :=
  let magnitude : Int := (digits.log2 : Int) * 30103 / 100000 + exponent
  if digits = 0 || magnitude < -400 then ofRatio negative 0 1
  else if 400 < magnitude then ofRatio negative (Nat.pow 2 1024) 1
  else if exponent < 0 then ofRatio negative digits (Nat.pow 10 (-exponent).toNat)
  else ofRatio negative (digits * Nat.pow 10 exponent.toNat) 1

/-- The magnitude of a finite double as `(mantissa, exponent)` from its bits. -/
def decompose (bits : Nat) : Nat × Int :=
  let field : Nat := bits / Nat.pow 2 52 % 2048
  let fraction : Nat := bits % Nat.pow 2 52
  if field = 0 then (fraction, minExponent)
  else (fraction + Nat.pow 2 52, minExponent + (field : Int) - 1)

end Binary64

end StaticReflection
