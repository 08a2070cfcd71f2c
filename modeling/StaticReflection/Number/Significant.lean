import StaticReflection.Number.Rounding

namespace StaticReflection

/-! Decimal text of integers and doubles. -/

/-- The digits of a natural number in base ten. -/
def natDigits (n : Nat) : List Char :=
  Nat.toDigits 10 n

/-- An integer in base ten. -/
def intText (i : Int) : String :=
  String.ofList ((if i < 0 then ['-'] else []) ++ natDigits i.natAbs)

/-- A number as its leading digits: `digits` is the integer that they spell, and
the first of them stands for a multiple of `10^exponent`. -/
structure Scientific where
  digits : Nat
  exponent : Int
  deriving DecidableEq, Repr

/-- The power of ten of the first digit of a positive ratio. -/
def leadingExponent (num den : Nat) : Int :=
  if den ≤ num then
    (natDigits (num / den)).length - 1
  else
    let count := (natDigits (den / num)).length
    if den ≤ num * Nat.pow 10 (count - 1) then -((count : Int) - 1) else -(count : Int)

/-- A positive ratio rounded to `precision` significant digits; a half goes to the
even neighbour. -/
def Scientific.ofRatio (precision num den : Nat) : Scientific :=
  let exponent := leadingExponent num den
  let shift : Int := (precision : Int) - 1 - exponent
  let digits :=
    if shift < 0 then roundDivEven num (den * Nat.pow 10 (-shift).toNat)
    else roundDivEven (num * Nat.pow 10 shift.toNat) den
  if digits = Nat.pow 10 precision then ⟨Nat.pow 10 (precision - 1), exponent + 1⟩
  else ⟨digits, exponent⟩

/-- How doubles are written. -/
structure FloatFormat where
  /-- Significant digits. -/
  precision : Nat
  /-- The least exponent that is written without a power of ten. -/
  leastPlain : Int
  /-- The mark before a power of ten, which always has a sign. -/
  mark : Char

/-- Digits without zeros at the end. -/
def trimZeros (digits : List Char) : List Char :=
  (digits.reverse.dropWhile (· == '0')).reverse

/-- Digits with a point after the first one and at least one digit after the point. -/
def pointedMantissa : List Char → List Char
  | [] => ['0', '.', '0']
  | [d] => [d, '.', '0']
  | d :: rest => d :: '.' :: rest

/-- Significant digits in the notation that the format selects: with a power of ten
where the exponent is small, or where it reaches the precision. -/
def FloatFormat.layout (format : FloatFormat) (digits : List Char) (exponent : Int) :
    List Char :=
  if exponent < format.leastPlain ∨ (format.precision : Int) ≤ exponent then
    pointedMantissa digits ++ [format.mark, if exponent < 0 then '-' else '+']
      ++ natDigits exponent.natAbs
  else if exponent < 0 then
    '0' :: '.' :: List.replicate (exponent.natAbs - 1) '0' ++ digits
  else
    let whole := exponent.toNat + 1
    if digits.length ≤ whole then digits ++ List.replicate (whole - digits.length) '0'
    else digits.take whole ++ '.' :: digits.drop whole

/-- The magnitude of a finite double as a ratio. -/
def magnitude (x : Float) : Nat × Nat :=
  let (mantissa, exponent) := Binary64.decompose (x.toBits.toNat % Nat.pow 2 63)
  if exponent < 0 then (mantissa, Nat.pow 2 (-exponent).toNat)
  else (mantissa * Nat.pow 2 exponent.toNat, 1)

def isNegative (x : Float) : Bool :=
  Nat.pow 2 63 ≤ x.toBits.toNat

/-- A double in a format. -/
def FloatFormat.render (format : FloatFormat) (x : Float) : String :=
  if x.isNaN then "NAN"
  else if x.isInf then (if isNegative x then "-INF" else "INF")
  else
    let (num, den) := magnitude x
    let sign := if isNegative x then ['-'] else []
    if num = 0 then String.ofList (sign ++ ['0'])
    else
      let scientific := Scientific.ofRatio format.precision num den
      String.ofList
        (sign ++ format.layout (trimZeros (natDigits scientific.digits)) scientific.exponent)

/-- The format of doubles in strings, with a chosen number of significant digits,
of which there is at least one. -/
def floatFormat (precision : Nat) : FloatFormat :=
  ⟨max precision 1, -4, 'E'⟩

/-- A double as a string converts it: fourteen significant digits. -/
def floatText (x : Float) : String :=
  (floatFormat 14).render x

/-- The integer part of a finite double. -/
def truncateFloat (x : Float) : Int :=
  let (num, den) := magnitude x
  if isNegative x then -((num / den : Nat) : Int) else (num / den : Nat)

/-- A double as an integer: the fraction is dropped and what is out of range wraps;
infinities and NaN are zero. -/
def floatToInt (x : Float) : Int64 :=
  if x.isNaN || x.isInf then 0 else Int64.ofInt (truncateFloat x)

end StaticReflection
