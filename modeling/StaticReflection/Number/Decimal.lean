import StaticReflection.Number.Rounding
import StaticReflection.Text.Basic

namespace StaticReflection

/-! Reading numbers. -/

/-- The number with the given digits in a base, or nothing if one of them is no
digit of that base. -/
def readDigits? (base : Nat) (digits : List Char) : Option Nat :=
  digits.foldlM (fun value c => (digitOf? base c).map (value * base + ·)) 0

/-- A sign and what follows it. -/
def takeSign : List Char → Bool × List Char
  | '-' :: rest => (true, rest)
  | '+' :: rest => (false, rest)
  | rest => (false, rest)

def int64Min : Int := -Int.pow 2 63

def int64Max : Int := Int.pow 2 63 - 1

/-- An integer of the signed 64-bit range. -/
def toInt64? (value : Int) : Option Int64 :=
  if int64Min ≤ value ∧ value ≤ int64Max then some (Int64.ofInt value) else none

/-- A signed integer in a base: a sign or none, then at least one digit. -/
def readInt64? (base : Nat) (text : List Char) : Option Int64 := do
  let (negative, digits) := takeSign text
  if digits = [] then none
  let value ← readDigits? base digits
  toInt64? (if negative then -(value : Int) else value)

/-- A decimal number as read: its digits without the point, and the power of ten
that they are multiplied by. -/
structure Decimal where
  digits : Nat
  exponent : Int
  deriving DecidableEq, Repr

/-- The exponent after a mantissa: none, or `e`, a sign or none, and digits. -/
def readExponent? : List Char → Option Int
  | [] => some 0
  | e :: rest =>
      if e == 'e' || e == 'E' then
        let (negative, digits) := takeSign rest
        if digits = [] then none
        else (readDigits? 10 digits).map fun n => if negative then -(n : Int) else n
      else none

/-- Digits with at most one point among them and at least one digit, then an
exponent. -/
def Decimal.read? (text : List Char) : Option Decimal := do
  let whole := text.takeWhile Char.isDigit
  let rest := text.drop whole.length
  let (fraction, rest) := match rest with
    | '.' :: rest => (rest.takeWhile Char.isDigit, rest.dropWhile Char.isDigit)
    | _ => ([], rest)
  if whole = [] ∧ fraction = [] then none
  let digits ← readDigits? 10 (whole ++ fraction)
  let exponent ← readExponent? rest
  return ⟨digits, exponent - fraction.length⟩

/-- A double from text: a decimal number, `inf`, `infinity` or `nan`, after a
sign or none. -/
def readFloat? (text : List Char) : Option Float :=
  let (negative, body) := takeSign text
  match String.ofList (body.map Char.toLower) with
  | "inf" | "infinity" => some (if negative then -(1.0 / 0.0) else 1.0 / 0.0)
  | "nan" => some (0.0 / 0.0)
  | _ => (Decimal.read? body).map fun d => Binary64.ofDecimal negative d.digits d.exponent

end StaticReflection
