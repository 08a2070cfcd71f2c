import StaticReflection.Number.Decimal
import StaticReflection.Number.Significant

namespace StaticReflection

/-! Numbers, and strings that hold them. -/

abbrev Bytes := List UInt8

inductive Number where
  | int (value : Int64)
  | float (value : Float)

/-- The number as a double; an integer as the nearest one. -/
def Number.toFloat : Number → Float
  | .int i => Binary64.ofInt i.toInt
  | .float f => f

def Number.toInt : Number → Int64
  | .int i => i
  | .float f => floatToInt f

/-- How much of a string is a number. -/
inductive NumericString where
  /-- All of it but blanks around the number. -/
  | whole (number : Number)
  /-- A number that something else follows. -/
  | leading (number : Number)
  | notNumeric

/-- The extent of a number at the front of a text. -/
structure NumberExtent where
  length : Nat
  isFloat : Bool

/-- The fraction of a number, if a point follows its whole part. -/
def fractionDigits? : List Char → Option (List Char)
  | '.' :: rest => some (rest.takeWhile Char.isDigit)
  | _ => none

/-- The length of an exponent with at least one digit, or zero. -/
def decimalExponentLength : List Char → Nat
  | e :: rest =>
      if e == 'e' || e == 'E' then
        let sign := if rest.head? = some '+' ∨ rest.head? = some '-' then 1 else 0
        let digits := (rest.drop sign).takeWhile Char.isDigit
        if digits = [] then 0 else 1 + sign + digits.length
      else 0
  | [] => 0

/-- The number at the front of a text: a sign or none, digits around a point or
none, and an exponent or none. At least one digit stands before the exponent. -/
def NumberExtent.read? (text : List Char) : Option NumberExtent :=
  let sign := if text.head? = some '+' ∨ text.head? = some '-' then 1 else 0
  let whole := (text.drop sign).takeWhile Char.isDigit
  let fraction := fractionDigits? (text.drop (sign + whole.length))
  if whole = [] ∧ fraction.getD [] = [] then none
  else
    let point := (fraction.map fun digits => digits.length + 1).getD 0
    let mantissa := sign + whole.length + point
    let exponent := decimalExponentLength (text.drop mantissa)
    some ⟨mantissa + exponent, fraction.isSome || exponent != 0⟩

/-- The value of a number as written; an integer that does not fit is a double. -/
def readNumber (text : List Char) (isFloat : Bool) : Number :=
  let asFloat := Number.float ((readFloat? text).getD 0.0)
  if isFloat then asFloat else ((readInt64? 10 text).map Number.int).getD asFloat

def NumericString.classify (bytes : Bytes) : NumericString :=
  let text := (byteChars bytes).dropWhile isSeparatorSpace
  match NumberExtent.read? text with
  | none => .notNumeric
  | some extent =>
      let number := readNumber (text.take extent.length) extent.isFloat
      if (text.drop extent.length).all isSeparatorSpace then .whole number
      else .leading number

def wholeNumber? (bytes : Bytes) : Option Number :=
  match NumericString.classify bytes with
  | .whole number => some number
  | _ => none

/-- The number that a string starts with. -/
def leadingNumber? (bytes : Bytes) : Option Number :=
  match NumericString.classify bytes with
  | .whole number | .leading number => some number
  | .notNumeric => none

end StaticReflection
