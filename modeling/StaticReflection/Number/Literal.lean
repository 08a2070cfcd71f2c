import StaticReflection.Number.Decimal

namespace StaticReflection

/-! Numeric literals. An integer literal that does not fit into 64 bits denotes a
double. -/

inductive NumericLiteral where
  | int (value : Int64)
  | float (value : Float)

/-- The digits of an integer literal and their base. -/
def literalBase : List Char → List Char × Nat
  | '0' :: c :: rest =>
      if c == 'x' || c == 'X' then (rest, 16)
      else if c == 'b' || c == 'B' then (rest, 2)
      else if c == 'o' || c == 'O' then (rest, 8)
      else (c :: rest, 8)
  | text => (text, 10)

/-- The double that digits denote when they are added up from the left, each step
rounded; what is no digit of the base is passed over. -/
def accumulateDigits (base : Nat) (digits : List Char) : Float :=
  (digits.filterMap (digitOf? base)).foldl
    (fun total d => total * Float.ofNat base + Float.ofNat d) 0.0

/-- The value of an integer literal without digit separators. -/
def integerLiteral (text : List Char) : NumericLiteral :=
  let (digits, base) := literalBase text
  if digits = [] then .int 0
  else
    match readInt64? base digits with
    | some value => .int value
    | none =>
        if base = 10 then .float ((readFloat? digits).getD (1.0 / 0.0))
        else .float (accumulateDigits base digits)

/-- The value of a float literal; text that is no number counts as zero. -/
def floatLiteral (text : List Char) : Float :=
  (readFloat? (text.filter (· ≠ '_'))).getD 0.0

end StaticReflection
