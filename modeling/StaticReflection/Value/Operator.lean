import StaticReflection.Value.Compare

namespace StaticReflection

/-! Operators. Integer arithmetic that leaves the range of 64 bits goes on with
doubles. -/

/-- An exact integer, or the double that stands in for it. -/
def Number.ofExact (exact : Int) (rounded : Float) : Number :=
  ((toInt64? exact).map Number.int).getD (.float rounded)

def Number.add (left right : Number) : Number :=
  let rounded := left.toFloat + right.toFloat
  match left, right with
  | .int a, .int b => .ofExact (a.toInt + b.toInt) rounded
  | _, _ => .float rounded

def Number.sub (left right : Number) : Number :=
  let rounded := left.toFloat - right.toFloat
  match left, right with
  | .int a, .int b => .ofExact (a.toInt - b.toInt) rounded
  | _, _ => .float rounded

def Number.mul (left right : Number) : Number :=
  let rounded := left.toFloat * right.toFloat
  match left, right with
  | .int a, .int b => .ofExact (a.toInt * b.toInt) rounded
  | _, _ => .float rounded

/-- A power that may fit into 64 bits: bases beyond one have none above the
sixty-third power. -/
def intPower? (base : Int) (exponent : Nat) : Option Int64 :=
  if base.natAbs ≤ 1 then toInt64? (base.pow (if exponent = 0 then 0 else 2 - exponent % 2))
  else if 63 < exponent then none
  else toInt64? (base.pow exponent)

/-- A power. Integers stay integers when the exponent is a natural number of 32 bits
and the result fits. -/
def Number.pow (left right : Number) : Number :=
  let rounded := Number.float (Float.pow left.toFloat right.toFloat)
  match left, right with
  | .int base, .int exponent =>
      if 0 ≤ exponent.toInt ∧ exponent.toInt < Int.pow 2 32 then
        ((intPower? base.toInt exponent.toInt.toNat).map Number.int).getD rounded
      else rounded
  | _, _ => rounded

/-- A quotient of numbers of which the second is not zero: an integer where the
division is exact. -/
def Number.div (left right : Number) : Number :=
  let rounded := left.toFloat / right.toFloat
  match left, right with
  | .int a, .int b =>
      if Int.tmod a.toInt b.toInt = 0 then .ofExact (Int.tdiv a.toInt b.toInt) rounded
      else .float rounded
  | _, _ => .float rounded

namespace Value

def operands (op : TokenKind) (left right : Value) : Except Fault (Number × Number) :=
  match left.toNumber?, right.toNumber? with
  | some a, some b => .ok (a, b)
  | _, _ => .error (.unsupportedOperands left.typeName op right.typeName)

def arithmetic (op : TokenKind) (apply : Number → Number → Number) (left right : Value) :
    Except Fault Value := do
  let (a, b) ← operands op left right
  return (apply a b).toValue

/-- Sums of numbers, unions of arrays. -/
def add (left right : Value) : Except Fault Value :=
  match left, right with
  | .array a, .array b => .ok (.array (a.union b))
  | _, _ => arithmetic .plus Number.add left right

def divide (left right : Value) : Except Fault Value := do
  let (a, b) ← operands .slash left right
  if b.toFloat == 0.0 then throw .divisionByZero
  return (a.div b).toValue

/-- The remainder of integers, with the sign of the left one. -/
def modulo (left right : Value) : Except Fault Value := do
  let (a, b) ← operands .percent left right
  if b.toInt = 0 then throw .moduloByZero
  return .int (Int64.ofInt (Int.tmod a.toInt.toInt b.toInt.toInt))

def concat (left right : Value) : Except Fault Value := do
  return .string ((← left.toBytes) ++ (← right.toBytes))

/-- Bytes side by side; where one string ends, only a union goes on. -/
def bitwiseBytes (op : TokenKind) (left right : Bytes) : Bytes :=
  match op with
  | .bar => (List.zipWith (· ||| ·) left right) ++ left.drop right.length ++ right.drop left.length
  | .ampersand => List.zipWith (· &&& ·) left right
  | _ => List.zipWith (· ^^^ ·) left right

def bitwiseInts (op : TokenKind) (left right : Int64) : Int64 :=
  match op with
  | .ampersand => left &&& right
  | .bar => left ||| right
  | _ => left ^^^ right

def bitwise (op : TokenKind) (left right : Value) : Except Fault Value :=
  match left, right with
  | .string a, .string b => .ok (.string (bitwiseBytes op a b))
  | _, _ => do
      let (a, b) ← operands op left right
      return .int (bitwiseInts op a.toInt b.toInt)

/-- Bits shifted by a natural number of places; those that leave the word are lost. -/
def shiftInt (op : TokenKind) (value : Int64) (amount : Nat) : Int64 :=
  if op = .lessThanLessThan then
    if 64 ≤ amount then 0 else Int64.ofInt (value.toInt * Int.pow 2 amount)
  else if 64 ≤ amount then
    if value < 0 then -1 else 0
  else
    Int64.ofInt (value.toInt / Int.pow 2 amount)

def shift (op : TokenKind) (left right : Value) : Except Fault Value := do
  let (a, b) ← operands op left right
  if b.toInt < 0 then throw .negativeShift
  return .int (shiftInt op a.toInt b.toInt.toInt.toNat)

/-- A binary operator that evaluates both operands. -/
def binary (op : TokenKind) (left right : Value) : Except Fault Value :=
  match op with
  | .plus => add left right
  | .minus => arithmetic op Number.sub left right
  | .asterisk => arithmetic op Number.mul left right
  | .slash => divide left right
  | .percent => modulo left right
  | .asteriskAsterisk => arithmetic op Number.pow left right
  | .dot => concat left right
  | .ampersand | .bar | .caret => bitwise op left right
  | .lessThanLessThan | .greaterThanGreaterThan => shift op left right
  | .equalsEquals => .ok (.bool (left.looseEquals right))
  | .exclamationEquals => .ok (.bool (!left.looseEquals right))
  | .equalsEqualsEquals => .ok (.bool (left.strictEquals right))
  | .exclamationEqualsEquals => .ok (.bool (!left.strictEquals right))
  | .lessThan => .ok (.bool (left.looseCompare? right == some .lt))
  | .lessThanEquals =>
      .ok (.bool (left.looseCompare? right == some .lt || left.looseCompare? right == some .eq))
  | .greaterThan => .ok (.bool (left.looseCompare? right == some .gt))
  | .greaterThanEquals =>
      .ok (.bool (left.looseCompare? right == some .gt || left.looseCompare? right == some .eq))
  | .spaceship => .ok (.int (left.spaceship right))
  | .xorKw => .ok (.bool (left.toBool != right.toBool))
  | .ampersandAmpersand | .andKw => .ok (.bool (left.toBool && right.toBool))
  | .barBar | .orKw => .ok (.bool (left.toBool || right.toBool))
  | _ => .error (.unsupportedOperator op)

/-- The product with minus one. -/
def negate (value : Value) : Except Fault Value :=
  arithmetic .asterisk Number.mul value (.int (-1))

/-- The product with one. -/
def identity (value : Value) : Except Fault Value :=
  arithmetic .asterisk Number.mul value (.int 1)

def bitwiseNot : Value → Except Fault Value
  | .int i => .ok (.int (~~~i))
  | .float f => .ok (.int (~~~(floatToInt f)))
  | .string bytes => .ok (.string (bytes.map (~~~ ·)))
  | other => .error (.bitwiseNot other.typeName)

end Value

end StaticReflection
