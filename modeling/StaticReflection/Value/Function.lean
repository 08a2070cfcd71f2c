import StaticReflection.Value.Basic
import StaticReflection.Value.PathBytes

namespace StaticReflection

/-! Functions that constant expressions may call. They depend on nothing but their
arguments. -/

inductive PureFunction where
  | dirname
  | basename
  | strtolower
  | strtoupper
  | strlen
  | strRepeat
  | implode
  | count
  /-- The value of the constant with a given name: only an evaluator can tell it. -/
  | constant
  deriving DecidableEq, Repr

namespace PureFunction

def all : List PureFunction :=
  [dirname, basename, strtolower, strtoupper, strlen, strRepeat, implode, count, constant]

def name : PureFunction → String
  | dirname => "dirname"
  | basename => "basename"
  | strtolower => "strtolower"
  | strtoupper => "strtoupper"
  | strlen => "strlen"
  | strRepeat => "str_repeat"
  | implode => "implode"
  | count => "count"
  | constant => "constant"

/-- The names of the parameters, in order. -/
def parameters : PureFunction → List String
  | dirname => ["path", "levels"]
  | basename => ["path", "suffix"]
  | strtolower | strtoupper | strlen => ["string"]
  | strRepeat => ["string", "times"]
  | implode => ["separator", "array"]
  | count => ["value", "mode"]
  | constant => ["name"]

/-- How many arguments a call needs. -/
def leastArguments : PureFunction → Nat
  | strRepeat => 2
  | _ => 1

/-- The function with a name in lower case. -/
def ofName? (name : String) : Option PureFunction :=
  all.find? fun function => function.name == name

/-- An argument where a string is expected. -/
def stringArgument (function : PureFunction) (position : Nat) (value : Value) :
    Except Fault Bytes :=
  match value with
  | .array _ | .enumCase .. =>
      .error (.argumentType function.name position "string" value.typeName)
  | other => other.toBytes

/-- An integer in the range of 64 bits, or the end of the range that is nearer. -/
def clampInt (exact : Int) : Int64 :=
  Int64.ofInt (max int64Min (min exact int64Max))

/-- Whether a double is a whole number. -/
def isWhole (x : Float) : Bool :=
  !(x.isNaN || x.isInf) && (magnitude x).1 % (magnitude x).2 == 0

/-- An argument where an integer is expected. -/
def intArgument (function : PureFunction) (position : Nat) (value : Value) :
    Except Fault Int64 :=
  let mismatch := Fault.argumentType function.name position "int" value.typeName
  match value with
  | .int i => .ok i
  | .bool b => .ok (if b then 1 else 0)
  | .null => .ok 0
  | .float f => if isWhole f then .ok (clampInt (truncateFloat f)) else .error mismatch
  | .string bytes =>
      match wholeNumber? bytes with
      | some (.int i) => .ok i
      | _ => .error mismatch
  | _ => .error mismatch

/-- The longest string that a repetition may have. -/
def repeatLimit : Nat := Nat.pow 2 20

/-- A string a number of times. -/
def repeatBytes (bytes : Bytes) (times : Nat) : Except Fault Bytes :=
  let total := bytes.length * times
  if repeatLimit < total then
    .error (.resultTooLong (min total (Nat.pow 2 64 - 1)) repeatLimit)
  else if bytes = [] then .ok []
  else .ok (List.replicate times bytes).flatten

/-- The strings of values, with a separator between them. -/
def joinValues (separator : Bytes) (values : List Value) : Except Fault Bytes := do
  return List.intercalate separator (← values.mapM Value.toBytes)

/-- The separator and the array of a call of `implode`. -/
def implodeArguments : Value → Option Value → Except Fault (Bytes × KeyedArray Value)
  | .array items, none => .ok ([], items)
  | separator, some (.array items) => do
      return (← implode.stringArgument 1 separator, items)
  | .array _, some _ => .error (.parameterType "implode" 2 "array" "?array" "string")
  | _, none => .error (.parameterType "implode" 1 "array" "array" "string")
  | _, some other => .error (.parameterType "implode" 2 "array" "?array" other.typeName)

mutual

/-- The values of an array and of all arrays inside it, counted from `total` on. -/
def countEntries : List (ArrayKey × Value) → Nat
  | [] => 0
  | (_, value) :: rest => 1 + countNested value + countEntries rest
  termination_by structural entries => entries

def countNested : Value → Nat
  | .array ⟨entries, _⟩ => countEntries entries
  | _ => 0
  termination_by structural value => value

end

def countArray (items : KeyedArray Value) (recursive : Bool) : Nat :=
  if recursive then countEntries items.entries else items.size

def optional {α : Type} (argument : Option Value) (read : Value → Except Fault α)
    (default : α) : Except Fault α :=
  match argument with
  | some value => read value
  | none => .ok default

/-- The result of a function for a first argument and perhaps a second one. -/
def apply (separator : Char) (function : PureFunction) (first : Value)
    (second : Option Value) : Except Fault Value :=
  match function with
  | dirname => do
      let path ← dirname.stringArgument 1 first
      let levels ← optional second (dirname.intArgument 2) 1
      if levels < 1 then throw (.argumentTooSmall "dirname" 2 "levels" 1)
      return .string (ancestorOf separator (min levels.toInt.toNat (path.length + 2)) path)
  | basename => do
      let path ← basename.stringArgument 1 first
      let suffix ← optional second (basename.stringArgument 2) []
      return .string (baseName separator path suffix)
  | strtolower => do
      return .string ((← strtolower.stringArgument 1 first).map lowerByte)
  | strtoupper => do
      return .string ((← strtoupper.stringArgument 1 first).map upperByte)
  | strlen => do
      return .int (Int64.ofNat (← strlen.stringArgument 1 first).length)
  | strRepeat => do
      let bytes ← strRepeat.stringArgument 1 first
      let times ← optional second (strRepeat.intArgument 2) 0
      if times < 0 then throw (.argumentTooSmall "str_repeat" 2 "times" 0)
      return .string (← repeatBytes bytes times.toInt.toNat)
  | implode => do
      let (separator, items) ← implodeArguments first second
      return .string (← joinValues separator items.values)
  | count => do
      let mode ← optional second (count.intArgument 2) 0
      match first with
      | .array items => return .int (Int64.ofNat (countArray items (mode == 1)))
      | other => throw (.parameterType "count" 1 "value" "Countable|array" other.typeName)
  | constant => .error (.undefinedFunction "constant")
where
  /-- ASCII letters in lower case. -/
  lowerByte (byte : UInt8) : UInt8 := if 0x41 ≤ byte ∧ byte ≤ 0x5a then byte + 0x20 else byte
  /-- ASCII letters in upper case. -/
  upperByte (byte : UInt8) : UInt8 := if 0x61 ≤ byte ∧ byte ≤ 0x7a then byte - 0x20 else byte

/-- A call with positional arguments. Their number is checked first. -/
def call (separator : Char) (function : PureFunction) (arguments : List Value) :
    Except Fault Value :=
  let given := arguments.length
  let most := function.parameters.length
  if function = constant then .error (.undefinedFunction "constant")
  else if given < function.leastArguments then
    .error (.tooFewArguments function.name given function.leastArguments)
  else if most < given then .error (.tooManyArguments function.name given most)
  else
    match arguments with
    | [] => .error (.tooFewArguments function.name given function.leastArguments)
    | first :: rest => function.apply separator first rest.head?

/-- A call of the function with a name in lower case. -/
def callNamed (separator : Char) (name : String) (arguments : List Value) :
    Except Fault Value :=
  match ofName? name with
  | some function => function.call separator arguments
  | none => .error (.undefinedFunction name)

end PureFunction

end StaticReflection
