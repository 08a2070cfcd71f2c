import StaticReflection.Value.Fault

namespace StaticReflection

/-! Values of constant expressions. -/

inductive Value where
  | null
  | bool (value : Bool)
  | int (value : Int64)
  | float (value : Float)
  | string (bytes : Bytes)
  | array (items : KeyedArray Value)
  | enumCase (owner case : String)

instance : Inhabited Value := ⟨.null⟩

def Number.toValue : Number → Value
  | .int i => .int i
  | .float f => .float f

namespace Value

def text (value : String) : Value :=
  .string (Utf8.ofString value)

def typeName : Value → String
  | .null => "null"
  | .bool _ => "bool"
  | .int _ => "int"
  | .float _ => "float"
  | .string _ => "string"
  | .array _ => "array"
  | .enumCase owner _ => owner

def isNull : Value → Bool
  | .null => true
  | _ => false

/-- Whether the value counts as true. -/
def toBool : Value → Bool
  | .null => false
  | .bool b => b
  | .int i => i != 0
  | .float f => f != 0.0
  | .string bytes => !(bytes == [] || bytes == [0x30])
  | .array items => !items.isEmpty
  | .enumCase .. => true

/-- The value as a string. Arrays and enumeration cases have none. -/
def toBytes : Value → Except Fault Bytes
  | .null => .ok []
  | .bool b => .ok (if b then [0x31] else [])
  | .int i => .ok (Utf8.ofString (intText i.toInt))
  | .float f => .ok (Utf8.ofString (floatText f))
  | .string bytes => .ok bytes
  | .array _ => .error .arrayToString
  | .enumCase owner _ => .error (.objectToString owner)

/-- The key that the value stands for; arrays and enumeration cases stand for none. -/
def toKey? : Value → Option ArrayKey
  | .null => some (.string [])
  | .bool b => some (.int (if b then 1 else 0))
  | .int i => some (.int i)
  | .float f => some (.int (floatToInt f))
  | .string bytes => some (.ofBytes bytes)
  | .array _ | .enumCase .. => none

/-- The value as a number. A string counts by the number it starts with. -/
def toNumber? : Value → Option Number
  | .null => some (.int 0)
  | .bool b => some (.int (if b then 1 else 0))
  | .int i => some (.int i)
  | .float f => some (.float f)
  | .string bytes => leadingNumber? bytes
  | .array _ | .enumCase .. => none

end Value

def ArrayKey.toValue : ArrayKey → Value
  | .int i => .int i
  | .string bytes => .string bytes

/-! Values as JSON. -/

inductive JsonValue where
  | null
  | bool (value : Bool)
  | int (value : Int64)
  | float (value : Float)
  | string (value : String)
  | list (items : List JsonValue)
  | object (fields : List (String × JsonValue))

/-- Sets a field; one that is there keeps its place. -/
def JsonValue.setField (fields : List (String × JsonValue)) (name : String) (value : JsonValue) :
    List (String × JsonValue) :=
  if fields.any (·.1 == name) then
    fields.map fun field => if field.1 == name then (name, value) else field
  else
    fields ++ [(name, value)]

def ArrayKey.fieldName : ArrayKey → String
  | .int i => intText i.toInt
  | .string bytes => Utf8.decodeString bytes

mutual

/-- Lists become lists and other arrays objects; a double that is not finite has no
JSON form, and a case is named with its enumeration. -/
def Value.toJson : Value → JsonValue
  | .null => .null
  | .bool b => .bool b
  | .int i => .int i
  | .float f => if f.isNaN || f.isInf then .null else .float f
  | .string bytes => .string (Utf8.decodeString bytes)
  | .array ⟨entries, _⟩ =>
      let fields := entriesToJson entries
      if KeyedArray.isListFrom 0 entries then .list (fields.map (·.2))
      else .object (fields.foldl (fun object field => JsonValue.setField object field.1 field.2) [])
  | .enumCase owner case => .string (owner ++ "::" ++ case)
  termination_by structural value => value

def entriesToJson : List (ArrayKey × Value) → List (String × JsonValue)
  | [] => []
  | (key, value) :: rest => (key.fieldName, value.toJson) :: entriesToJson rest
  termination_by structural entries => entries

end

end StaticReflection
