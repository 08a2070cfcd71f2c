import StaticReflection.Value.Basic

namespace StaticReflection

/-! Offsets of arrays and strings. -/

/-- The position in a string that a value stands for. -/
def Value.stringOffset? : Value → Option Int
  | .int i => some i.toInt
  | .bool b => some b.toNat
  | .string bytes =>
      match wholeNumber? bytes with
      | some (.int i) => some i.toInt
      | _ => none
  | _ => none

/-- The byte at a position of a string; negative positions count from its end. -/
def byteAt? (bytes : Bytes) (offset : Int) : Option UInt8 :=
  let position := if offset < 0 then offset + bytes.length else offset
  if position < 0 then none else bytes[position.toNat]?

/-- The value at an offset. When quiet, what is missing is null. -/
def Value.offset (quiet : Bool) (container dim : Value) : Except Fault Value :=
  match container with
  | .array items =>
      match dim.toKey? with
      | none => .error (.illegalOffset dim.typeName .array)
      | some key =>
          match items.get? key with
          | some value => .ok value
          | none => if quiet then .ok .null else .error (.undefinedKey key)
  | .string bytes =>
      match dim.stringOffset?, dim with
      | some offset, _ =>
          match byteAt? bytes offset with
          | some byte => .ok (.string [byte])
          | none => if quiet then .ok .null else .error (.stringOffset offset)
      | none, .string _ =>
          if quiet then .ok .null else .error (.illegalOffset dim.typeName .string)
      | none, _ => .error (.illegalOffset dim.typeName .string)
  | .enumCase owner _ => .error (.objectAsArray owner)
  | _ => .ok .null

end StaticReflection
