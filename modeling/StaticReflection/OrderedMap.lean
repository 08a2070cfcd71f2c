namespace StaticReflection

/-! Maps that keep the order in which their keys were added. -/

structure OrderedMap (κ : Type) (α : Type) where
  entries : List (κ × α) := []

namespace OrderedMap

variable {κ α : Type} [DecidableEq κ]

def find? (map : OrderedMap κ α) (key : κ) : Option α :=
  map.entries.lookup key

def contains (map : OrderedMap κ α) (key : κ) : Bool :=
  (map.find? key).isSome

def size (map : OrderedMap κ α) : Nat :=
  map.entries.length

def isEmpty (map : OrderedMap κ α) : Bool :=
  map.entries.isEmpty

def keys (map : OrderedMap κ α) : List κ :=
  map.entries.map (·.1)

def values (map : OrderedMap κ α) : List α :=
  map.entries.map (·.2)

/-- Replaces the value of a key that is there, in its place. -/
def replace (key : κ) (value : α) (entries : List (κ × α)) : List (κ × α) :=
  entries.map fun entry => if entry.1 = key then (key, value) else entry

/-- Gives a key a value. A new key comes last; a key that is there keeps its place. -/
def insert (map : OrderedMap κ α) (key : κ) (value : α) : OrderedMap κ α :=
  if map.contains key then ⟨replace key value map.entries⟩
  else ⟨map.entries ++ [(key, value)]⟩

/-- Adds a key that is not there; a key that is there keeps its value. -/
def insertNew (map : OrderedMap κ α) (key : κ) (value : α) : OrderedMap κ α :=
  if map.contains key then map else ⟨map.entries ++ [(key, value)]⟩

def erase (map : OrderedMap κ α) (key : κ) : OrderedMap κ α :=
  ⟨map.entries.filter fun entry => entry.1 ≠ key⟩

end OrderedMap

end StaticReflection
