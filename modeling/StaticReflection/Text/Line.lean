import StaticReflection.Text.Basic

namespace StaticReflection

/-! Lines of a text. A line ends after a line feed, or after a carriage return
that no line feed follows. Lines are numbered from one. -/

/-- Offsets at which the lines after the first one start. -/
def lineStartsAfter : Nat → Text → List Nat
  | _, [] => []
  | offset, c :: text =>
      let next := offset + c.utf8Size
      if c == '\n' || (c == '\r' && text.head? != some '\n') then
        next :: lineStartsAfter next text
      else
        lineStartsAfter next text

/-- Starting offsets of all lines, in order. -/
structure LineMap where
  starts : List Nat
  deriving DecidableEq, Repr

def LineMap.ofText (text : Text) : LineMap :=
  ⟨0 :: lineStartsAfter 0 text⟩

def LineMap.count (lines : LineMap) : Nat :=
  lines.starts.length

/-- The number of the line that holds an offset: as many lines start at or
before it. -/
def LineMap.lineOf (lines : LineMap) (offset : Nat) : Nat :=
  lines.starts.countP (· ≤ offset)

def LineMap.start? (lines : LineMap) (line : Nat) : Option Nat :=
  if line = 0 then none else lines.starts[line - 1]?

end StaticReflection
