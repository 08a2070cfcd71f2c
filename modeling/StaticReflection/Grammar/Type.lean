import StaticReflection.Grammar.Parse

namespace StaticReflection.Grammar

open Parse

/-! Type declarations: `?T`, `T`, `A|B`, `A&B`, and parenthesized intersections
inside unions. -/

def isTypeName : TokenKind → Bool
  | .identifier | .qualifiedName | .arrayKw | .callableKw | .staticKw => true
  | _ => false

def startsType (kind : TokenKind) : Bool :=
  isTypeName kind || kind == .question || kind == .openParen

def namedType : Parse NodeId := do
  let pos ← position
  if isTypeName (← kind) then
    let name ← value
    advance
    addNode (.namedType name) pos
  else
    reportExpected "Expected type"
    missingNode

/-- An ampersand goes on with an intersection unless it marks a parameter passed by
reference. -/
def continuesIntersection (cursor : Cursor) : Bool :=
  cursor.kind == .ampersand && cursor.peek != .variableName && cursor.peek != .dotDotDot

/-- A named type or an intersection. -/
def intersectionType : Parse NodeId := do
  let pos ← position
  let first ← namedType
  if !(← ahead? continuesIntersection) then return first
  let types ← untilDone [first] fun types => do
    if ← ahead? continuesIntersection then
      advance
      return (types ++ [← namedType], true)
    else
      return (types, false)
  addNode (.intersectionType types) pos

/-- Expects a number of closing parentheses. -/
def closeParens : Nat → Parse Unit
  | 0 => return ()
  | count + 1 => do
      let _ ← expect .closeParen
      closeParens count

/-- A named type, an intersection, or either of them in parentheses. -/
def unionMember : Parse NodeId := do
  let parens ← acceptAll .openParen
  let type ← intersectionType
  closeParens parens
  return type

def type : Parse NodeId := do
  let pos ← position
  if ← accept .question then
    let inner ← namedType
    addNode (.nullableType inner) pos
  else
    let first ← unionMember
    if !(← at? .bar) then return first
    let types ← untilDone [first] fun types => do
      if ← accept .bar then return (types ++ [← unionMember], true)
      else return (types, false)
    addNode (.unionType types) pos

def typeAfter (mark : TokenKind) : Parse (Option NodeId) := do
  if ← accept mark then return some (← type) else return none

end StaticReflection.Grammar
