import StaticReflection.Text.Line
import StaticReflection.Token.Basic
import StaticReflection.Tree.Node

namespace StaticReflection

/-! Parsing as a state transition over the tokens of a file. -/

/-- The token under consideration, those after it, and the end of the one
consumed last. -/
structure Cursor where
  current : Token
  ahead : List Token
  lastEnd : Nat
  /-- The number of the tokens ahead. -/
  left : Nat
  counted : left = ahead.length

def Cursor.of (current : Token) (ahead : List Token) (lastEnd : Nat) : Cursor :=
  ⟨current, ahead, lastEnd, ahead.length, rfl⟩

/-- Consumes the current token. The end of the file is never consumed. -/
def Cursor.advance (cursor : Cursor) : Cursor :=
  match cursor with
  | ⟨current, [], _, left, counted⟩ => ⟨current, [], current.span.stop, left, counted⟩
  | ⟨current, token :: ahead, _, left, counted⟩ =>
      ⟨token, ahead, current.span.stop, left - 1, by rw [counted]; rfl⟩

def Cursor.kind (cursor : Cursor) : TokenKind :=
  cursor.current.kind

/-- Whether a token of the kind may name a member: an identifier or any reserved word. -/
def TokenKind.isWord (kind : TokenKind) : Bool :=
  kind == .identifier || kind.isKeyword

def Cursor.isWord (cursor : Cursor) : Bool :=
  cursor.kind.isWord

/-- Whether the current token is a class or function name as written. -/
def Cursor.isName (cursor : Cursor) : Bool :=
  cursor.kind == .identifier || cursor.kind == .qualifiedName

/-- The kind of the token after the current one. -/
def Cursor.peek (cursor : Cursor) : TokenKind :=
  cursor.advance.kind

/-- The cursor at the first token of a text. -/
def Cursor.ofTokens (tokens : List Token) : Cursor :=
  match tokens with
  | [] => .of Token.initial [] 0
  | token :: ahead => .of token ahead 0

/-- A problem of a file, at a byte offset and a line. -/
structure Diagnostic where
  message : String
  start : Nat
  line : Nat
  deriving DecidableEq, Repr

structure ParseState where
  cursor : Cursor
  arena : Arena := {}
  /-- What the parser reported, the newest first. -/
  reported : List (String × Nat) := []
  /-- What was wrong with the tokens up to the current one, the newest first. -/
  scanned : List ScanProblem := []
  /-- The rest of the file is data. -/
  halted : Bool := false
  /-- How many expressions are open. -/
  depth : Nat := 0
  /-- A loop went on without consuming a token. -/
  stalled : Bool := false

abbrev Parse := StateM ParseState

namespace Parse

def kind : Parse TokenKind := do
  return (← get).cursor.kind

def current : Parse Token := do
  return (← get).cursor.current

def position : Parse Nat := do
  return (← current).span.start

def value : Parse String := do
  return (← current).value

/-- The documentation comment of the current token. -/
def doc : Parse (Option String) := do
  return (← current).doc.map (·.text)

def advance : Parse Unit :=
  modify fun state =>
    let cursor := state.cursor.advance
    let found := if state.cursor.ahead.isEmpty then [] else cursor.current.problems
    { state with cursor, scanned := found.reverse ++ state.scanned }

def at? (kind : TokenKind) : Parse Bool := do
  return (← Parse.kind) == kind

/-- Whether a property of the cursor holds. -/
def ahead? (test : Cursor → Bool) : Parse Bool := do
  return test (← get).cursor

/-- Reports a problem at the current token, unless the last one is there too. -/
def report (message : String) : Parse Unit :=
  modify fun state =>
    let start := state.cursor.current.span.start
    if (state.reported.head?.map (·.2)) == some start then state
    else { state with reported := (message, start) :: state.reported }

/-- The current token in messages. -/
def found : Parse String := do
  let token ← current
  if token.kind == .endOfFile then return "end of file"
  else return "'" ++ String.ofList token.lexeme ++ "'"

/-- Reports that something else was expected here. -/
def reportExpected (what : String) : Parse Unit := do
  report (what ++ ", found " ++ (← found))

/-- Consumes a token of the given kind if it is the current one. -/
def accept (kind : TokenKind) : Parse Bool := do
  if ← at? kind then
    advance
    return true
  else
    return false

/-- Consumes a token of the given kind if it is the current one and a condition
holds. -/
def acceptIf (condition : Bool) (kind : TokenKind) : Parse Bool :=
  if condition then accept kind else return false

/-- What is expected, in messages. -/
def expectedName : TokenKind → String
  | .openBrace => "'\x7b'"
  | .closeBrace => "'\x7d'"
  | .openParen => "'('"
  | .closeParen => "')'"
  | .openBracket => "'['"
  | .closeBracket => "']'"
  | .semicolon => "';'"
  | .comma => "','"
  | .colon => "':'"
  | .equals => "'='"
  | .fatArrow => "'=>'"
  | .variableName => "variable"
  | .identifier => "identifier"
  | _ => "token"

/-- Consumes a token of the given kind, or reports that it is missing. -/
def expect (kind : TokenKind) : Parse Bool := do
  if ← accept kind then return true
  reportExpected ("Expected " ++ expectedName kind)
  return false

/-- Adds a node that starts at `pos` and ends with the token consumed last. -/
def addNode (node : Node) (pos : Nat) : Parse NodeId :=
  modifyGet fun state =>
    (state.arena.size,
      { state with arena := state.arena.add node ⟨pos, max state.cursor.lastEnd pos⟩ })

/-- A node for what is missing at the current token. -/
def missingNode : Parse NodeId :=
  modifyGet fun state =>
    let pos := state.cursor.current.span.start
    (state.arena.size, { state with arena := state.arena.add .missing ⟨pos, pos⟩ })

/-- The number of the tokens ahead. -/
def left : Parse Nat := do
  return (← get).cursor.left

/-- Notes that a loop makes no headway. -/
def stall : Parse Unit :=
  modify fun state => { state with stalled := true }

def repeatUpTo (step : σ → Parse (σ × Bool)) : Nat → σ → Parse σ
  | 0, state => do
      stall
      return state
  | bound + 1, state => do
      let before ← left
      let (next, more) ← step state
      if !more then return next
      else if (← left) < before then repeatUpTo step bound next
      else
        stall
        return next

/-- Repeats a step for as long as it asks for more. A step that asks for more has to
consume a token, so no more steps are taken than there are tokens. -/
def untilDone (start : σ) (step : σ → Parse (σ × Bool)) : Parse σ := do
  repeatUpTo step ((← left) + 1) start

/-- Consumes tokens of the given kind, and counts them. -/
def acceptAll (kind : TokenKind) : Parse Nat :=
  untilDone 0 fun count => do
    if ← accept kind then return (count + 1, true) else return (count, false)

/-- A name of an entity that reserved words may name too. -/
def word? : Parse (Option String) := do
  if ← ahead? Cursor.isWord then
    let token ← current
    advance
    return some
      (if token.kind == .identifier then token.value else String.ofList token.lexeme)
  else
    reportExpected "Expected identifier"
    return none

/-- Skips attribute groups. Brackets and attributes nest. -/
def skipAttributes : Parse Unit := do
  let _ ← untilDone 0 fun depth => do
    match ← kind with
    | .endOfFile => return (depth, false)
    | .attributeStart =>
        advance
        return (depth + 1, true)
    | .openBracket =>
        if depth = 0 then return (depth, false)
        advance
        return (depth + 1, true)
    | .closeBracket =>
        if depth = 0 then return (depth, false)
        advance
        return (depth - 1, true)
    | _ =>
        if depth = 0 then return (depth, false)
        advance
        return (depth, true)

/-- Skips attribute groups, and gives the documentation comment before them or,
failing that, after them. -/
def docAcrossAttributes : Parse (Option String) := do
  let before ← doc
  if ← at? .attributeStart then
    skipAttributes
    return before <|> (← doc)
  else
    return before

/-- Skips a balanced block in braces. -/
def skipBlock : Parse Unit := do
  let _ ← untilDone 0 fun depth => do
    match ← kind with
    | .endOfFile =>
        report "Unexpected end of file, expected '\x7d'"
        return (depth, false)
    | .openBrace =>
        advance
        return (depth + 1, true)
    | .closeBrace =>
        advance
        return (depth - 1, 1 < depth)
    | _ =>
        advance
        return (depth, true)

end Parse

end StaticReflection
