import StaticReflection.Grammar.Expression

namespace StaticReflection.Grammar

open Parse

/-! Files, namespaces and statements. Only declarations are parsed; any other
statement is skipped. -/

/-- Skips a statement: through a semicolon outside brackets, or through a block in
braces at statement level. A brace that closes an enclosing block is left. -/
def skippedStatement (pos : Nat) : Parse NodeId := do
  let firstToken ← kind
  let _ ← untilDone 0 fun depth => do
    match ← kind with
    | .endOfFile => return (depth, false)
    | .semicolon =>
        advance
        return (depth, depth != 0)
    | .openParen | .openBracket | .attributeStart | .openBrace =>
        advance
        return (depth + 1, true)
    | .closeParen | .closeBracket =>
        advance
        return (depth - 1, true)
    | .closeBrace =>
        if depth = 0 then return (depth, false)
        advance
        return (depth - 1, depth != 1)
    | _ =>
        advance
        return (depth, true)
  addNode (.skipped firstToken) pos

/-! Imports. -/

def importKind? : Parse (Option ImportKind) := do
  match ← kind with
  | .functionKw =>
      advance
      return some .function
  | .constKw =>
      advance
      return some .constant
  | _ => return none

/-- The new name of an import, if one is given. -/
def renamed? : Parse (Option String) := do
  if ← accept .asKw then word? else return none

/-- The imports of a group, after its opening brace. -/
def importGroup (kind : ImportKind) (space : String) (known : List ImportItem) :
    Parse (List ImportItem) := do
  let items ← untilDone known fun items => do
    match ← Parse.kind with
    | .closeBrace | .endOfFile => return (items, false)
    | _ =>
        let kind := (← importKind?).getD kind
        if ← ahead? Cursor.isName then
          let suffix ← value
          advance
          let renamed ← renamed?
          let items := items ++ [⟨kind, space ++ "\\" ++ suffix, renamed⟩]
          return (items, ← accept .comma)
        else
          report "Expected name in group use"
          return (items, false)
  let _ ← expect .closeBrace
  return items

/-- A name without the separators at its end. -/
def dropFinalSeparators (name : String) : String :=
  String.ofList (name.toList.reverse.dropWhile (· == '\\')).reverse

def importStatement : Parse NodeId := do
  let pos ← position
  advance
  let kind := (← importKind?).getD .classLike
  let items ← untilDone [] fun items => do
    if ← ahead? Cursor.isName then
      let name := stripSeparator (← value)
      advance
      let items ← if ← acceptIf (name.toList.getLast? == some '\\') .openBrace then
          importGroup kind (dropFinalSeparators name) items
        else
          pure (items ++ [⟨kind, name, ← renamed?⟩])
      return (items, ← accept .comma)
    else
      reportExpected "Expected name"
      return (items, false)
  let _ ← expect .semicolon
  addNode (.imports items) pos

/-! Declarations. -/

def constStatement (doc : Option String) : Parse NodeId := do
  let pos ← position
  advance
  let declarators ← constDeclarators expression
  let _ ← expect .semicolon
  addNode (.constStatement declarators doc) pos

def functionStatement (doc : Option String) : Parse NodeId := do
  let pos ← position
  let decl ← functionDecl expression WrittenModifiers.none doc
  addNode (.function decl) pos

/-- The modifier of a class that a word stands for. -/
def classModifier? : TokenKind → Option WrittenModifiers
  | .abstractKw => some { isAbstract := true }
  | .finalKw => some { isFinal := true }
  | .readonlyKw => some { isReadonly := true }
  | _ => none

def classKind? : TokenKind → Option ClassKind
  | .classKw => some .plain
  | .interfaceKw => some .interface
  | .traitKw => some .trait
  | .enumKw => some .enumeration
  | _ => none

def classModifiers : Parse WrittenModifiers :=
  untilDone WrittenModifiers.none fun modifiers => do
    match classModifier? (← kind) with
    | some modifier =>
        advance
        return (modifiers.union modifier, true)
    | none => return (modifiers, false)

def classStatement (doc : Option String) : Parse NodeId := do
  let modifiers ← classModifiers
  let pos ← position
  let doc := doc <|> (← Parse.doc)
  let classKind := (classKind? (← kind)).getD .plain
  advance
  let name := (← word?).getD ""
  let decl ← classTail expression classKind name modifiers doc
  addNode (.classLike decl) pos

def expressionStatement : Parse NodeId := do
  let pos ← position
  let inner ← expression
  if !(← at? .endOfFile) then
    let _ ← expect .semicolon
  addNode (.expressionStatement inner) pos

/-! Look-ahead. -/

/-- Whether a function is declared here: a name follows the keyword. -/
def isFunctionStatement (cursor : Cursor) : Bool :=
  let next := cursor.advance
  cursor.kind == .functionKw
    && (if next.kind == .ampersand then next.advance else next).isWord

/-- Whether a class is declared at the front of some tokens: modifiers, a keyword, and a
name. -/
def startsClass : List Token → Bool
  | keyword :: name :: rest =>
      if (classModifier? keyword.kind).isSome then startsClass (name :: rest)
      else (classKind? keyword.kind).isSome && name.kind.isWord
  | _ => false

def isClassStatement (cursor : Cursor) : Bool :=
  startsClass (cursor.current :: cursor.ahead)

/-- Whether a constant is defined by a call here. -/
def isDefineCall (cursor : Cursor) : Bool :=
  cursor.isName && sameFolded (stripSeparator cursor.current.value) "define"
    && cursor.peek == .openParen

def isHalt (cursor : Cursor) : Bool :=
  cursor.kind == .identifier && sameFolded cursor.current.value "__halt_compiler"

/-- One statement; nothing for an empty one and for the end of the code. -/
def statement : Parse (Option NodeId) := do
  let pos ← position
  let doc ← docAcrossAttributes
  match ← kind with
  | .semicolon =>
      advance
      return none
  | .endOfFile | .closeBrace => return none
  | .useKw => return some (← importStatement)
  | .constKw => return some (← constStatement doc)
  | .namespaceKw =>
      report "Namespace declarations cannot be nested"
      return some (← skippedStatement pos)
  | _ =>
      if ← ahead? isFunctionStatement then return some (← functionStatement doc)
      else if ← ahead? isClassStatement then return some (← classStatement doc)
      else if ← ahead? isHalt then
        modify fun state => { state with halted := true }
        return none
      else if ← ahead? isDefineCall then return some (← expressionStatement)
      else return some (← skippedStatement pos)

/-- One of the statements after `list`. Where braces do not delimit them, closing ones
are reported and skipped. -/
def nextStatement (stops : TokenKind → Bool) (braced : Bool) (one : Parse (Option NodeId))
    (list : List NodeId) : Parse (List NodeId × Bool) := do
  let current ← kind
  if current == .endOfFile || stops current || (← get).halted then return (list, false)
  if current == .closeBrace && !braced then
    report "Unexpected '\x7d'"
    advance
    return (list, true)
  let list := list ++ (← one).toList
  return (list, !(← get).halted)

/-- Statements until the end of the file, the end of the code, or a token that
`stops`. -/
def statements (stops : TokenKind → Bool) (braced : Bool)
    (one : Parse (Option NodeId)) : Parse (List NodeId) :=
  untilDone [] (nextStatement stops braced one)

/-- The name of a namespace; the global one has none. -/
def namespaceName : Parse String := do
  if ← ahead? Cursor.isName then
    let name := stripSeparator (← value)
    advance
    return name
  else
    return ""

/-- A namespace: with its statements in braces, or up to the next namespace. -/
def namespaceStatement : Parse NodeId := do
  let pos ← position
  let doc ← Parse.doc
  advance
  let name ← namespaceName
  if ← accept .openBrace then
    let list ← statements (· == .closeBrace) true statement
    let _ ← expect .closeBrace
    addNode (.namespaceDecl { name, braced := true, statements := list, doc }) pos
  else
    if name = "" then report "Expected namespace name"
    let _ ← expect .semicolon
    let list ← statements (· == .namespaceKw) false statement
    addNode (.namespaceDecl { name, braced := false, statements := list, doc }) pos

def topStatement : Parse (Option NodeId) := do
  if ← at? .namespaceKw then return some (← namespaceStatement) else statement

def fileStatements : Parse (List NodeId) :=
  statements (fun _ => false) false topStatement

end StaticReflection.Grammar

namespace StaticReflection

structure ParsedFile where
  arena : Arena
  root : NodeId
  diagnostics : List Diagnostic

/-- Leaves one entry at each offset of a sorted list: the first one. `last` is the
offset of the entry before. -/
def dedupByStart (last : Option Nat) : List (String × Nat) → List (String × Nat)
  | [] => []
  | entry :: rest =>
      if last = some entry.2 then dedupByStart last rest
      else entry :: dedupByStart (some entry.2) rest

/-- The diagnostics of a file in text order, those of the parser before those of
its tokens. -/
def ParseState.diagnostics (state : ParseState) (text : Text) : List Diagnostic :=
  let scanned := state.scanned.reverse.map fun problem => (problem.message, problem.pos)
  let sorted := (state.reported.reverse ++ scanned).mergeSort fun a b => a.2 ≤ b.2
  let lines := LineMap.ofText text
  (dedupByStart none sorted).map fun (message, start) => ⟨message, start, lines.lineOf start⟩

/-- Where the parser of a text starts. -/
def ParseState.ofText (text : Text) : ParseState :=
  let cursor := Cursor.ofTokens (tokenize text)
  { cursor, scanned := cursor.current.problems.reverse }

def parseFile (path : String) (text : Text) : ParsedFile :=
  let (list, state) := Grammar.fileStatements.run (.ofText text)
  { arena := state.arena.add (.sourceFile path list) ⟨0, text.byteSize⟩
    root := state.arena.size
    diagnostics := state.diagnostics text }

end StaticReflection
