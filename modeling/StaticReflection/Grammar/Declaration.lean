import StaticReflection.Grammar.Type

namespace StaticReflection.Grammar

open Parse

/-! Declarations that hold expressions: parameters, functions, classes and their
members. The parser of expressions is a parameter, because closures and anonymous
classes bring declarations back into expressions. -/

/-- An expression after an equals sign, if there is one. -/
def initializer (expr : Parse NodeId) : Parse (Option NodeId) := do
  if ← accept .equals then return some (← expr) else return none

/-- `(set)` after a visibility. -/
def isSetVisibility (cursor : Cursor) : Bool :=
  let inner := cursor.advance
  inner.kind == .identifier && sameFolded inner.current.value "set" && inner.peek == .closeParen

/-- The modifiers of a member. A visibility for writing is passed over. -/
def memberModifiers : Parse WrittenModifiers :=
  untilDone WrittenModifiers.none fun modifiers => do
    match WrittenModifiers.ofToken? (← kind) with
    | none => return (modifiers, false)
    | some modifier =>
        if modifiers.union modifier == modifiers then report "Duplicate modifier"
        advance
        if modifier.hasVisibility && (← at? .openParen) && (← ahead? isSetVisibility) then
          advance
          advance
          advance
        return (modifiers.union modifier, true)

def parameterType : Parse (Option NodeId) := do
  match ← kind with
  | .variableName | .ampersand | .dotDotDot => return none
  | _ => return some (← type)

def parameter (expr : Parse NodeId) : Parse NodeId := do
  let doc ← docAcrossAttributes
  let pos ← position
  let modifiers ← memberModifiers
  let type ← parameterType
  let byRef ← accept .ampersand
  let variadic ← accept .dotDotDot
  let name ← value
  let name := if ← expect .variableName then name else ""
  let default ← initializer expr
  if ← at? .openBrace then skipBlock
  addNode (.parameter { name, modifiers, type, default, byRef, variadic, doc }) pos

def parameterList (expr : Parse NodeId) : Parse (List NodeId) := do
  if !(← expect .openParen) then return []
  let parameters ← untilDone [] fun parameters => do
    match ← kind with
    | .closeParen | .endOfFile => return (parameters, false)
    | _ =>
        let parameters := parameters ++ [← parameter expr]
        return (parameters, ← accept .comma)
  let _ ← expect .closeParen
  return parameters

def staticVariables (expr : Parse NodeId) (known : List StaticVariable) :
    Parse (List StaticVariable) := do
  let statics ← untilDone known fun statics => do
    if ← at? .variableName then
      let name ← value
      advance
      let initializer ← Grammar.initializer expr
      return (statics ++ [⟨name, initializer⟩], ← accept .comma)
    else
      return (statics, false)
  let _ ← accept .semicolon
  return statics

/-- What has been seen of a function body. -/
structure BodyScan where
  statics : List StaticVariable := []
  isGenerator : Bool := false
  depth : Nat := 0
  /-- Depths at which the bodies of nested functions and classes start, the
  innermost first. -/
  nested : List Nat := []
  /-- A nested function or class whose body has not begun. -/
  pending : Bool := false
  previous : TokenKind := .unknown

/-- A word after these names a member and declares nothing. -/
def selectsMember : TokenKind → Bool
  | .colonColon | .arrow | .questionArrow => true
  | _ => false

/-- Passes one token of a function body, or one declaration of static variables. -/
def bodyStep (expr : Parse NodeId) (scan : BodyScan) : Parse (BodyScan × Bool) := do
  let current ← kind
  let passed := { scan with previous := current }
  match current with
  | .endOfFile =>
      report "Unexpected end of file, expected '\x7d'"
      return (scan, false)
  | .openBrace =>
      advance
      let depth := scan.depth + 1
      let nested := if scan.pending then depth :: scan.nested else scan.nested
      return ({ passed with depth, nested, pending := false }, true)
  | .closeBrace =>
      advance
      let nested := if scan.nested.head? == some scan.depth then scan.nested.tail else scan.nested
      return ({ passed with depth := scan.depth - 1, nested }, 1 < scan.depth)
  | .functionKw | .classKw =>
      advance
      return ({ passed with pending := scan.pending || !selectsMember scan.previous }, true)
  | .staticKw =>
      let declares := scan.nested.isEmpty && 0 < scan.depth
        && (← ahead? fun cursor => cursor.peek == .variableName)
      advance
      if declares then
        let statics ← staticVariables expr scan.statics
        return ({ scan with statics, previous := .semicolon }, true)
      else
        return (passed, true)
  | .yieldKw =>
      advance
      let own := scan.nested.isEmpty && !scan.pending
      return ({ passed with isGenerator := scan.isGenerator || own }, true)
  | _ =>
      advance
      return (passed, true)

/-- Skips a function body and notes its static variables and whether it yields;
nested functions and classes do not count. -/
def functionBody (expr : Parse NodeId) : Parse BodyScan :=
  untilDone {} (bodyStep expr)

/-- A function from its keyword through its body, or through a semicolon in place
of the body. -/
def functionDecl (expr : Parse NodeId) (modifiers : WrittenModifiers)
    (doc : Option String) : Parse FunctionDecl := do
  let _ ← expect .functionKw
  let byRef ← accept .ampersand
  let name := (← word?).getD ""
  let parameters ← parameterList expr
  let returnType ← typeAfter .colon
  if ← at? .openBrace then
    let body ← functionBody expr
    return { name, modifiers, parameters, returnType, byRef, doc
             hasBody := true, statics := body.statics, isGenerator := body.isGenerator }
  else
    let _ ← expect .semicolon
    return { name, modifiers, parameters, returnType, byRef, doc
             hasBody := false, statics := [], isGenerator := false }

/-- Declarators `NAME = expression`. -/
def constDeclarators (expr : Parse NodeId) : Parse (List NodeId) :=
  untilDone [] fun declarators => do
    let pos ← position
    match ← word? with
    | none => return (declarators, false)
    | some name =>
        let value ← if ← expect .equals then expr else missingNode
        let declarator ← addNode (.constDeclarator name value) pos
        return (declarators ++ [declarator], ← accept .comma)

/-- Whether constants without a type follow. -/
def isUntypedConst (cursor : Cursor) : Bool :=
  cursor.isWord && cursor.peek == .equals

def classConst (expr : Parse NodeId) (pos : Nat) (modifiers : WrittenModifiers)
    (doc : Option String) : Parse NodeId := do
  advance
  let type ← if ← ahead? isUntypedConst then pure none else some <$> Grammar.type
  let declarators ← constDeclarators expr
  let _ ← expect .semicolon
  addNode (.classConst { modifiers, type, declarators, doc }) pos

/-- A semicolon, or a block in braces in its place. -/
def blockOrSemicolon : Parse Unit := do
  if ← at? .openBrace then skipBlock
  else
    let _ ← expect .semicolon

/-- Declarators `$name` or `$name = expression`. -/
def propertyDeclarators (expr : Parse NodeId) : Parse (List NodeId) :=
  untilDone [] fun declarators => do
    let pos ← position
    let name ← value
    if ← expect .variableName then
      let default ← initializer expr
      let declarator ← addNode (.propertyDeclarator name default) pos
      return (declarators ++ [declarator], ← accept .comma)
    else
      return (declarators, false)

def property (expr : Parse NodeId) (pos : Nat) (modifiers : WrittenModifiers)
    (doc : Option String) : Parse NodeId := do
  let type ← if ← at? .variableName then pure none else some <$> Grammar.type
  let declarators ← propertyDeclarators expr
  blockOrSemicolon
  addNode (.property { modifiers, type, declarators, doc }) pos

/-- Class names between commas, as written. -/
def nameList : Parse (List String) :=
  untilDone [] fun names => do
    if ← ahead? fun cursor => cursor.isName || cursor.kind == .enumKw then
      let names := names ++ [← value]
      advance
      return (names, ← accept .comma)
    else
      reportExpected "Expected class name"
      return (names, false)

def traitUse : Parse NodeId := do
  let pos ← position
  advance
  let traits ← nameList
  blockOrSemicolon
  addNode (.traitUse traits) pos

def enumCase (expr : Parse NodeId) (doc : Option String) : Parse (Option NodeId) := do
  let pos ← position
  advance
  match ← word? with
  | none => return none
  | some name =>
      let value ← initializer expr
      let _ ← expect .semicolon
      return some (← addNode (.enumCase name value doc) pos)

/-- A constant, a method or a property, with its modifiers. -/
def modifiedMember (expr : Parse NodeId) (doc : Option String) : Parse (Option NodeId) := do
  let pos ← position
  let modifiers ← memberModifiers
  match ← kind with
  | .constKw => return some (← classConst expr pos modifiers doc)
  | .functionKw =>
      let functionPos ← position
      let doc := doc <|> (← Parse.doc)
      let decl ← functionDecl expr modifiers doc
      return some (← addNode (.method decl) functionPos)
  | current =>
      if modifiers != WrittenModifiers.none || current == .variableName || startsType current then
        return some (← property expr pos modifiers doc)
      else
        report ("Unexpected " ++ (← found) ++ " in class body")
        advance
        return none

/-- Members up to the closing brace. -/
def classMembers (expr : Parse NodeId) : Parse (List NodeId) :=
  untilDone [] fun members => do
    match ← kind with
    | .closeBrace | .endOfFile => return (members, false)
    | .semicolon =>
        advance
        return (members, true)
    | _ =>
        let doc ← docAcrossAttributes
        let member ← match ← kind with
          | .useKw => some <$> traitUse
          | .caseKw => enumCase expr doc
          | _ => modifiedMember expr doc
        return (members ++ member.toList, true)

def namesAfter (keyword : TokenKind) : Parse (List String) := do
  if ← accept keyword then nameList else return []

def classTail (expr : Parse NodeId) (kind : ClassKind) (name : String)
    (modifiers : WrittenModifiers) (doc : Option String) : Parse ClassDecl := do
  let backingType ← if kind = .enumeration then typeAfter .colon else pure none
  let parents ← namesAfter .extendsKw
  if kind = .plain ∧ 1 < parents.length then report "A class can only extend one class"
  let interfaces ← namesAfter .implementsKw
  let _ ← expect .openBrace
  let members ← classMembers expr
  let _ ← expect .closeBrace
  return { kind, name, modifiers, parents, interfaces, backingType, members, doc }

end StaticReflection.Grammar
