import StaticReflection.Grammar.Declaration

namespace StaticReflection.Grammar

open Parse

/-! Expressions, by precedence climbing. Every production takes the parser of the
expressions nested in it. -/

/-- How tightly operators bind, from the loosest. -/
def assignmentPrecedence : Nat := 4
def ternaryPrecedence : Nat := 5
def notPrecedence : Nat := 19
def unaryPrecedence : Nat := 20

/-- No binary operator binds this tightly. -/
def primaryPrecedence : Nat := 21

inductive Associativity where
  | left
  | right
  deriving DecidableEq, Repr

/-- How tightly a binary operator binds, and to which side it groups. -/
def binaryPrecedence? : TokenKind → Option (Nat × Associativity)
  | .orKw => some (1, .left)
  | .xorKw => some (2, .left)
  | .andKw => some (3, .left)
  | .questionQuestion => some (6, .right)
  | .barBar => some (7, .left)
  | .ampersandAmpersand => some (8, .left)
  | .bar => some (9, .left)
  | .caret => some (10, .left)
  | .ampersand => some (11, .left)
  | .equalsEquals | .exclamationEquals | .equalsEqualsEquals
  | .exclamationEqualsEquals | .spaceship => some (12, .left)
  | .lessThan | .lessThanEquals | .greaterThan | .greaterThanEquals => some (13, .left)
  | .dot => some (14, .left)
  | .lessThanLessThan | .greaterThanGreaterThan => some (15, .left)
  | .plus | .minus => some (16, .left)
  | .asterisk | .slash | .percent => some (17, .left)
  | .instanceofKw => some (notPrecedence, .left)
  | .asteriskAsterisk => some (unaryPrecedence, .right)
  | _ => none

/-- The parser of nested expressions, by the loosest precedence they may have. -/
abbrev Nested := Nat → Parse NodeId

def anyExpr (nested : Nested) : Parse NodeId :=
  nested 0

def exprThrough (nested : Nested) (close : TokenKind) : Parse NodeId := do
  let inner ← anyExpr nested
  let _ ← expect close
  return inner

/-- An expression that may be missing. -/
def optionalThrough (nested : Nested) (close : TokenKind) : Parse (Option NodeId) := do
  let inner ← if ← at? close then pure none else some <$> anyExpr nested
  let _ ← expect close
  return inner

/-- A class name, or an expression that gives one. -/
def classReference (nested : Nested) : Parse NodeId := do
  if ← ahead? fun cursor => cursor.isName || cursor.kind == .staticKw then
    let pos ← position
    let name ← value
    advance
    addNode (.nameRef name) pos
  else
    nested primaryPrecedence

/-! Arguments and members. -/

/-- Whether a named argument follows. -/
def isNamedArgument (cursor : Cursor) : Bool :=
  cursor.isWord && cursor.peek == .colon

def argument (nested : Nested) : Parse NodeId := do
  let pos ← position
  let spread ← accept .dotDotDot
  let name ← if !spread && (← ahead? isNamedArgument) then
      let name ← value
      advance
      advance
      pure (some name)
    else
      pure none
  let value ← anyExpr nested
  addNode (.argument name value spread) pos

/-- Whether the argument list stands for the function itself. -/
def isCallableMark (cursor : Cursor) : Bool :=
  cursor.kind == .dotDotDot && cursor.peek == .closeParen

/-- Arguments in parentheses, and whether they stand for the function itself. -/
def arguments (nested : Nested) : Parse (List NodeId × Bool) := do
  if !(← expect .openParen) then return ([], false)
  if ← ahead? isCallableMark then
    advance
    advance
    return ([], true)
  let list ← untilDone [] fun list => do
    match ← kind with
    | .closeParen | .endOfFile => return (list, false)
    | _ =>
        let list := list ++ [← argument nested]
        return (list, ← accept .comma)
  let _ ← expect .closeParen
  return (list, false)

def call (nested : Nested) (callee : NodeId) (pos : Nat) : Parse NodeId := do
  let (list, callable) ← arguments nested
  addNode (.call callee list callable) pos

/-- A variable, as the current token. -/
def variableNode : Parse NodeId := do
  let pos ← position
  let name ← value
  advance
  addNode (.variableRef name) pos

/-- The member after an arrow. -/
def memberName (nested : Nested) : Parse NodeId := do
  let pos ← position
  match ← kind with
  | .variableName => variableNode
  | .openBrace =>
      advance
      exprThrough nested .closeBrace
  | _ =>
      match ← word? with
      | some name => addNode (.nameRef name) pos
      | none => missingNode

/-- The member after a double colon. -/
def staticMember (nested : Nested) (owner : NodeId) (pos : Nat) : Parse NodeId := do
  match ← kind with
  | .variableName =>
      let name ← value
      advance
      addNode (.staticPropertyFetch owner name) pos
  | .classKw =>
      advance
      addNode (.classConstFetch owner "class") pos
  | .openBrace =>
      advance
      let name ← exprThrough nested .closeBrace
      let (list, _) ← arguments nested
      addNode (.staticCall owner name list) pos
  | _ =>
      if ← ahead? Cursor.isWord then
        let namePos ← position
        let name ← value
        advance
        if ← at? .openParen then
          let name ← addNode (.nameRef name) namePos
          let (list, _) ← arguments nested
          addNode (.staticCall owner name list) pos
        else
          addNode (.classConstFetch owner name) pos
      else
        reportExpected "Expected member name after '::'"
        missingNode

/-- A property, or a call of a method, after an object and an arrow. -/
def memberAccess (nested : Nested) (pos : Nat) (object : NodeId) : Parse NodeId := do
  let nullsafe ← at? .questionArrow
  advance
  let name ← memberName nested
  if ← at? .openParen then
    let (list, _) ← arguments nested
    addNode (.methodCall object name list nullsafe) pos
  else
    addNode (.propertyFetch object name nullsafe) pos

/-- A call, a member access, an index or an increment after an expression. -/
def suffix (nested : Nested) (pos : Nat) (object : NodeId) : Parse (NodeId × Bool) := do
  match ← kind with
  | .openBracket =>
      advance
      let dim ← optionalThrough nested .closeBracket
      return (← addNode (.dimFetch object dim) pos, true)
  | .arrow | .questionArrow => return (← memberAccess nested pos object, true)
  | .colonColon =>
      advance
      return (← staticMember nested object pos, true)
  | .openParen => return (← call nested object pos, true)
  | .plusPlus | .minusMinus =>
      let op ← kind
      advance
      return (← addNode (.postfixUnary op object) pos, true)
  | _ => return (object, false)

def suffixes (nested : Nested) (start : NodeId) (pos : Nat) : Parse NodeId :=
  untilDone start (suffix nested pos)

/-! Primary expressions. -/

def arrayEntry (nested : Nested) : Parse ArrayElement := do
  if ← accept .dotDotDot then
    return { key := none, value := ← anyExpr nested, spread := true }
  else
    if ← accept .ampersand then
      return { key := none, value := ← anyExpr nested, byRef := true }
    else
      let first ← anyExpr nested
      if ← accept .fatArrow then
        let byRef ← accept .ampersand
        return { key := some first, value := ← anyExpr nested, byRef }
      else
        return { key := none, value := first }

def arrayElement (nested : Nested) : Parse NodeId := do
  let pos ← position
  let element ← arrayEntry nested
  addNode (.arrayItem element) pos

/-- One slot of an array after `items`, and whether another may follow. -/
def arraySlot (nested : Nested) (close : TokenKind) (items : List (Option NodeId)) :
    Parse (List (Option NodeId) × Bool) := do
  let current ← kind
  if current == close || current == .endOfFile then return (items, false)
  if ← accept .comma then return (items ++ [none], true)
  let item ← arrayElement nested
  return (items ++ [some item], ← accept .comma)

def arrayElements (nested : Nested) (pos : Nat) (close : TokenKind) (bracketed : Bool) :
    Parse NodeId := do
  let items ← untilDone [] (arraySlot nested close)
  let _ ← expect close
  addNode (.arrayLiteral items bracketed) pos

/-- Tokens at which a missing expression ends without being skipped. -/
def closesExpression : TokenKind → Bool
  | .closeParen | .closeBracket | .closeBrace | .semicolon | .comma | .endOfFile => true
  | _ => false

/-- Reports that there is no expression here. -/
def missingExpression : Parse NodeId := do
  reportExpected "Expression expected"
  let missing ← missingNode
  if !closesExpression (← kind) then advance
  return missing

/-- Consumes the current token and adds the node that it stands for. -/
def literal (node : Token → Node) : Parse NodeId := do
  let token ← current
  advance
  addNode (node token) token.span.start

def numberNode (digits : String) : Node :=
  match integerLiteral digits.toList with
  | .int value => .intLiteral value
  | .float value => .floatLiteral value

/-- A name in an expression: a function that is called, a class whose member is
taken, or a constant. -/
def nameExpression (nested : Nested) : Parse NodeId := do
  let pos ← position
  let name ← value
  advance
  match ← kind with
  | .openParen => call nested (← addNode (.nameRef name) pos) pos
  | .colonColon => addNode (.nameRef name) pos
  | _ => addNode (.constFetch name) pos

/-- An array or a list after its word. -/
def wordArray (nested : Nested) (pos : Nat) : Parse NodeId := do
  if ← ahead? fun cursor => cursor.peek == .openParen then
    advance
    advance
    arrayElements nested pos .closeParen false
  else
    missingExpression

/-- A call of what a reserved word stands for. -/
def wordCall (nested : Nested) (pos : Nat) : Parse NodeId := do
  let name := foldCase (← value)
  advance
  call nested (← addNode (.nameRef name) pos) pos

/-- A primary expression that is no variable variable. -/
def plainPrimary (nested : Nested) : Parse NodeId := do
  let pos ← position
  let current ← kind
  match current with
  | .variableName => variableNode
  | .integerLiteral => literal fun token => numberNode token.value
  | .floatLiteral => literal fun token => .floatLiteral (floatLiteral token.value.toList)
  | .stringLiteral => literal fun token => .stringLiteral token.bytes
  | .interpolatedString => literal fun token => .interpolatedString token.value
  | .openBracket =>
      advance
      arrayElements nested pos .closeBracket true
  | .arrayKw | .listKw => wordArray nested pos
  | .openParen =>
      advance
      exprThrough nested .closeParen
  | .issetKw | .emptyKw | .evalKw => wordCall nested pos
  | .identifier | .qualifiedName | .staticKw | .enumKw | .readonlyKw => nameExpression nested
  | _ =>
      if current.isMagicConstant then
        advance
        addNode (.magicConst current) pos
      else
        missingExpression

/-- The positions of consecutive `$` signs, the last one first. -/
def dollarSigns : Parse (List Nat) :=
  untilDone [] fun positions => do
    let pos ← position
    if ← accept .dollar then return (pos :: positions, true) else return (positions, false)

/-- A primary expression. Each `$` before it makes it the name of a variable. -/
def primary (nested : Nested) : Parse NodeId := do
  let signs ← dollarSigns
  let base ← if ← acceptIf (!signs.isEmpty) .openBrace then
      exprThrough nested .closeBrace
    else
      plainPrimary nested
  signs.foldlM (fun operand pos => addNode (.unary .dollar operand) pos) base

/-! Objects, closures and matches. -/

/-- Whether a static property follows. -/
def isStaticProperty (cursor : Cursor) : Bool :=
  cursor.kind == .colonColon && cursor.peek == .variableName

/-- A property after an object and an arrow. -/
def propertyAccess (nested : Nested) (pos : Nat) (object : NodeId) : Parse NodeId := do
  let nullsafe ← at? .questionArrow
  advance
  let name ← memberName nested
  addNode (.propertyFetch object name nullsafe) pos

/-- A class named through a variable and accesses to it, without calls. -/
def classVariable (nested : Nested) : Parse NodeId := do
  let pos ← position
  let start ← variableNode
  untilDone start fun object => do
    if ← ahead? isStaticProperty then
      advance
      let name ← value
      advance
      return (← addNode (.staticPropertyFetch object name) pos, true)
    else
      match ← kind with
      | .arrow | .questionArrow => return (← propertyAccess nested pos object, true)
      | .openBracket =>
          advance
          let dim ← exprThrough nested .closeBracket
          return (← addNode (.dimFetch object (some dim)) pos, true)
      | _ => return (object, false)

def optionalArguments (nested : Nested) : Parse (List NodeId) := do
  if ← at? .openParen then return (← arguments nested).1 else return []

/-- What is made an object of. -/
def objectClass (nested : Nested) : Parse NodeId := do
  match ← kind with
  | .openParen =>
      advance
      exprThrough nested .closeParen
  | .variableName => classVariable nested
  | _ => classReference nested

def newExpression (nested : Nested) : Parse NodeId := do
  let pos ← position
  advance
  match ← kind with
  | .classKw =>
      let classPos ← position
      advance
      let list ← optionalArguments nested
      let decl ← classTail (anyExpr nested) .plain "class@anonymous" WrittenModifiers.none none
      let owner ← addNode (.classLike decl) classPos
      addNode (.newObject owner list) pos
  | _ =>
      let owner ← objectClass nested
      let list ← optionalArguments nested
      addNode (.newObject owner list) pos

def capturedVariables : Parse Unit := do
  let _ ← expect .openParen
  let _ ← untilDone () fun _ => do
    match ← kind with
    | .closeParen | .endOfFile => return ((), false)
    | _ =>
        let _ ← accept .ampersand
        let _ ← expect .variableName
        return ((), ← accept .comma)
  let _ ← expect .closeParen

/-- The body of a closure: one expression, or a block. -/
def closureBody (nested : Nested) (isArrow : Bool) : Parse Unit := do
  if isArrow then
    let _ ← expect .fatArrow
    let _ ← nested assignmentPrecedence
  else
    if ← at? .openBrace then
      let _ ← functionBody (anyExpr nested)
    else
      let _ ← expect .openBrace

def closure (nested : Nested) : Parse NodeId := do
  let pos ← position
  let isStatic ← accept .staticKw
  let isArrow ← at? .fnKw
  advance
  let _ ← accept .ampersand
  let parameters ← parameterList (anyExpr nested)
  if ← acceptIf (!isArrow) .useKw then capturedVariables
  let returnType ← typeAfter .colon
  closureBody nested isArrow
  addNode (.closure isArrow isStatic parameters returnType) pos

def armConditions (nested : Nested) : Parse (List NodeId) := do
  if ← accept .defaultKw then return []
  untilDone [] fun conditions => do
    let conditions := conditions ++ [← anyExpr nested]
    if ← accept .comma then return (conditions, !(← at? .fatArrow))
    else return (conditions, false)

def matchExpression (nested : Nested) : Parse NodeId := do
  let pos ← position
  advance
  let _ ← expect .openParen
  let subject ← exprThrough nested .closeParen
  let _ ← expect .openBrace
  let arms ← untilDone [] fun arms => do
    match ← kind with
    | .closeBrace | .endOfFile => return (arms, false)
    | _ =>
        let armPos ← position
        let conditions ← armConditions nested
        let _ ← expect .fatArrow
        let body ← anyExpr nested
        let arm ← addNode (.matchArm conditions body) armPos
        return (arms ++ [arm], ← accept .comma)
  let _ ← expect .closeBrace
  addNode (.matchExpr subject arms) pos

/-! Unary and binary expressions. -/

/-- Tokens that end a `yield` without an operand. -/
def endsYield : TokenKind → Bool
  | .semicolon | .closeParen | .closeBracket | .comma | .endOfFile => true
  | _ => false

def yieldExpression (nested : Nested) : Parse NodeId := do
  let pos ← position
  advance
  if (← at? .identifier) && sameFolded (← value) "from" then
    advance
    let operand ← nested assignmentPrecedence
    addNode (.keywordExpr .yieldKw (some operand) none) pos
  else if endsYield (← kind) then
    addNode (.keywordExpr .yieldKw none none) pos
  else
    let first ← nested assignmentPrecedence
    if ← accept .fatArrow then
      let operand ← nested assignmentPrecedence
      addNode (.keywordExpr .yieldKw (some operand) (some first)) pos
    else
      addNode (.keywordExpr .yieldKw (some first) none) pos

/-- An assignment, if the expression so far can be assigned to. -/
def assignmentTail (nested : Nested) (target : NodeId) (pos : Nat) : Parse NodeId := do
  let op ← kind
  let assignable := ((← get).arena.node? target).any Node.isAssignable
  if (op == .equals || op.isCompoundAssignment) && assignable then
    advance
    let byRef ← acceptIf (op == .equals) .ampersand
    let value ← nested assignmentPrecedence
    addNode (.assign op target value byRef) pos
  else
    return target

def keywordOperand (nested : Nested) (precedence : Nat) : Parse NodeId := do
  let pos ← position
  let keyword ← kind
  advance
  let operand ← nested precedence
  addNode (.keywordExpr keyword (some operand) none) pos

def unaryOperand (nested : Nested) (precedence : Nat) : Parse NodeId := do
  let pos ← position
  let op ← kind
  advance
  let operand ← nested precedence
  addNode (.unary op operand) pos

def exitExpression (nested : Nested) : Parse NodeId := do
  let pos ← position
  let keyword ← kind
  advance
  let operand ← if ← accept .openParen then optionalThrough nested .closeParen else pure none
  addNode (.keywordExpr keyword operand none) pos

/-- A primary expression with what may follow it. -/
def operand (nested : Nested) : Parse NodeId := do
  let pos ← position
  let start ← primary nested
  assignmentTail nested (← suffixes nested start pos) pos

/-- Whether a closure follows `static`. -/
def isStaticClosure (cursor : Cursor) : Bool :=
  cursor.kind == .staticKw && (cursor.peek == .functionKw || cursor.peek == .fnKw)

def castExpression (nested : Nested) : Parse NodeId := do
  let pos ← position
  let type ← value
  advance
  let operand ← nested unaryPrecedence
  addNode (.cast type operand) pos

/-- How tightly the operand of a unary operator binds. -/
def operatorPrecedence? : TokenKind → Option Nat
  | .exclamation => some notPrecedence
  | .minus | .plus | .tilde | .atSign | .plusPlus | .minusMinus => some unaryPrecedence
  | _ => none

/-- How tightly the operand of a word binds. -/
def keywordPrecedence? : TokenKind → Option Nat
  | .cloneKw => some primaryPrecedence
  | .printKw => some ternaryPrecedence
  | .throwKw | .includeKw | .includeOnceKw | .requireKw | .requireOnceKw =>
      some assignmentPrecedence
  | _ => none

/-- An expression that does not begin with an operator. -/
def plainExpression (nested : Nested) : Parse NodeId := do
  let pos ← position
  match ← kind with
  | .cast => castExpression nested
  | .yieldKw => yieldExpression nested
  | .exitKw => exitExpression nested
  | .newKw =>
      let object ← newExpression nested
      assignmentTail nested (← suffixes nested object pos) pos
  | .functionKw | .fnKw => closure nested
  | .matchKw =>
      let result ← matchExpression nested
      suffixes nested result pos
  | _ =>
      if ← ahead? isStaticClosure then closure nested else operand nested

/-- A unary expression without attributes. -/
def bareExpression (nested : Nested) : Parse NodeId := do
  let first ← kind
  match operatorPrecedence? first with
  | some precedence => unaryOperand nested precedence
  | none =>
      match keywordPrecedence? first with
      | some precedence => keywordOperand nested precedence
      | none => plainExpression nested

/-- A unary expression. Attributes before it are passed over. -/
def unaryExpression (nested : Nested) : Parse NodeId := do
  if ← at? .attributeStart then skipAttributes
  bareExpression nested

/-- The rest of a ternary after its question mark. -/
def ternaryTail (nested : Nested) (condition : NodeId) (pos : Nat) : Parse NodeId := do
  let whenTrue ← if ← at? .colon then pure none else some <$> anyExpr nested
  let _ ← expect .colon
  let whenFalse ← nested (ternaryPrecedence + 1)
  addNode (.ternary condition whenTrue whenFalse) pos

def rightOperand (nested : Nested) (op : TokenKind) (precedence : Nat) :
    Associativity → Parse NodeId
  | .right => nested precedence
  | .left => if op = .instanceofKw then classReference nested else nested (precedence + 1)

/-- The operator after a left operand, if it binds at least as tightly as given. -/
def binaryStep (nested : Nested) (minPrecedence : Nat) (pos : Nat) (left : NodeId) :
    Parse (NodeId × Bool) := do
  let op ← kind
  if op == .question then
    if ternaryPrecedence < minPrecedence then return (left, false)
    advance
    return (← ternaryTail nested left pos, true)
  else
    match binaryPrecedence? op with
    | none => return (left, false)
    | some (precedence, associativity) =>
        if precedence < minPrecedence then return (left, false)
        advance
        let right ← rightOperand nested op precedence associativity
        return (← addNode (.binary op left right) pos, true)

/-- The operators after a left operand that bind at least as tightly as given. -/
def binaryTail (nested : Nested) (minPrecedence : Nat) (pos : Nat) (start : NodeId) :
    Parse NodeId :=
  untilDone start (binaryStep nested minPrecedence pos)

/-- A unary expression and the operators after it that bind at least as tightly as given. -/
def climb (nested : Nested) (minPrecedence : Nat) : Parse NodeId := do
  let pos ← position
  let left ← unaryExpression nested
  binaryTail nested minPrecedence pos left

/-- The deepest nesting of expressions that is accepted. -/
def maxDepth : Nat := 256

/-- Opens an expression, or reports that too many are open. -/
def openExpression : Parse Bool := do
  if (← get).depth < maxDepth then
    modify fun state => { state with depth := state.depth + 1 }
    return true
  else
    report "Maximum nesting depth exceeded"
    return false

def closeExpression : Parse Unit :=
  modify fun state => { state with depth := state.depth - 1 }

/-- Passes one token in place of an expression. -/
def passExpression : Parse NodeId := do
  let missing ← missingNode
  if !(← at? .endOfFile) then advance
  return missing

/-- An expression whose operators bind at least as tightly as given. No more than `room`
of them are parsed inside one another; the depth that is accepted comes to its end
before. -/
def expressionWithin : (room : Nat) → Nested
  | 0, _ => do
      stall
      missingNode
  | room + 1, minPrecedence => do
      if ← openExpression then
        let whole ← climb (expressionWithin room) minPrecedence
        closeExpression
        return whole
      else
        passExpression

def expression : Parse NodeId :=
  expressionWithin (maxDepth + 1) 0

end StaticReflection.Grammar
