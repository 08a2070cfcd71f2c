import StaticReflection.Reflection.Plan
import StaticReflection.Value.Function
import StaticReflection.Value.Offset
import StaticReflection.Value.Operator
import StaticReflection.Value.Predefined

namespace StaticReflection.Evaluation

/-! The rules for the values of constant expressions, one for each kind of node.
Expressions that need running code have no value. A reference to a constant leads to that
constant's own expression. -/

open Plan

/-! Constants. -/

/-- The value behind an enumeration case; null if there is none. -/
def backingValue (constant : ConstantInfo) : Plan Value :=
  match constant.value with
  | some node => initializer constant node
  | none => return .null

/-- The value of a constant. The value of an enumeration case is the case itself. -/
def constantValue (constant : ConstantInfo) : Plan Value :=
  match constant.isCase, constant.owner with
  | true, some owner => return .enumCase owner constant.name
  | _, _ =>
      match constant.value with
      | some node => initializer constant node
      | none => unresolvable constant.scope "Missing" none

def firstPredefined? (platform : Platform) (names : List String) : Option Value :=
  if platform.predefinedConstants then
    names.findSome? (predefinedConstant? platform.directorySeparator)
  else none

/-- The value of the first of some names that is a constant, declared or predefined. -/
def valueOfFirst (names : List String) (shown : String) : Plan Value := do
  match ← names.findSomeM? declared? with
  | some constant => constantValue constant
  | none =>
      match firstPredefined? (← platform) names with
      | some value => return value
      | none => fail (.constantNotFound shown)

/-- The constant that a name refers to where it stands. -/
def constantFetch (scope : Scope) (name : String) : Plan Value :=
  match literalConstant? (stripSeparator name) with
  | some value => return value
  | none =>
      let candidates := scope.resolver.constantCandidates name
      valueOfFirst candidates (candidates.head?.getD (stripSeparator name))

/-- A constant of a class, its own or an inherited one. -/
def classConstant (owner name : String) : Plan Value := do
  let info ← classNamed owner
  match ← member? info name with
  | some constant => constantValue constant
  | none => fail (.constantNotFound (info.name ++ "::" ++ name))

/-- A constant of the class that a name refers to, or the name of that class. -/
def classConstFetch (scope : Scope) (node owner : NodeId) (name : String) : Plan Value :=
  match scope.node? owner with
  | some (.nameRef written) => do
      let owner ← .done (scope.classNamed written node)
      if sameFolded name "class" then return .text owner
      else classConstant owner name
  | _ => unresolvable scope "ClassConstFetch" (some node)

/-- The text before and after the first double colon. -/
def splitMember? : List Char → Option (List Char × List Char)
  | ':' :: ':' :: rest => some ([], rest)
  | c :: rest => (splitMember? rest).map fun (before, after) => (c :: before, after)
  | [] => none

/-- The class that a computed text names. -/
def ownerOfText (scope : Scope) (node : NodeId) (text : String) :
    Except ReflectionError String :=
  let owner := stripSeparator text
  if isSpecialClass owner then scope.classNamed owner node else .ok owner

/-- The constant with a fully qualified name that is computed. -/
def constantByText (scope : Scope) (node : NodeId) (text : String) : Plan Value :=
  match splitMember? text.toList with
  | some (owner, name) => do
      let owner ← .done (ownerOfText scope node (String.ofList owner))
      classConstant owner (String.ofList name)
  | none =>
      let name := stripSeparator text
      match literalConstant? name with
      | some value => return value
      | none => valueOfFirst [name] name

/-! Arrays. -/

/-- Adds the entries of an unpacked array: those with integer keys come after the last
one, those with string keys replace. -/
def unpackInto (items : KeyedArray Value) : List (ArrayKey × Value) →
    Except Fault (KeyedArray Value)
  | [] => .ok items
  | (.int _, value) :: rest =>
      match items.push? value with
      | some items => unpackInto items rest
      | none => .error .arrayFull
  | (.string key, value) :: rest => unpackInto (items.insert (.string key) value) rest

def addElement (scope : Scope) (node : NodeId) (element : ArrayElement)
    (items : KeyedArray Value) : Plan (KeyedArray Value) :=
  if element.byRef then unresolvable scope "ArrayItem" (some node)
  else if element.spread then do
    match ← value .strict element.value with
    | .array unpacked => ofFault scope (some node) (unpackInto items unpacked.entries)
    | _ => fault scope .notUnpackable (some node)
  else
    match element.key with
    | none => do
        match items.push? (← value .strict element.value) with
        | some items => return items
        | none => fault scope .arrayFull (some node)
    | some keyNode => do
        let key ← value .strict keyNode
        match key.toKey? with
        | some key => return items.insert key (← value .strict element.value)
        | none => fault scope (.illegalKey key.typeName) (some keyNode)

/-- Adds the elements of an array literal in order. -/
def addElements (scope : Scope) :
    List (Option NodeId) → KeyedArray Value → Plan (KeyedArray Value)
  | [], items => return items
  | slot :: rest, items =>
      match slot.bind scope.node?, slot with
      | some (.arrayItem element), some node => do
          addElements scope rest (← addElement scope node element items)
      | _, _ => fault scope .emptyElement slot

/-! Properties of enumeration cases. -/

/-- The value behind the case of an enumeration with backing values. -/
def caseValue (scope : Scope) (node : NodeId) (owner case : String) : Plan Value := do
  let info ← classNamed owner
  match (info.members.constants.find? (.exact case)).filter (·.isCase), info.backingType with
  | some constant, some _ => backingValue constant
  | _, _ => fault scope (.undefinedProperty owner "value") (some node)

def propertyOf (scope : Scope) (node nameNode : NodeId) (object : Value) : Plan Value :=
  match scope.node? nameNode, object with
  | some (.nameRef "name"), .enumCase _ case => return .text case
  | some (.nameRef "value"), .enumCase owner case => caseValue scope node owner case
  | some (.nameRef property), .enumCase owner _ =>
      fault scope (.undefinedProperty owner property) (some node)
  | some (.nameRef property), _ =>
      fault scope (.propertyOfNonObject property object.typeName) (some node)
  | _, _ => unresolvable scope "PropertyFetch" (some node)

/-! Operators. -/

def unaryOperation? : TokenKind → Option (Value → Except Fault Value)
  | .minus => some Value.negate
  | .plus => some Value.identity
  | .tilde => some Value.bitwiseNot
  | .exclamation => some fun value => .ok (.bool (!value.toBool))
  | _ => none

def unary (scope : Scope) (node : NodeId) (op : TokenKind) (operand : NodeId) : Plan Value :=
  match unaryOperation? op with
  | some apply => do ofFault scope (some node) (apply (← value .strict operand))
  | none => unresolvable scope "Unary" (some node)

/-- A binary operator. Some do not evaluate their right operand in every case. -/
def binary (scope : Scope) (node : NodeId) (op : TokenKind) (left right : NodeId) :
    Plan Value :=
  match op with
  | .ampersandAmpersand | .andKw => do
      let first ← value .strict left
      if first.toBool then return .bool (← value .strict right).toBool
      else return .bool false
  | .barBar | .orKw => do
      let first ← value .strict left
      if first.toBool then return .bool true
      else return .bool (← value .strict right).toBool
  | .questionQuestion => do
      let first ← value .quiet left
      if first.isNull then value .strict right
      else return first
  | .instanceofKw => unresolvable scope "Instanceof" (some node)
  | _ => do
      let first ← value .strict left
      let second ← value .strict right
      ofFault scope (some node) (Value.binary op first second)

/-- A choice by a condition, which is its own value if nothing else is given. -/
def ternary (condition : NodeId) (whenTrue : Option NodeId) (whenFalse : NodeId) :
    Plan Value := do
  let chosen ← value .strict condition
  match chosen.toBool, whenTrue with
  | true, some whenTrue => value .strict whenTrue
  | true, none => return chosen
  | false, _ => value .strict whenFalse

/-! Calls. -/

/-- The arguments of a call by position; a named one may leave gaps before it. -/
structure Slots where
  values : List (Option Value) := []
  /-- Whether an argument was given by name. -/
  anyNamed : Bool := false

/-- Adds a positional argument. -/
def Slots.push (slots : Slots) (value : Value) : Slots :=
  { slots with values := slots.values ++ [some value] }

/-- Adds an argument by the name of its parameter. -/
def Slots.place (slots : Slots) (function : PureFunction) (name : String) (value : Value) :
    Except Fault Slots :=
  match function.parameters.findIdx? (· == name) with
  | none => .error (.unknownParameter name)
  | some position =>
      let values :=
        slots.values ++ List.replicate (position + 1 - slots.values.length) none
      match values[position]? with
      | some (some _) => .error (.parameterOverwritten name)
      | _ => .ok ⟨values.set position (some value), true⟩

/-- Adds the entries of an unpacked array. -/
def Slots.unpack (slots : Slots) (function : PureFunction) :
    List (ArrayKey × Value) → Except Fault Slots
  | [] => .ok slots
  | (.int _, value) :: rest =>
      if slots.anyNamed then .error .positionalAfterNamedUnpacked
      else (slots.push value).unpack function rest
  | (.string name, value) :: rest => do
      (← slots.place function (Utf8.decodeString name) value).unpack function rest

/-- Adds an argument as it is written. -/
def Slots.add (slots : Slots) (function : PureFunction) (name : Option String)
    (spread : Bool) (value : Value) : Except Fault Slots :=
  if spread then
    match value with
    | .array items => slots.unpack function items.entries
    | _ => .error .notUnpackable
  else
    match name with
    | some name => slots.place function name value
    | none =>
        if slots.anyNamed then .error .positionalAfterNamed else .ok (slots.push value)

/-- The values of all slots, from a position on, or the fault of the first gap. -/
def positional (function : PureFunction) : Nat → List (Option Value) →
    Except Fault (List Value)
  | _, [] => .ok []
  | position, some value :: rest => do
      return value :: (← positional function (position + 1) rest)
  | position, none :: _ =>
      .error (.argumentNotPassed function.name (position + 1)
        (function.parameters[position]?.getD ""))

/-- Evaluates the arguments of a call in order. -/
def fillSlots (scope : Scope) (function : PureFunction) : List NodeId → Slots → Plan Slots
  | [], slots => return slots
  | node :: rest, slots =>
      match scope.node? node with
      | some (.argument name valueNode spread) => do
          let given ← value .strict valueNode
          let slots ← ofFault scope (some node) (slots.add function name spread given)
          fillSlots scope function rest slots
      | _ => unresolvable scope "Argument" (some node)

/-- The values of the arguments of a call by position. -/
def argumentValues (scope : Scope) (node : NodeId) (function : PureFunction)
    (arguments : List NodeId) : Plan (List Value) := do
  let slots ← fillSlots scope function arguments {}
  ofFault scope (some node) (positional function 0 slots.values)

/-- The function that a name refers to where it stands, if it is one that can be called.
A declared function hides it. -/
def callable? (index : EntityIndex) : List String → Option PureFunction
  | [] => none
  | name :: rest =>
      if index.hasFunction name then none
      else
        match PureFunction.ofName? (foldCase name) with
        | some function => some function
        | none => callable? index rest

def constantCall (scope : Scope) (node : NodeId) : List Value → Plan Value
  | [.string name] => constantByText scope node (Utf8.decodeString name)
  | [other] =>
      fault scope (.parameterType "constant" 1 "name" "string" other.typeName) (some node)
  | arguments => fault scope (.constantArguments arguments.length) (some node)

def call (scope : Scope) (node callee : NodeId) (arguments : List NodeId) : Plan Value :=
  match scope.node? callee with
  | some (.nameRef name) => do
      match callable? (← index) (scope.resolver.functionCandidates name) with
      | none => unresolvable scope "Call" (some node)
      | some function =>
          let values ← argumentValues scope node function arguments
          if function = .constant then constantCall scope node values
          else
            ofFault scope (some node)
              (function.call (← platform).directorySeparator values)
  | _ => unresolvable scope "Call" (some node)

/-! Expressions. -/

def expression (scope : Scope) (mode : Mode) (node : NodeId) : Plan Value :=
  match scope.node? node with
  | none => unresolvable scope "Missing" (some node)
  | some (.intLiteral value) => return .int value
  | some (.floatLiteral value) => return .float value
  | some (.stringLiteral bytes) => return .string bytes
  | some (.arrayLiteral slots _) => return .array (← addElements scope slots {})
  | some (.unary op operand) => unary scope node op operand
  | some (.binary op left right) => binary scope node op left right
  | some (.ternary condition whenTrue whenFalse) => ternary condition whenTrue whenFalse
  | some (.constFetch name) => constantFetch scope name
  | some (.classConstFetch owner name) => classConstFetch scope node owner name
  | some (.magicConst kind) => return scope.magicConstant kind node
  | some (.dimFetch _ none) => fault scope .emptyIndex (some node)
  | some (.dimFetch object (some dim)) => do
      let container ← value mode object
      let offset ← value .strict dim
      ofFault scope (some node) (container.offset (mode == .quiet) offset)
  | some (.propertyFetch object name nullsafe) => do
      let owner ← value mode object
      if (nullsafe || mode == .quiet) && owner.isNull then return .null
      else propertyOf scope node name owner
  | some (.call callee arguments false) => call scope node callee arguments
  | some other => unresolvable scope other.label (some node)

end StaticReflection.Evaluation
