import StaticReflection.Name
import StaticReflection.Token.Kind

namespace StaticReflection

/-! Nodes of a parsed file. A node refers to its children by their places in the
arena that holds them. Places and offsets have no bound here, where 32 bits hold those of a file
of less than 4 GiB. -/

abbrev NodeId := Nat

/-- The modifier words of a declaration. -/
structure WrittenModifiers where
  isPublic : Bool := false
  isProtected : Bool := false
  isPrivate : Bool := false
  isStatic : Bool := false
  isAbstract : Bool := false
  isFinal : Bool := false
  isReadonly : Bool := false
  isVar : Bool := false
  deriving DecidableEq, Repr

def WrittenModifiers.none : WrittenModifiers := {}

/-- The bits of the modifiers, from the lowest. -/
def WrittenModifiers.toList (m : WrittenModifiers) : List Bool :=
  [m.isPublic, m.isProtected, m.isPrivate, m.isStatic,
    m.isAbstract, m.isFinal, m.isReadonly, m.isVar]

def WrittenModifiers.toBits (m : WrittenModifiers) : Nat :=
  m.toList.foldr (fun bit bits => 2 * bits + bit.toNat) 0

def WrittenModifiers.ofBits (bits : Nat) : WrittenModifiers where
  isPublic := bits.testBit 0
  isProtected := bits.testBit 1
  isPrivate := bits.testBit 2
  isStatic := bits.testBit 3
  isAbstract := bits.testBit 4
  isFinal := bits.testBit 5
  isReadonly := bits.testBit 6
  isVar := bits.testBit 7

/-- The modifiers of either. -/
def WrittenModifiers.union (a b : WrittenModifiers) : WrittenModifiers where
  isPublic := a.isPublic || b.isPublic
  isProtected := a.isProtected || b.isProtected
  isPrivate := a.isPrivate || b.isPrivate
  isStatic := a.isStatic || b.isStatic
  isAbstract := a.isAbstract || b.isAbstract
  isFinal := a.isFinal || b.isFinal
  isReadonly := a.isReadonly || b.isReadonly
  isVar := a.isVar || b.isVar

def WrittenModifiers.hasVisibility (m : WrittenModifiers) : Bool :=
  m.isPublic || m.isProtected || m.isPrivate

/-- The modifier that a word stands for. -/
def WrittenModifiers.ofToken? : TokenKind → Option WrittenModifiers
  | .publicKw => some { isPublic := true }
  | .protectedKw => some { isProtected := true }
  | .privateKw => some { isPrivate := true }
  | .staticKw => some { isStatic := true }
  | .abstractKw => some { isAbstract := true }
  | .finalKw => some { isFinal := true }
  | .readonlyKw => some { isReadonly := true }
  | .varKw => some { isVar := true }
  | _ => Option.none

/-- Kinds of class-like declarations. -/
inductive ClassKind where
  | plain
  | interface
  | trait
  | enumeration
  deriving DecidableEq, Repr

def ClassKind.keyword : ClassKind → String
  | .plain => "class"
  | .interface => "interface"
  | .trait => "trait"
  | .enumeration => "enum"

/-- What an import brings in. -/
inductive ImportKind where
  | classLike
  | function
  | constant
  deriving DecidableEq, Repr

/-- One imported name, without a leading separator. -/
structure ImportItem where
  kind : ImportKind
  name : String
  renamed : Option String
  deriving DecidableEq, Repr

/-- The name that the import is known by: the one given to it, or its last segment. -/
def ImportItem.localName (item : ImportItem) : String :=
  item.renamed.getD (shortName item.name)

/-- The statements of a namespace. The name is empty for the global one. -/
structure NamespaceDecl where
  name : String
  braced : Bool
  statements : List NodeId
  doc : Option String
  deriving DecidableEq, Repr

/-- A class, interface, trait or enumeration. Names are as written. -/
structure ClassDecl where
  kind : ClassKind
  name : String
  modifiers : WrittenModifiers
  parents : List String
  interfaces : List String
  backingType : Option NodeId
  members : List NodeId
  doc : Option String
  deriving DecidableEq, Repr

/-- Constants or properties that are declared together. -/
structure MemberGroup where
  modifiers : WrittenModifiers
  type : Option NodeId
  declarators : List NodeId
  doc : Option String
  deriving DecidableEq, Repr

/-- A static variable of a function body. -/
structure StaticVariable where
  name : String
  initializer : Option NodeId
  deriving DecidableEq, Repr

/-- A function or method. -/
structure FunctionDecl where
  name : String
  modifiers : WrittenModifiers
  parameters : List NodeId
  returnType : Option NodeId
  byRef : Bool
  hasBody : Bool
  statics : List StaticVariable
  isGenerator : Bool
  doc : Option String
  deriving DecidableEq, Repr

structure ParameterDecl where
  name : String
  modifiers : WrittenModifiers
  type : Option NodeId
  default : Option NodeId
  byRef : Bool
  variadic : Bool
  doc : Option String
  deriving DecidableEq, Repr

/-- A parameter that also declares a property. -/
def ParameterDecl.isPromoted (p : ParameterDecl) : Bool :=
  p.modifiers.hasVisibility || p.modifiers.isReadonly

structure ArrayElement where
  key : Option NodeId
  value : NodeId
  byRef : Bool := false
  spread : Bool := false
  deriving DecidableEq, Repr

inductive Node where
  | sourceFile (path : String) (statements : List NodeId)
  | namespaceDecl (decl : NamespaceDecl)
  | imports (items : List ImportItem)
  | classLike (decl : ClassDecl)
  | classConst (group : MemberGroup)
  | constDeclarator (name : String) (value : NodeId)
  | property (group : MemberGroup)
  | propertyDeclarator (name : String) (default : Option NodeId)
  | method (decl : FunctionDecl)
  | function (decl : FunctionDecl)
  | parameter (decl : ParameterDecl)
  | traitUse (traits : List String)
  | enumCase (name : String) (value : Option NodeId) (doc : Option String)
  | constStatement (declarators : List NodeId) (doc : Option String)
  | expressionStatement (expression : NodeId)
  /-- A statement that declares nothing. -/
  | skipped (firstToken : TokenKind)
  | namedType (name : String)
  | nullableType (inner : NodeId)
  | unionType (types : List NodeId)
  | intersectionType (types : List NodeId)
  | intLiteral (value : Int64)
  | floatLiteral (value : Float)
  | stringLiteral (bytes : List UInt8)
  | interpolatedString (body : String)
  /-- A slot is empty where a destructuring list skips it. -/
  | arrayLiteral (items : List (Option NodeId)) (bracketed : Bool)
  | arrayItem (element : ArrayElement)
  | unary (op : TokenKind) (operand : NodeId)
  | postfixUnary (op : TokenKind) (operand : NodeId)
  | binary (op : TokenKind) (left right : NodeId)
  | ternary (condition : NodeId) (whenTrue : Option NodeId) (whenFalse : NodeId)
  | assign (op : TokenKind) (target value : NodeId) (byRef : Bool)
  | nameRef (name : String)
  | constFetch (name : String)
  | classConstFetch (owner : NodeId) (name : String)
  | magicConst (kind : TokenKind)
  | variableRef (name : String)
  | argument (name : Option String) (value : NodeId) (spread : Bool)
  | call (callee : NodeId) (arguments : List NodeId) (callable : Bool)
  | newObject (owner : NodeId) (arguments : List NodeId)
  | propertyFetch (object name : NodeId) (nullsafe : Bool)
  | staticPropertyFetch (owner : NodeId) (name : String)
  | methodCall (object name : NodeId) (arguments : List NodeId) (nullsafe : Bool)
  | staticCall (owner name : NodeId) (arguments : List NodeId)
  | dimFetch (object : NodeId) (dim : Option NodeId)
  | cast (type : String) (operand : NodeId)
  | closure (isArrow isStatic : Bool) (parameters : List NodeId) (returnType : Option NodeId)
  | matchExpr (subject : NodeId) (arms : List NodeId)
  /-- An arm without conditions is the default one. -/
  | matchArm (conditions : List NodeId) (body : NodeId)
  | keywordExpr (keyword : TokenKind) (operand key : Option NodeId)
  /-- What stands where a node was expected. -/
  | missing

/-- The name of a node's kind in messages and listings. -/
def Node.label : Node → String
  | .sourceFile .. => "SourceFile"
  | .namespaceDecl .. => "Namespace"
  | .imports .. => "Use"
  | .classLike .. => "ClassLike"
  | .classConst .. => "ClassConst"
  | .constDeclarator .. => "ConstDeclarator"
  | .property .. => "Property"
  | .propertyDeclarator .. => "PropertyDeclarator"
  | .method .. => "Method"
  | .function .. => "Function"
  | .parameter .. => "Parameter"
  | .traitUse .. => "TraitUse"
  | .enumCase .. => "EnumCase"
  | .constStatement .. => "ConstStatement"
  | .expressionStatement .. => "ExpressionStatement"
  | .skipped .. => "Opaque"
  | .namedType .. => "NamedType"
  | .nullableType .. => "NullableType"
  | .unionType .. => "UnionType"
  | .intersectionType .. => "IntersectionType"
  | .intLiteral .. => "IntLiteral"
  | .floatLiteral .. => "FloatLiteral"
  | .stringLiteral .. => "StringLiteral"
  | .interpolatedString .. => "InterpolatedString"
  | .arrayLiteral .. => "ArrayLiteral"
  | .arrayItem .. => "ArrayItem"
  | .unary .. => "Unary"
  | .postfixUnary .. => "PostfixUnary"
  | .binary .. => "Binary"
  | .ternary .. => "Ternary"
  | .assign .. => "Assign"
  | .nameRef .. => "Name"
  | .constFetch .. => "ConstFetch"
  | .classConstFetch .. => "ClassConstFetch"
  | .magicConst .. => "MagicConst"
  | .variableRef .. => "Variable"
  | .argument .. => "Argument"
  | .call .. => "Call"
  | .newObject .. => "New"
  | .propertyFetch .. => "PropertyFetch"
  | .staticPropertyFetch .. => "StaticPropertyFetch"
  | .methodCall .. => "MethodCall"
  | .staticCall .. => "StaticCall"
  | .dimFetch .. => "DimFetch"
  | .cast .. => "Cast"
  | .closure .. => "Closure"
  | .matchExpr .. => "Match"
  | .matchArm .. => "MatchArm"
  | .keywordExpr .. => "KeywordExpression"
  | .missing => "Missing"

/-- Whether the node can stand on the left of an assignment. -/
def Node.isAssignable : Node → Bool
  | .variableRef .. | .dimFetch .. | .propertyFetch .. | .staticPropertyFetch ..
  | .arrayLiteral .. => true
  | .unary .dollar _ => true
  | _ => false

/-- The children of a node in source order. -/
def Node.children : Node → List NodeId
  | .sourceFile _ statements => statements
  | .namespaceDecl decl => decl.statements
  | .classLike decl => decl.backingType.toList ++ decl.members
  | .classConst group | .property group => group.type.toList ++ group.declarators
  | .constDeclarator _ value => [value]
  | .propertyDeclarator _ default => default.toList
  | .method decl | .function decl =>
      decl.parameters ++ decl.returnType.toList
        ++ decl.statics.flatMap fun static => static.initializer.toList
  | .parameter decl => decl.type.toList ++ decl.default.toList
  | .enumCase _ value _ => value.toList
  | .constStatement declarators _ => declarators
  | .expressionStatement expression => [expression]
  | .nullableType inner => [inner]
  | .unionType types | .intersectionType types => types
  | .arrayLiteral items _ => items.filterMap id
  | .arrayItem element => element.key.toList ++ [element.value]
  | .unary _ operand | .postfixUnary _ operand | .cast _ operand => [operand]
  | .binary _ left right => [left, right]
  | .ternary condition whenTrue whenFalse => condition :: whenTrue.toList ++ [whenFalse]
  | .assign _ target value _ => [target, value]
  | .classConstFetch owner _ | .staticPropertyFetch owner _ => [owner]
  | .argument _ value _ => [value]
  | .call callee arguments _ => callee :: arguments
  | .newObject owner arguments => owner :: arguments
  | .propertyFetch object name _ => [object, name]
  | .methodCall object name arguments _ => object :: name :: arguments
  | .staticCall owner name arguments => owner :: name :: arguments
  | .dimFetch object dim => object :: dim.toList
  | .closure _ _ parameters returnType => parameters ++ returnType.toList
  | .matchExpr subject arms => subject :: arms
  | .matchArm conditions body => conditions ++ [body]
  | .keywordExpr _ operand key => key.toList ++ operand.toList
  | .imports .. | .traitUse .. | .skipped .. | .namedType .. | .intLiteral ..
  | .floatLiteral .. | .stringLiteral .. | .interpolatedString .. | .nameRef ..
  | .constFetch .. | .magicConst .. | .variableRef .. | .missing => []

/-- Nodes with their places in the text, in the order of their creation. -/
structure Arena where
  entries : Array (Node × Span) := #[]

def Arena.size (arena : Arena) : Nat :=
  arena.entries.size

def Arena.add (arena : Arena) (node : Node) (span : Span) : Arena :=
  ⟨arena.entries.push (node, span)⟩

def Arena.node? (arena : Arena) (id : NodeId) : Option Node :=
  arena.entries[id]?.map (·.1)

def Arena.span? (arena : Arena) (id : NodeId) : Option Span :=
  arena.entries[id]?.map (·.2)

/-- The children of a node in source order. -/
def Arena.children (arena : Arena) (id : NodeId) : List NodeId :=
  ((arena.node? id).map Node.children).getD []

end StaticReflection
