import StaticReflection.Source.Import

namespace StaticReflection

/-! Declared types of parameters, properties, constants and results. -/

/-- A type with its class names resolved. -/
inductive DeclaredType where
  /-- A built-in type in lower case, or a class. -/
  | named (name : String) (builtin : Bool)
  | nullable (inner : DeclaredType)
  | union (members : List DeclaredType)
  | intersection (members : List DeclaredType)
  deriving Repr

def builtinTypes : List String :=
  ["int", "float", "string", "bool", "array", "callable", "iterable", "object", "mixed",
    "void", "null", "never", "false", "true", "static"]

namespace DeclaredType

/-- The type that a single name denotes. -/
def ofName (resolver : Resolver) (name : String) : DeclaredType :=
  let lower := foldCase name
  if builtinTypes.contains lower then .named lower true
  else if isSpecialClass name then .named lower false
  else .named (resolver.classNamed name) false

/-- The type of a type node. A node is older than the nodes that refer to it, so its
own number bounds the descent. -/
def ofNodeWithin? (arena : Arena) (resolver : Resolver) : Nat → NodeId → Option DeclaredType
  | 0, _ => none
  | fuel + 1, node =>
      match arena.node? node with
      | some (.namedType name) => some (ofName resolver name)
      | some (.nullableType inner) =>
          (ofNodeWithin? arena resolver fuel inner).map .nullable
      | some (.unionType members) =>
          (members.mapM (ofNodeWithin? arena resolver fuel)).map .union
      | some (.intersectionType members) =>
          (members.mapM (ofNodeWithin? arena resolver fuel)).map .intersection
      | _ => none

/-- The type of a node that may be absent. -/
def ofNode? (arena : Arena) (resolver : Resolver) (node : Option NodeId) :
    Option DeclaredType :=
  node.bind fun node => ofNodeWithin? arena resolver (node + 1) node

/-- The name of a type that is not composed. -/
def name? : DeclaredType → Option String
  | .named name _ => some name
  | .nullable inner => inner.name?
  | .union _ | .intersection _ => none

def isBuiltin : DeclaredType → Bool
  | .named _ builtin => builtin
  | .nullable inner => inner.isBuiltin
  | .union _ | .intersection _ => false

/-- The members of a union or intersection. -/
def members : DeclaredType → List DeclaredType
  | .union members | .intersection members => members
  | .named .. | .nullable _ => []

mutual

/-- Whether null is a value of the type. -/
def allowsNull : DeclaredType → Bool
  | .named name _ => name == "null" || name == "mixed"
  | .nullable _ => true
  | .union members => anyAllowsNull members
  | .intersection _ => false
  termination_by structural type => type

def anyAllowsNull : List DeclaredType → Bool
  | [] => false
  | type :: rest => type.allowsNull || anyAllowsNull rest
  termination_by structural types => types

end

def isIntersection : DeclaredType → Bool
  | .intersection _ => true
  | _ => false

mutual

/-- The type as it is written. Intersections inside unions stand in parentheses. -/
def render : DeclaredType → String
  | .named name _ => name
  | .nullable inner => "?" ++ inner.render
  | .union members => "|".intercalate (renderMembers members)
  | .intersection members => "&".intercalate (renderAll members)
  termination_by structural type => type

/-- The members of a union. -/
def renderMembers : List DeclaredType → List String
  | [] => []
  | type :: rest =>
      (if type.isIntersection then "(" ++ type.render ++ ")" else type.render)
        :: renderMembers rest
  termination_by structural types => types

def renderAll : List DeclaredType → List String
  | [] => []
  | type :: rest => type.render :: renderAll rest
  termination_by structural types => types

end

end DeclaredType

end StaticReflection
