import StaticReflection.Reflection.Reflector

namespace StaticReflection

/-! Members and ancestors of a class. A class comes before its parent, the parent before
the interfaces and those before the traits, each with its own ancestors. The first
declaration of a name counts. A private property or constant is not inherited, but a
trait copies it into the class that uses the trait. -/

/-- A kind of members: where they are kept, how their names are compared, and which of
them are inherited. -/
structure MemberKind (α : Type) where
  table : Members → OrderedMap NameKey α
  key : String → NameKey
  inheritable : α → Bool

def MemberKind.method : MemberKind MethodInfo :=
  ⟨Members.methods, .folded, fun _ => true⟩

def MemberKind.property : MemberKind PropertyInfo :=
  ⟨Members.properties, .exact, fun property => property.modifiers.visibility != .visiblePrivate⟩

def MemberKind.constant : MemberKind ConstantInfo :=
  ⟨Members.constants, .exact, fun constant => constant.modifiers.visibility != .visiblePrivate⟩

namespace MemberKind

variable {α : Type}

def visible (kind : MemberKind α) (inherited : Bool) (member : α) : Bool :=
  !inherited || kind.inheritable member

def own? (kind : MemberKind α) (key : NameKey) (inherited : Bool) (info : ClassInfo) :
    Option α :=
  ((kind.table info.members).find? key).filter (kind.visible inherited)

/-- All members that a class itself declares and that are visible. -/
def own (kind : MemberKind α) (inherited : Bool) (info : ClassInfo) : List (NameKey × α) :=
  (kind.table info.members).entries.filter fun entry => kind.visible inherited entry.2

end MemberKind

namespace Hierarchy

open Query

/-- The part of a chain of classes from a class on, closed by the class again. -/
def cycleFrom? (chain : List String) (name : String) : Option (List String) :=
  match chain.dropWhile fun entry => NameKey.folded entry ≠ NameKey.folded name with
  | [] => none
  | cycle => some (cycle ++ [name])

/-- Fails if a class is on the chain of classes that leads to it. -/
def refuseCycle (info : ClassInfo) : Query Unit := do
  match cycleFrom? (← get).underway.classes info.name with
  | some cycle => throw (.inheritanceCycle cycle)
  | none => pure ()

/-- The failure of a chain of ancestors that is too long. -/
def tooDeep {α : Type} (info : ClassInfo) : Query α := do
  throw (.depthLimit (.ancestors info.name) (← options).maxInheritanceDepth)

/-- Runs a query about the ancestors of a class, which the chain of classes then has. -/
def aboveClass {α : Type} (info : ClassInfo) (query : Query α) : Query α := do
  refuseCycle info
  inside (·.enterClass info.name) (·.leaveClass) query

/-- Visits ancestors until there is an answer. -/
def firstAncestor {α : Type} (visit : ClassInfo → AncestorEdge → Query (Option α)) :
    List (String × AncestorEdge) → Query (Option α)
  | [] => return none
  | (name, edge) :: rest => do
      let ancestor ← classNamed name
      match ← visit ancestor edge with
      | some answer => return some answer
      | none => firstAncestor visit rest

/-- Visits all ancestors, each with the result so far. -/
def foldAncestors {β : Type} (visit : β → ClassInfo → AncestorEdge → Query β) :
    β → List (String × AncestorEdge) → Query β
  | result, [] => return result
  | result, (name, edge) :: rest => do
      let ancestor ← classNamed name
      foldAncestors visit (← visit result ancestor edge) rest

/-- The member of a class with a key. `room` is how far the chain of classes may still
grow. -/
def findMember {α : Type} (kind : MemberKind α) (key : NameKey) :
    Nat → Bool → ClassInfo → Query (Option α)
  | 0, inherited, info =>
      match kind.own? key inherited info with
      | some member => return some member
      | none => do
          refuseCycle info
          tooDeep info
  | room + 1, inherited, info =>
      match kind.own? key inherited info with
      | some member => return some member
      | none =>
          aboveClass info (firstAncestor (fun ancestor edge =>
            findMember kind key room (inherited || edge != .trait) ancestor)
              info.ancestorNames)

/-- Adds the members of a class and of its ancestors to those found before. -/
def collectMembers {α : Type} (kind : MemberKind α) :
    Nat → Bool → OrderedMap NameKey α → ClassInfo → Query (OrderedMap NameKey α)
  | 0, _, _, info => do
      refuseCycle info
      tooDeep info
  | room + 1, inherited, found, info =>
      let found := (kind.own inherited info).foldl (fun found (key, member) =>
        found.insertNew key member) found
      aboveClass info (foldAncestors (fun found ancestor edge =>
        collectMembers kind room (inherited || edge != .trait) found ancestor) found
          info.ancestorNames)

/-- An ancestor, and whether it is reached through traits only. -/
structure Ancestor where
  info : ClassInfo
  onlyByTrait : Bool

/-- Notes an ancestor. One that was found before is noted as reached without traits if
it now is. -/
def noteAncestor (found : OrderedMap NameKey Ancestor) (ancestor : Ancestor) :
    OrderedMap NameKey Ancestor :=
  match found.find? ancestor.info.key with
  | some earlier =>
      found.insert ancestor.info.key
        { earlier with onlyByTrait := earlier.onlyByTrait && ancestor.onlyByTrait }
  | none => found.insertNew ancestor.info.key ancestor

/-- Adds the ancestors of a class to those found before. -/
def collectAncestors :
    Nat → Bool → OrderedMap NameKey Ancestor → ClassInfo →
      Query (OrderedMap NameKey Ancestor)
  | 0, _, _, info => do
      refuseCycle info
      tooDeep info
  | room + 1, byTrait, found, info =>
      aboveClass info (foldAncestors (fun found ancestor edge =>
        let byTrait := byTrait || edge == .trait
        collectAncestors room byTrait (noteAncestor found ⟨ancestor, byTrait⟩) ancestor)
          found info.ancestorNames)

/-- How far the chain of classes may grow. -/
def room : Query Nat := do
  return (← options).maxInheritanceDepth - (← get).underway.classes.length

end Hierarchy

namespace Query

/-- The member of a class with a name, its own or an inherited one. -/
def member? {α : Type} (kind : MemberKind α) (info : ClassInfo) (name : String) :
    Query (Option α) := do
  Hierarchy.findMember kind (kind.key name) (← Hierarchy.room) false info

/-- All members of a class in the order of look-up. -/
def members {α : Type} (kind : MemberKind α) (info : ClassInfo) : Query (List α) := do
  let found ← Hierarchy.collectMembers kind (← Hierarchy.room) false {} info
  return found.values

/-- All ancestors of a class in the order of look-up, each once. -/
def ancestors (info : ClassInfo) : Query (List Hierarchy.Ancestor) := do
  let found ← Hierarchy.collectAncestors (← Hierarchy.room) false {} info
  return found.values

/-- The interfaces of a class and of its ancestors other than traits. -/
def interfaceNames (info : ClassInfo) : Query (List String) := do
  let ancestors ← ancestors info
  return (ancestors.filter fun ancestor =>
    !ancestor.onlyByTrait && ancestor.info.kind == .interface).map (·.info.name)

/-- Whether a class has an ancestor with a name. A class is not its own ancestor. -/
def isSubclass (info : ClassInfo) (name : String) : Query Bool := do
  let key := NameKey.folded (stripSeparator name)
  if info.key = key then return false
  let ancestors ← ancestors info
  return ancestors.any fun ancestor => !ancestor.onlyByTrait && ancestor.info.key == key

/-- Whether a class is an interface with a name or has one as ancestor. -/
def implementsInterface (info : ClassInfo) (name : String) : Query Bool := do
  let key := NameKey.folded (stripSeparator name)
  if info.kind = .interface ∧ info.key = key then return true
  let names ← interfaceNames info
  return names.any fun other => NameKey.folded other == key

/-- The modifiers of a class. One that has an abstract method is abstract. -/
def classModifiers (info : ClassInfo) : Query ClassModifiers := do
  let methods ← members .method info
  return { info.modifiers with
    implicitAbstract := methods.any (·.modifiers.isAbstract) }

def isAbstract (info : ClassInfo) : Query Bool := do
  let modifiers ← classModifiers info
  return modifiers.explicitAbstract || modifiers.implicitAbstract

/-- Whether a class is concrete and its method with a name, if there is one, public. -/
def isOpenClass (info : ClassInfo) (method : String) : Query Bool := do
  if info.kind ≠ .plain then return false
  if ← isAbstract info then return false
  match ← member? .method info method with
  | some method => return method.modifiers.visibility == .visiblePublic
  | none => return true

/-- Whether objects of the class can be made. -/
def isInstantiable (info : ClassInfo) : Query Bool :=
  isOpenClass info "__construct"

/-- Whether objects of the class can be copied. -/
def isCloneable (info : ClassInfo) : Query Bool :=
  isOpenClass info "__clone"

def parent? (info : ClassInfo) : Query (Option ClassInfo) := do
  match info.parent with
  | some parent => return some (← classNamed parent)
  | none => return none

def interfaces (info : ClassInfo) : Query (List ClassInfo) := do
  (← interfaceNames info).mapM classNamed

end Query

end StaticReflection
