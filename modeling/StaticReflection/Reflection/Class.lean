import StaticReflection.Reflection.Member

namespace StaticReflection

/-! Classes, interfaces, traits and enumerations, as declared. -/

/-- How an ancestor is reached from a class. -/
inductive AncestorEdge where
  | parent
  | interface
  | trait
  deriving DecidableEq, Repr

structure ClassInfo where
  id : DeclarationId
  name : String
  kind : ClassKind
  /-- The modifiers that the declaration alone gives. -/
  modifiers : ClassModifiers
  parent : Option String
  /-- The interfaces that a class or enumeration implements, or an interface extends. -/
  interfaces : List String
  traits : List String
  backingType : Option DeclaredType
  node : NodeId
  lines : Nat × Nat
  doc : Option String
  scope : Scope
  members : Members

/-- An enumeration is final in any case. -/
def ClassModifiers.ofDecl (decl : ClassDecl) : ClassModifiers where
  implicitAbstract := false
  explicitAbstract := decl.modifiers.isAbstract
  isFinal := decl.modifiers.isFinal || decl.kind == .enumeration
  isReadonly := decl.modifiers.isReadonly

/-- What the members of a class have in common. -/
structure MemberSite where
  id : DeclarationId
  name : String
  kind : ClassKind
  isReadonly : Bool
  scope : Scope

namespace MemberSite

def method (site : MemberSite) (node : NodeId) (decl : FunctionDecl) : MethodInfo where
  function :=
    .ofDecl { site.scope with function := some decl.name } decl.name
      (site.name ++ "::" ++ decl.name ++ "()") node decl
  owner := site.name
  modifiers := .ofWritten decl.modifiers (site.kind == .interface)

/-- The property that a parameter of the constructor declares. -/
def promotedProperty? (site : MemberSite) (node : NodeId) : Option PropertyInfo :=
  match site.scope.parameter? node with
  | some decl =>
      if decl.isPromoted then
        some
          { name := decl.name
            owner := site.name
            modifiers := .ofWritten decl.modifiers site.isReadonly
            type := site.scope.type? decl.type
            default := none
            isPromoted := true
            doc := decl.doc
            lines := site.scope.lines node
            scope := site.scope }
      else none
  | none => none

/-- The property of one declarator. -/
def property? (site : MemberSite) (group : MemberGroup) (node : NodeId) :
    Option PropertyInfo :=
  match site.scope.node? node with
  | some (.propertyDeclarator name default) =>
      some
        { name
          owner := site.name
          modifiers := .ofWritten group.modifiers site.isReadonly
          type := site.scope.type? group.type
          default
          isPromoted := false
          doc := group.doc
          lines := site.scope.lines node
          scope := site.scope }
  | _ => none

/-- The constant of one declarator. -/
def constant? (site : MemberSite) (group : MemberGroup) (node : NodeId) :
    Option ConstantInfo :=
  match site.scope.node? node with
  | some (.constDeclarator name value) =>
      some
        { id := .member site.id (.exact name)
          name
          owner := some site.name
          value := some value
          modifiers := .ofWritten group.modifiers
          type := site.scope.type? group.type
          isCase := false
          doc := group.doc
          lines := site.scope.lines node
          scope := site.scope }
  | _ => none

def enumCase (site : MemberSite) (node : NodeId) (name : String) (value : Option NodeId)
    (doc : Option String) : ConstantInfo where
  id := .member site.id (.exact name)
  name
  owner := some site.name
  value
  modifiers := .plain
  type := none
  isCase := true
  doc
  lines := site.scope.lines node
  scope := site.scope

/-- Adds what a node of the class body declares. The properties that a constructor
declares come before the constructor is registered. -/
def addMember (site : MemberSite) (members : Members) (node : NodeId) : Members :=
  match site.scope.node? node with
  | some (.method decl) =>
      let method := site.method node decl
      let promoted :=
        if method.isConstructor then decl.parameters.filterMap site.promotedProperty? else []
      (promoted.foldl Members.addProperty members).addMethod method
  | some (.property group) =>
      (group.declarators.filterMap (site.property? group)).foldl Members.addProperty members
  | some (.classConst group) =>
      (group.declarators.filterMap (site.constant? group)).foldl Members.addConstant members
  | some (.enumCase name value doc) => members.addConstant (site.enumCase node name value doc)
  | _ => members

end MemberSite

def usedTraits (place : PlacedBlock) (body : List NodeId) : List String :=
  body.flatMap fun node =>
    match place.file.arena.node? node with
    | some (.traitUse traits) => traits.map place.block.resolver.classNamed
    | _ => []

def ClassInfo.declaredAt? (id : DeclarationId) (place : PlacedBlock) (entry : ClassEntry) :
    Option ClassInfo :=
  match place.file.arena.node? entry.node with
  | some (.classLike decl) =>
      let resolve := place.block.resolver.classNamed
      let parents := decl.parents.map resolve
      let parent := if decl.kind = .interface then none else parents.head?
      let scope : Scope := { place, owner := some ⟨entry.name, decl.kind, parent⟩ }
      let modifiers := ClassModifiers.ofDecl decl
      let site : MemberSite := ⟨id, entry.name, decl.kind, modifiers.isReadonly, scope⟩
      some
        { id
          name := entry.name
          kind := decl.kind
          modifiers
          parent
          interfaces :=
            if decl.kind = .interface then parents else decl.interfaces.map resolve
          traits := usedTraits place decl.members
          backingType := scope.type? decl.backingType
          node := entry.node
          lines := scope.lines entry.node
          doc := decl.doc
          scope
          members := decl.members.foldl site.addMember {} }
  | _ => none

namespace ClassInfo

/-- The direct ancestors in the order of look-up. -/
def ancestorNames (info : ClassInfo) : List (String × AncestorEdge) :=
  info.parent.toList.map (·, .parent) ++ info.interfaces.map (·, .interface)
    ++ info.traits.map (·, .trait)

def key (info : ClassInfo) : NameKey :=
  .folded info.name

/-- The cases of an enumeration in the order of their declaration. -/
def cases (info : ClassInfo) : List ConstantInfo :=
  info.members.constants.values.filter (·.isCase)

def isBacked (info : ClassInfo) : Bool :=
  info.kind == .enumeration && info.backingType.isSome

end ClassInfo

end StaticReflection
