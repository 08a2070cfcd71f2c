import StaticReflection.Proofs.Parser.Arenas
import StaticReflection.Source.Entity

namespace StaticReflection

/-! Nodes of two arenas that stand for the same tree. The numbers of the nodes do not matter. -/

def NamespaceDecl.map (f : NodeId → NodeId) (decl : NamespaceDecl) : NamespaceDecl :=
  { decl with statements := decl.statements.map f }

def ClassDecl.map (f : NodeId → NodeId) (decl : ClassDecl) : ClassDecl :=
  { decl with
    backingType := decl.backingType.map f
    members := decl.members.map f }

def MemberGroup.map (f : NodeId → NodeId) (group : MemberGroup) : MemberGroup :=
  { group with
    type := group.type.map f
    declarators := group.declarators.map f }

def StaticVariable.map (f : NodeId → NodeId) (static : StaticVariable) : StaticVariable :=
  { static with initializer := static.initializer.map f }

def FunctionDecl.map (f : NodeId → NodeId) (decl : FunctionDecl) : FunctionDecl :=
  { decl with
    parameters := decl.parameters.map f
    returnType := decl.returnType.map f
    statics := decl.statics.map (·.map f) }

def ParameterDecl.map (f : NodeId → NodeId) (decl : ParameterDecl) : ParameterDecl :=
  { decl with
    type := decl.type.map f
    default := decl.default.map f }

def ArrayElement.map (f : NodeId → NodeId) (element : ArrayElement) : ArrayElement :=
  { element with
    key := element.key.map f
    value := f element.value }

namespace Node

/-- The node with other children. -/
def map (f : NodeId → NodeId) : Node → Node
  | .sourceFile path statements => .sourceFile path (statements.map f)
  | .namespaceDecl decl => .namespaceDecl (decl.map f)
  | .imports items => .imports items
  | .classLike decl => .classLike (decl.map f)
  | .classConst group => .classConst (group.map f)
  | .constDeclarator name value => .constDeclarator name (f value)
  | .property group => .property (group.map f)
  | .propertyDeclarator name default => .propertyDeclarator name (default.map f)
  | .method decl => .method (decl.map f)
  | .function decl => .function (decl.map f)
  | .parameter decl => .parameter (decl.map f)
  | .traitUse traits => .traitUse traits
  | .enumCase name value doc => .enumCase name (value.map f) doc
  | .constStatement declarators doc => .constStatement (declarators.map f) doc
  | .expressionStatement expression => .expressionStatement (f expression)
  | .skipped firstToken => .skipped firstToken
  | .namedType name => .namedType name
  | .nullableType inner => .nullableType (f inner)
  | .unionType types => .unionType (types.map f)
  | .intersectionType types => .intersectionType (types.map f)
  | .intLiteral value => .intLiteral value
  | .floatLiteral value => .floatLiteral value
  | .stringLiteral bytes => .stringLiteral bytes
  | .interpolatedString body => .interpolatedString body
  | .arrayLiteral items bracketed => .arrayLiteral (items.map (·.map f)) bracketed
  | .arrayItem element => .arrayItem (element.map f)
  | .unary op operand => .unary op (f operand)
  | .postfixUnary op operand => .postfixUnary op (f operand)
  | .binary op left right => .binary op (f left) (f right)
  | .ternary condition whenTrue whenFalse =>
      .ternary (f condition) (whenTrue.map f) (f whenFalse)
  | .assign op target value byRef => .assign op (f target) (f value) byRef
  | .nameRef name => .nameRef name
  | .constFetch name => .constFetch name
  | .classConstFetch owner name => .classConstFetch (f owner) name
  | .magicConst kind => .magicConst kind
  | .variableRef name => .variableRef name
  | .argument name value spread => .argument name (f value) spread
  | .call callee arguments callable => .call (f callee) (arguments.map f) callable
  | .newObject owner arguments => .newObject (f owner) (arguments.map f)
  | .propertyFetch object name nullsafe => .propertyFetch (f object) (f name) nullsafe
  | .staticPropertyFetch owner name => .staticPropertyFetch (f owner) name
  | .methodCall object name arguments nullsafe =>
      .methodCall (f object) (f name) (arguments.map f) nullsafe
  | .staticCall owner name arguments => .staticCall (f owner) (f name) (arguments.map f)
  | .dimFetch object dim => .dimFetch (f object) (dim.map f)
  | .cast type operand => .cast type (f operand)
  | .closure isArrow isStatic parameters returnType =>
      .closure isArrow isStatic (parameters.map f) (returnType.map f)
  | .matchExpr subject arms => .matchExpr (f subject) (arms.map f)
  | .matchArm conditions body => .matchArm (conditions.map f) (f body)
  | .keywordExpr keyword operand key => .keywordExpr keyword (operand.map f) (key.map f)
  | .missing => .missing

end Node

namespace Arena

variable {first second : Arena} {id idToo : NodeId} {entities : Entities}

/-- Two nodes are of one kind with the same data, and so are their children, one by one. -/
inductive Alike (first second : Arena) : NodeId → NodeId → Prop
  | node {id idToo : NodeId} {node : Node} (f : NodeId → NodeId) :
      first.node? id = some node →
      second.node? idToo = some (node.map f) →
      (∀ child ∈ node.children, Alike first second child (f child)) →
      Alike first second id idToo

theorem children_eq {node : Node} (here : first.node? id = some node) :
    first.children id = node.children := by
  rw [children, here]
  rfl

/-- What stands for the same tree has the same name, if the name is known without evaluation. -/
theorem Alike.staticName?_eq (alike : Alike first second id idToo) (forest : first.Forest)
    (forestToo : second.Forest) {fuel fuelToo : Nat} (enough : id < fuel)
    (enoughToo : idToo < fuelToo) :
    entities.staticName? first fuel id = entities.staticName? second fuelToo idToo := by
  induction alike generalizing fuel fuelToo with
  | @node id idToo node f here there _ ih =>
      obtain ⟨fuel, rfl⟩ := Nat.exists_eq_succ_of_ne_zero (Nat.ne_zero_of_lt enough)
      obtain ⟨fuelToo, rfl⟩ := Nat.exists_eq_succ_of_ne_zero (Nat.ne_zero_of_lt enoughToo)
      unfold Entities.staticName?
      rw [here, there]
      cases node with
      | magicConst kind => cases kind <;> rfl
      | binary op left right =>
          -- The operands are older than the operator, so what is left of the fuel is enough.
          have operand (child : NodeId) (listed : child ∈ [left, right]) :
              entities.staticName? first fuel child =
                entities.staticName? second fuelToo (f child) := by
            have old : child < id := forest.below (by rwa [children_eq here])
            have oldToo : f child < idToo := forestToo.below (by
              rw [children_eq there]
              exact List.mem_map_of_mem listed)
            exact ih child listed (Nat.lt_of_lt_of_le old (Nat.le_of_lt_succ enough))
              (Nat.lt_of_lt_of_le oldToo (Nat.le_of_lt_succ enoughToo))
          cases op with
          | dot =>
              dsimp only [Node.map]
              rw [operand left (by simp), operand right (by simp)]
          | _ => rfl
      | _ => rfl

end Arena

end StaticReflection
