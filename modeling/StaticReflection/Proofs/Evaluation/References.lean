import StaticReflection.Proofs.Evaluation.Derivation

namespace StaticReflection

/-! Where in an expression the references to constants stand, and what they refer to. -/

/-- A node is another one or stands somewhere below it. -/
def Scope.Below (scope : Scope) : NodeId → NodeId → Prop :=
  Relation.ReflTransGen fun outer inner => inner ∈ scope.arena.children outer

theorem Scope.Below.child {scope : Scope} {node inner : NodeId} {syntaxNode : Node}
    (stands : scope.node? node = some syntaxNode) (child : inner ∈ syntaxNode.children) :
    scope.Below node inner := by
  refine .single ?_
  have found : scope.arena.node? node = some syntaxNode := stands
  simpa [Arena.children, found] using child

namespace Setting

open Evaluation

/-- A computed text is the name of a constant. -/
inductive Names (setting : Setting) (scope : Scope) (node : NodeId) (text : String)
    (constant : ConstantInfo) : Prop
  | global :
      splitMember? text.toList = none →
      setting.index.constant? (stripSeparator text) = some constant →
      Names setting scope node text constant
  | member {ownerText nameText : List Char} {owner : String} {info : ClassInfo} :
      splitMember? text.toList = some (ownerText, nameText) →
      ownerOfText scope node (String.ofList ownerText) = .ok owner →
      setting.index.class? (stripSeparator owner) = some info →
      setting.finds info (String.ofList nameText) (some constant) →
      Names setting scope node text constant

/-- A node is a reference to a constant: by its name, as the constant of a class, as the
value behind an enumeration case, or by a text given to `constant`. -/
inductive Site (setting : Setting) (scope : Scope) (node : NodeId)
    (constant : ConstantInfo) : Prop
  | name {name : String} :
      scope.node? node = some (.constFetch name) →
      (scope.resolver.constantCandidates name).findSome? setting.index.constant? =
        some constant →
      Site setting scope node constant
  | member {ownerNode : NodeId} {name written owner : String} {info : ClassInfo} :
      scope.node? node = some (.classConstFetch ownerNode name) →
      scope.node? ownerNode = some (.nameRef written) →
      scope.classNamed written node = .ok owner →
      setting.index.class? (stripSeparator owner) = some info →
      setting.finds info name (some constant) →
      Site setting scope node constant
  | caseValue {object nameNode : NodeId} {nullsafe : Bool} {mode : Mode}
      {owner case : String} {info : ClassInfo} :
      scope.node? node = some (.propertyFetch object nameNode nullsafe) →
      scope.node? nameNode = some (.nameRef "value") →
      setting.Derives scope (expression scope mode object) (.enumCase owner case) →
      setting.index.class? (stripSeparator owner) = some info →
      info.members.constants.find? (.exact case) = some constant →
      constant.isCase = true →
      Site setting scope node constant
  | call {callee : NodeId} {arguments : List NodeId} {name : String} {text : List UInt8} :
      scope.node? node = some (.call callee arguments false) →
      scope.node? callee = some (.nameRef name) →
      callable? setting.index (scope.resolver.functionCandidates name) = some .constant →
      setting.Derives scope (argumentValues scope node .constant arguments)
        [.string text] →
      setting.Names scope node (Utf8.decodeString text) constant →
      Site setting scope node constant

/-- The expression of a constant contains a reference to another one. -/
def Mentions (setting : Setting) (constant other : ConstantInfo) : Prop :=
  ∃ root node, constant.value = some root ∧ constant.scope.Below root node ∧
    setting.Site constant.scope node other

/-! What each rule comes to. -/

section Rules

variable {setting : Setting} {scope : Scope} {α β : Type}

def Only (setting : Setting) (scope : Scope) (plan : Plan α) (P : Event → Prop) : Prop :=
  ∀ event, setting.Meets scope plan event → P event

variable {P : Event → Prop}

theorem Only.pure (value : α) : setting.Only scope (Pure.pure value : Plan α) P :=
  fun _ meets => absurd meets not_meets_pure

theorem Only.done {result : Except ReflectionError α}
    (holds : ∀ error, result = .error error → P (.failure error)) :
    setting.Only scope (.done result) P := by
  intro event meets
  obtain ⟨error, failed, rfl⟩ := meets_done meets
  exact holds error failed

theorem Only.fail {error : ReflectionError} (holds : P (.failure error)) :
    setting.Only scope (Plan.fail error : Plan α) P := by
  refine .done fun thrown failed => ?_
  cases failed
  exact holds

theorem Only.ofFault {node : Option NodeId} {result : Except Fault α}
    (holds : ∀ fault, P (.failure (scope.failure fault node))) :
    setting.Only scope (Plan.ofFault scope node result) P := by
  cases result with
  | ok value => exact .pure value
  | error fault => exact .fail (holds fault)

theorem Only.value {mode : Mode} {node : NodeId} (holds : P (.node mode node)) :
    setting.Only scope (Plan.value mode node) P :=
  fun _ meets => meets_value meets ▸ holds

theorem Only.classNamed (name : String) : setting.Only scope (Plan.classNamed name) P :=
  fun _ meets => absurd meets not_meets_classNamed

theorem Only.member? (info : ClassInfo) (name : String) :
    setting.Only scope (Plan.member? info name) P :=
  fun _ meets => absurd meets not_meets_member?

theorem Only.declared? (name : String) : setting.Only scope (Plan.declared? name) P :=
  fun _ meets => absurd meets not_meets_declared?

theorem Only.index : setting.Only scope Plan.index P :=
  fun _ meets => absurd meets not_meets_index

theorem Only.platform : setting.Only scope Plan.platform P :=
  fun _ meets => absurd meets not_meets_platform

theorem Only.bind {plan : Plan α} {rest : α → Plan β} (first : setting.Only scope plan P)
    (second : ∀ given, setting.Derives scope plan given →
      setting.Only scope (rest given) P) :
    setting.Only scope (plan >>= rest) P := by
  intro event meets
  rcases meets_bind meets with meets | ⟨given, derived, meets⟩
  · exact first event meets
  · exact second given derived event meets

theorem Only.firstDeclared (names : List String) :
    setting.Only scope (names.findSomeM? Plan.declared?) P := by
  induction names with
  | nil => exact .pure none
  | cons name rest ih =>
      refine .bind (.declared? name) fun found _ => ?_
      cases found with
      | some constant => exact .pure _
      | none => exact ih

/-- What the rule for a node comes to: a node below it, the constant that the node refers
to, or a failure that is not about constants which depend on themselves. -/
def Raises (setting : Setting) (scope : Scope) (node : NodeId) : Event → Prop
  | .node _ inner => scope.Below node inner
  | .constant constant root => constant.value = some root ∧ setting.Site scope node constant
  | .failure error => error.Ordinary

variable {node : NodeId}

theorem only_initializer {constant : ConstantInfo} {root : NodeId}
    (stands : constant.value = some root) (site : setting.Site scope node constant) :
    setting.Only scope (Plan.initializer constant root) (setting.Raises scope node) := by
  intro event meets
  rw [meets_initializer meets]
  exact ⟨stands, site⟩

theorem only_backingValue {constant : ConstantInfo} (site : setting.Site scope node constant) :
    setting.Only scope (backingValue constant) (setting.Raises scope node) := by
  unfold backingValue
  split
  · exact only_initializer ‹_› site
  · exact .pure _

theorem only_constantValue {constant : ConstantInfo} (site : setting.Site scope node constant) :
    setting.Only scope (constantValue constant) (setting.Raises scope node) := by
  unfold constantValue
  split
  · exact .pure _
  · split
    · exact only_initializer ‹_› site
    · exact .fail nofun

theorem only_valueOfFirst {names : List String}
    (site : ∀ constant, names.findSome? setting.index.constant? = some constant →
      setting.Site scope node constant) (shown : String) :
    setting.Only scope (valueOfFirst names shown) (setting.Raises scope node) := by
  refine .bind (.firstDeclared names) fun found derived => ?_
  cases found with
  | some constant => exact only_constantValue (site constant (derives_firstDeclared derived).symm)
  | none =>
    refine .bind .platform fun platform _ => ?_
    split
    · exact .pure _
    · exact .fail nofun

theorem only_constantFetch {name : String} (stands : scope.node? node = some (.constFetch name)) :
    setting.Only scope (constantFetch scope name) (setting.Raises scope node) := by
  unfold constantFetch
  split
  · exact .pure _
  · exact only_valueOfFirst (fun _ found => .name stands found) _

theorem only_classConstant {owner name : String}
    (site : ∀ info constant, setting.index.class? (stripSeparator owner) = some info →
      setting.finds info name (some constant) → setting.Site scope node constant) :
    setting.Only scope (classConstant owner name) (setting.Raises scope node) := by
  refine .bind (.classNamed owner) fun info known => ?_
  refine .bind (.member? info name) fun found derived => ?_
  cases found with
  | some constant =>
      exact only_constantValue (site info constant (derives_classNamed.mp known)
        (derives_member?.mp derived))
  | none => exact .fail nofun

theorem classNamed_ordinary {written : String} {at_ : NodeId} {error : ReflectionError}
    (failed : scope.classNamed written at_ = .error error) : error.Ordinary := by
  unfold Scope.classNamed at failed
  grind [ReflectionError.Ordinary, Scope.failure]

theorem ownerOfText_ordinary {text : String} {at_ : NodeId} {error : ReflectionError}
    (failed : ownerOfText scope at_ text = .error error) : error.Ordinary := by
  unfold ownerOfText at failed
  dsimp only at failed
  split at failed
  · exact classNamed_ordinary failed
  · cases failed

theorem only_classConstFetch {ownerNode : NodeId} {name : String}
    (stands : scope.node? node = some (.classConstFetch ownerNode name)) :
    setting.Only scope (classConstFetch scope node ownerNode name)
      (setting.Raises scope node) := by
  unfold classConstFetch
  split
  · rename_i written writtenStands
    refine .bind (.done fun _ => classNamed_ordinary) fun owner derived => ?_
    split
    · exact .pure _
    · exact only_classConstant fun info constant known found =>
        .member stands writtenStands (derives_done.mp derived) known found
  · exact .fail nofun

theorem only_constantByText {text : String}
    (site : ∀ constant, setting.Names scope node text constant →
      setting.Site scope node constant) :
    setting.Only scope (constantByText scope node text) (setting.Raises scope node) := by
  unfold constantByText
  split
  · rename_i ownerText nameText parts
    refine .bind (.done fun _ => ownerOfText_ordinary) fun owner derived => ?_
    exact only_classConstant fun info constant known found =>
      site constant (.member parts (derives_done.mp derived) known found)
  · rename_i parts
    dsimp only
    split
    · exact .pure _
    · refine only_valueOfFirst (fun constant found => site constant (.global parts ?_)) _
      obtain ⟨name, member, known⟩ := List.exists_of_findSome?_eq_some found
      cases List.mem_singleton.mp member
      exact known

theorem only_addElement {item : NodeId} {element : ArrayElement}
    (stands : scope.node? item = some (.arrayItem element)) (below : scope.Below node item)
    (items : KeyedArray Value) :
    setting.Only scope (addElement scope item element items) (setting.Raises scope node) := by
  have inner : ∀ inner ∈ (Node.arrayItem element).children, scope.Below node inner :=
    fun inner child => below.trans (Scope.Below.child stands child)
  have valueBelow : scope.Below node element.value := inner _ (by simp [Node.children])
  unfold addElement
  split
  · exact .fail nofun
  · split
    · refine .bind (.value valueBelow) fun given _ => ?_
      split
      · exact .ofFault fun _ => nofun
      · exact .fail nofun
    · split
      · refine .bind (.value valueBelow) fun given _ => ?_
        split
        · exact .pure _
        · exact .fail nofun
      · rename_i keyNode keyGiven
        refine .bind (.value (inner keyNode (by simp [Node.children, keyGiven]))) fun key _ => ?_
        split
        · exact .bind (.value valueBelow) fun _ _ => .pure _
        · exact .fail nofun

theorem only_addElements (slots : List (Option NodeId)) (items : KeyedArray Value)
    (below : ∀ item, some item ∈ slots → scope.Below node item) :
    setting.Only scope (addElements scope slots items) (setting.Raises scope node) := by
  induction slots generalizing items with
  | nil => exact .pure items
  | cons slot rest ih =>
      unfold addElements
      split
      · rename_i element item stands
        refine .bind (only_addElement (by simpa using stands) (below item (by simp)) items)
          fun added _ => ?_
        exact ih added fun item member => below item (List.mem_cons_of_mem _ member)
      · exact .fail nofun

theorem only_propertyOf {object nameNode : NodeId} {nullsafe : Bool} {mode : Mode}
    {value : Value} (stands : scope.node? node = some (.propertyFetch object nameNode nullsafe))
    (derived : setting.Derives scope (expression scope mode object) value) :
    setting.Only scope (propertyOf scope node nameNode value) (setting.Raises scope node) := by
  unfold propertyOf
  split
  · exact .pure _
  · rename_i owner case nameStands
    refine .bind (.classNamed owner) fun info known => ?_
    split
    · rename_i constant _ found _
      obtain ⟨found, isCase⟩ := Option.filter_eq_some_iff.mp found
      exact only_backingValue
        (.caseValue stands nameStands derived (derives_classNamed.mp known) found isCase)
    · exact .fail nofun
  · exact .fail nofun
  · exact .fail nofun
  · exact .fail nofun

theorem only_fillSlots (function : PureFunction) (arguments : List NodeId) (slots : Slots)
    (below : ∀ argument ∈ arguments, scope.Below node argument) :
    setting.Only scope (fillSlots scope function arguments slots)
      (setting.Raises scope node) := by
  induction arguments generalizing slots with
  | nil => exact .pure slots
  | cons argument rest ih =>
      unfold fillSlots
      split
      · rename_i name valueNode spread stands
        have valueBelow : scope.Below node valueNode :=
          (below argument (by simp)).trans (Scope.Below.child stands (by simp [Node.children]))
        refine .bind (.value valueBelow) fun given _ => ?_
        refine .bind (.ofFault fun _ => nofun) fun filled _ => ?_
        exact ih filled fun argument member => below argument (List.mem_cons_of_mem _ member)
      · exact .fail nofun

theorem only_call {callee : NodeId} {arguments : List NodeId}
    (stands : scope.node? node = some (.call callee arguments false)) :
    setting.Only scope (call scope node callee arguments) (setting.Raises scope node) := by
  unfold call
  split
  · rename_i name calleeStands
    refine .bind .index fun index known => ?_
    cases derives_index known
    split
    · exact .fail nofun
    · rename_i function callable
      have argumentsOnly : setting.Only scope (argumentValues scope node function arguments)
          (setting.Raises scope node) :=
        .bind (only_fillSlots function arguments {} fun argument member =>
          .child stands (by simp [Node.children, member])) fun _ _ => .ofFault fun _ => nofun
      refine .bind argumentsOnly fun values derived => ?_
      split
      · rename_i isConstant
        subst isConstant
        unfold constantCall
        split
        · exact only_constantByText fun constant names =>
            .call stands calleeStands callable derived names
        · exact .fail nofun
        · exact .fail nofun
      · exact .bind .platform fun _ _ => .ofFault fun _ => nofun
  · exact .fail nofun

theorem only_binary {op : TokenKind} {left right : NodeId}
    (leftBelow : scope.Below node left) (rightBelow : scope.Below node right) :
    setting.Only scope (binary scope node op left right) (setting.Raises scope node) := by
  have both : ∀ rest : Value → Value → Plan Value,
      (∀ first second, setting.Only scope (rest first second) (setting.Raises scope node)) →
      setting.Only scope (do
        let first ← Plan.value .strict left
        let second ← Plan.value .strict right
        rest first second) (setting.Raises scope node) :=
    fun rest last => .bind (.value leftBelow) fun _ _ => .bind (.value rightBelow) fun _ _ =>
      last _ _
  unfold binary
  split
  · refine .bind (.value leftBelow) fun _ _ => ?_
    split
    · exact .bind (.value rightBelow) fun _ _ => .pure _
    · exact .pure _
  · refine .bind (.value leftBelow) fun _ _ => ?_
    split
    · exact .bind (.value rightBelow) fun _ _ => .pure _
    · exact .pure _
  · refine .bind (.value leftBelow) fun _ _ => ?_
    split
    · exact .pure _
    · exact .bind (.value rightBelow) fun _ _ => .pure _
  · refine .bind (.value leftBelow) fun _ _ => ?_
    split
    · exact .pure _
    · exact .bind (.value rightBelow) fun _ _ => .pure _
  · refine .bind (.value leftBelow) fun _ _ => ?_
    split
    · exact .value rightBelow
    · exact .pure _
  · exact .fail nofun
  · exact both _ fun _ _ => .ofFault fun _ => nofun

theorem only_ternary {condition whenFalse : NodeId} {whenTrue : Option NodeId}
    (stands : scope.node? node = some (.ternary condition whenTrue whenFalse)) :
    setting.Only scope (ternary condition whenTrue whenFalse) (setting.Raises scope node) := by
  have inner : ∀ inner ∈ (Node.ternary condition whenTrue whenFalse).children,
      scope.Below node inner :=
    fun inner child => .child stands child
  refine .bind (.value (inner condition (by simp [Node.children]))) fun chosen _ => ?_
  split
  · rename_i whenTrue _
    exact .value (inner whenTrue (by simp [Node.children]))
  · exact .pure _
  · exact .value (inner whenFalse (by simp [Node.children]))

theorem only_expression (scope : Scope) (mode : Mode) (node : NodeId) :
    setting.Only scope (expression scope mode node) (setting.Raises scope node) := by
  unfold expression
  split
  · exact .fail nofun
  · exact .pure _
  · exact .pure _
  · exact .pure _
  · rename_i slots _ stands
    refine .bind (only_addElements slots {} fun item member => ?_) fun _ _ => .pure _
    exact .child stands (by simpa [Node.children] using member)
  · rename_i op operand stands
    unfold unary
    split
    · exact .bind (.value (.child stands (by simp [Node.children]))) fun _ _ =>
        .ofFault fun _ => nofun
    · exact .fail nofun
  · rename_i op left right stands
    exact only_binary (.child stands (by simp [Node.children]))
      (.child stands (by simp [Node.children]))
  · exact only_ternary ‹_›
  · exact only_constantFetch ‹_›
  · exact only_classConstFetch ‹_›
  · exact .pure _
  · exact .fail nofun
  · rename_i object dim stands
    refine .bind (.value (.child stands (by simp [Node.children]))) fun _ _ => ?_
    exact .bind (.value (.child stands (by simp [Node.children]))) fun _ _ =>
      .ofFault fun _ => nofun
  · rename_i object name nullsafe stands
    refine .bind (.value (.child stands (by simp [Node.children]))) fun owner derived => ?_
    split
    · exact .pure _
    · exact only_propertyOf stands (derives_value.mp derived)
  · exact only_call ‹_›
  · exact .fail nofun

end Rules

/-- What the evaluation of a node comes to need, a node below it refers to. -/
theorem Reaches.site {setting : Setting} {scope : Scope} {mode : Mode} {root : NodeId}
    {constant : ConstantInfo} (reaches : setting.Reaches scope mode root constant) :
    ∃ node, scope.Below root node ∧ setting.Site scope node constant := by
  induction reaches with
  | now meets => exact ⟨_, .refl, (only_expression scope _ _ _ meets).2⟩
  | nested meets _ ih =>
      obtain ⟨node, below, site⟩ := ih
      exact ⟨node, Relation.ReflTransGen.trans (only_expression scope _ _ _ meets) below, site⟩

theorem Refers.mentions {setting : Setting} {constant other : ConstantInfo}
    (refers : setting.Refers constant other) : setting.Mentions constant other := by
  obtain ⟨root, stands, reaches⟩ := refers
  obtain ⟨node, below, site⟩ := reaches.site
  exact ⟨root, node, stands, below, site⟩

/-- A constant is asked for with the node where its expression stands. -/
def Event.Proper : Event → Prop
  | .constant asked root => asked.value = some root
  | _ => True

theorem proper_expression (setting : Setting) (scope : Scope) (mode : Mode) (node : NodeId) :
    setting.Only scope (expression scope mode node) Event.Proper := by
  intro event meets
  have raises := only_expression scope mode node event meets
  cases event with
  | constant => exact raises.1
  | _ => trivial

/-- An expression that comes to a value needs no constant that goes on without an end. -/
theorem Derives.accessible {setting : Setting} (functional : setting.Functional)
    {scope : Scope} {α : Type} {plan : Plan α} {value : α}
    (derived : setting.Derives scope plan value)
    (proper : setting.Only scope plan Event.Proper) {constant : ConstantInfo}
    (demands : setting.Demands scope plan constant) :
    Acc (fun inner outer => setting.Refers outer inner) constant := by
  induction derived generalizing constant with
  | done => exact absurd demands not_demands_done
  | @node scope _ mode node next _ _ given rest ihGiven ihRest =>
      have parts : setting.Demands scope (Plan.value mode node >>= next) constant := demands
      rcases demands_bind.mp parts with here | ⟨other, again, demands⟩
      · exact ihGiven (proper_expression _ _ _ _)
          (demands_expression.mpr (demands_value.mp here))
      · cases given.unique functional (derives_value.mp again)
        exact ihRest (fun _ meets => proper _ (.afterNode given meets)) demands
  | @constant scope _ asked node next _ _ given rest ihGiven ihRest =>
      have parts : setting.Demands scope (Plan.initializer asked node >>= next) constant := demands
      rcases demands_bind.mp parts with here | ⟨other, again, demands⟩
      · cases demands_initializer.mp here
        constructor
        rintro inner ⟨root, stands, reaches⟩
        cases stands.symm.trans (proper _ .constant)
        exact ihGiven (proper_expression _ _ _ _) (demands_expression.mpr reaches)
      · cases given.unique functional (derives_initializer.mp again)
        exact ihRest (fun _ meets => proper _ (.afterConstant given meets)) demands
  | @named scope _ name next _ _ known rest ih =>
      have parts : setting.Demands scope (Plan.classNamed name >>= next) constant := demands
      rcases demands_bind.mp parts with here | ⟨other, again, demands⟩
      · exact absurd here (not_demands_of_not_meets not_meets_classNamed)
      · cases known.symm.trans (derives_classNamed.mp again)
        exact ih (fun _ meets => proper _ (.afterNamed known meets)) demands
  | @member scope _ info name next _ _ found rest ih =>
      have parts : setting.Demands scope (Plan.member? info name >>= next) constant := demands
      rcases demands_bind.mp parts with here | ⟨other, again, demands⟩
      · exact absurd here (not_demands_of_not_meets not_meets_member?)
      · cases functional _ _ _ _ found (derives_member?.mp again)
        exact ih (fun _ meets => proper _ (.afterMember found meets)) demands
  | @declared scope _ name next _ rest ih =>
      have parts : setting.Demands scope (Plan.declared? name >>= next) constant := demands
      rcases demands_bind.mp parts with here | ⟨other, again, demands⟩
      · exact absurd here (not_demands_of_not_meets not_meets_declared?)
      · cases derives_declared?.mp again
        exact ih (fun _ meets => proper _ (.afterDeclared meets)) demands
  | index rest ih =>
      refine ih (fun _ meets => proper _ (.afterIndex meets)) ?_
      rcases demands with ⟨root, meets⟩ | ⟨mode, node, meets, reaches⟩
      · cases meets with
        | afterIndex meets => exact .inl ⟨root, meets⟩
      · cases meets with
        | afterIndex meets => exact .inr ⟨mode, node, meets, reaches⟩
  | platform rest ih =>
      refine ih (fun _ meets => proper _ (.afterPlatform meets)) ?_
      rcases demands with ⟨root, meets⟩ | ⟨mode, node, meets, reaches⟩
      · cases meets with
        | afterPlatform meets => exact .inl ⟨root, meets⟩
      · cases meets with
        | afterPlatform meets => exact .inr ⟨mode, node, meets, reaches⟩

theorem Evaluates.accessible {setting : Setting} (functional : setting.Functional)
    {constant : ConstantInfo} {value : Value} (evaluates : setting.Evaluates constant value) :
    Acc (fun inner outer => setting.Refers outer inner) constant := by
  obtain ⟨node, stands, derived⟩ := evaluates
  constructor
  rintro inner ⟨root, rootStands, reaches⟩
  cases rootStands.symm.trans stands
  exact derived.accessible functional (proper_expression _ _ _ _)
    (demands_expression.mpr reaches)

theorem not_cyclic_of_accessible {setting : Setting} {constant : ConstantInfo}
    (accessible : Acc (fun inner outer => setting.Refers outer inner) constant) :
    ¬ Relation.TransGen setting.Refers constant constant := by
  induction accessible with
  | intro constant _ ih =>
      intro cycle
      obtain ⟨inner, first, rest⟩ := Relation.TransGen.head'_iff.mp cycle
      exact ih inner first (Relation.TransGen.tail' rest first)

theorem Evaluates.acyclic {setting : Setting} (functional : setting.Functional)
    {constant : ConstantInfo} {value : Value} (evaluates : setting.Evaluates constant value) :
    ¬ Relation.TransGen setting.Refers constant constant :=
  not_cyclic_of_accessible (evaluates.accessible functional)

theorem Derives.acyclic {setting : Setting} (functional : setting.Functional) {scope : Scope}
    {α : Type} {plan : Plan α} {value : α} (derived : setting.Derives scope plan value)
    (proper : setting.Only scope plan Event.Proper) {constant : ConstantInfo}
    (depends : setting.Depends scope plan constant) :
    ¬ Relation.TransGen setting.Refers constant constant := by
  obtain ⟨first, demands, reached⟩ := depends
  have accessible := derived.accessible functional proper demands
  refine not_cyclic_of_accessible ?_
  induction reached with
  | refl => exact accessible
  | tail _ last ih => exact ih.inv last

theorem Evaluates.unique {setting : Setting} (functional : setting.Functional)
    {constant : ConstantInfo} {first second : Value}
    (evaluates : setting.Evaluates constant first)
    (again : setting.Evaluates constant second) : first = second := by
  obtain ⟨node, stands, derived⟩ := evaluates
  obtain ⟨root, rootStands, derivedAgain⟩ := again
  cases rootStands.symm.trans stands
  exact derived.unique functional derivedAgain

end Setting

end StaticReflection
