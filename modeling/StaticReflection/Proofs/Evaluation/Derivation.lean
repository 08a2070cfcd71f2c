import Mathlib.Logic.Relation
import StaticReflection.Proofs.Reflection.QueryRuns

namespace StaticReflection

/-! The values of expressions without any memory and without any bound: a reference to a
constant is evaluated from the constant's own expression each time. -/

/-- What decides the values of expressions: the known declarations, the platform, and
which constant a class has under a name. -/
structure Setting where
  index : EntityIndex
  platform : Platform
  finds : ClassInfo → String → Option ConstantInfo → Prop

namespace Setting

open Evaluation

/-- An expression in a scope comes to a value by the rules of its nodes. -/
inductive Derives (setting : Setting) : Scope → {α : Type} → Plan α → α → Prop
  | done {scope : Scope} {α : Type} {value : α} :
      Derives setting scope (.done (.ok value)) value
  | node {scope : Scope} {α : Type} {mode : Mode} {node : NodeId} {next : Value → Plan α}
      {given : Value} {value : α} :
      Derives setting scope (expression scope mode node) given →
      Derives setting scope (next given) value →
      Derives setting scope (.askNode mode node next) value
  | constant {scope : Scope} {α : Type} {constant : ConstantInfo} {node : NodeId}
      {next : Value → Plan α} {given : Value} {value : α} :
      Derives setting constant.scope (expression constant.scope .strict node) given →
      Derives setting scope (next given) value →
      Derives setting scope (.askConstant constant node next) value
  | named {scope : Scope} {α : Type} {name : String} {next : ClassInfo → Plan α}
      {info : ClassInfo} {value : α} :
      setting.index.class? (stripSeparator name) = some info →
      Derives setting scope (next info) value →
      Derives setting scope (.askClass name next) value
  | member {scope : Scope} {α : Type} {info : ClassInfo} {name : String}
      {next : Option ConstantInfo → Plan α} {found : Option ConstantInfo} {value : α} :
      setting.finds info name found →
      Derives setting scope (next found) value →
      Derives setting scope (.askMember info name next) value
  | declared {scope : Scope} {α : Type} {name : String} {next : Option ConstantInfo → Plan α}
      {value : α} :
      Derives setting scope (next (setting.index.constant? name)) value →
      Derives setting scope (.askDeclared name next) value
  | index {scope : Scope} {α : Type} {next : EntityIndex → Plan α} {value : α} :
      Derives setting scope (next setting.index) value →
      Derives setting scope (.askIndex next) value
  | platform {scope : Scope} {α : Type} {next : Platform → Plan α} {value : α} :
      Derives setting scope (next setting.platform) value →
      Derives setting scope (.askPlatform next) value

/-- A class has at most one constant under a name. -/
def Functional (setting : Setting) : Prop :=
  ∀ info name first second, setting.finds info name first → setting.finds info name second →
    first = second

theorem Derives.unique {setting : Setting} (functional : setting.Functional) {scope : Scope}
    {α : Type} {plan : Plan α} {first second : α} (derived : setting.Derives scope plan first)
    (again : setting.Derives scope plan second) : first = second := by
  induction derived with
  | done =>
      cases again
      rfl
  | node _ _ ihGiven ihValue =>
      cases again with
      | node given rest =>
          cases ihGiven given
          exact ihValue rest
  | constant _ _ ihGiven ihValue =>
      cases again with
      | constant given rest =>
          cases ihGiven given
          exact ihValue rest
  | named known _ ih =>
      cases again with
      | named knownAgain rest =>
          cases Option.some.inj (known.symm.trans knownAgain)
          exact ih rest
  | member found _ ih =>
      cases again with
      | member foundAgain rest =>
          cases functional _ _ _ _ found foundAgain
          exact ih rest
  | declared _ ih =>
      cases again with
      | declared rest => exact ih rest
  | index _ ih =>
      cases again with
      | index rest => exact ih rest
  | platform _ ih =>
      cases again with
      | platform rest => exact ih rest

/-! What comes up on the way. -/

/-- What a plan comes to: a question that leads to another expression, or a failure of
its own. -/
inductive Event where
  | node (mode : Mode) (node : NodeId)
  | constant (constant : ConstantInfo) (node : NodeId)
  | failure (error : ReflectionError)

/-- A plan comes to an event, all earlier questions having their derived answers. -/
inductive Meets (setting : Setting) : Scope → {α : Type} → Plan α → Event → Prop
  | failure {scope : Scope} {α : Type} {error : ReflectionError} :
      Meets setting scope (.done (.error error) : Plan α) (.failure error)
  | node {scope : Scope} {α : Type} {mode : Mode} {node : NodeId} {next : Value → Plan α} :
      Meets setting scope (.askNode mode node next) (.node mode node)
  | constant {scope : Scope} {α : Type} {constant : ConstantInfo} {node : NodeId}
      {next : Value → Plan α} :
      Meets setting scope (.askConstant constant node next) (.constant constant node)
  | afterNode {scope : Scope} {α : Type} {mode : Mode} {node : NodeId}
      {next : Value → Plan α} {given : Value} {event : Event} :
      setting.Derives scope (expression scope mode node) given →
      Meets setting scope (next given) event →
      Meets setting scope (.askNode mode node next) event
  | afterConstant {scope : Scope} {α : Type} {constant : ConstantInfo} {node : NodeId}
      {next : Value → Plan α} {given : Value} {event : Event} :
      setting.Derives constant.scope (expression constant.scope .strict node) given →
      Meets setting scope (next given) event →
      Meets setting scope (.askConstant constant node next) event
  | afterNamed {scope : Scope} {α : Type} {name : String} {next : ClassInfo → Plan α}
      {info : ClassInfo} {event : Event} :
      setting.index.class? (stripSeparator name) = some info →
      Meets setting scope (next info) event →
      Meets setting scope (.askClass name next) event
  | afterMember {scope : Scope} {α : Type} {info : ClassInfo} {name : String}
      {next : Option ConstantInfo → Plan α} {found : Option ConstantInfo}
      {event : Event} :
      setting.finds info name found →
      Meets setting scope (next found) event →
      Meets setting scope (.askMember info name next) event
  | afterDeclared {scope : Scope} {α : Type} {name : String}
      {next : Option ConstantInfo → Plan α} {event : Event} :
      Meets setting scope (next (setting.index.constant? name)) event →
      Meets setting scope (.askDeclared name next) event
  | afterIndex {scope : Scope} {α : Type} {next : EntityIndex → Plan α}
      {event : Event} :
      Meets setting scope (next setting.index) event →
      Meets setting scope (.askIndex next) event
  | afterPlatform {scope : Scope} {α : Type} {next : Platform → Plan α}
      {event : Event} :
      Meets setting scope (next setting.platform) event →
      Meets setting scope (.askPlatform next) event

/-- The evaluation of a node comes to need the value of a constant's expression, at the
node itself or at one that is asked for on the way. -/
inductive Reaches (setting : Setting) (scope : Scope) : Mode → NodeId → ConstantInfo → Prop
  | now {mode : Mode} {node root : NodeId} {constant : ConstantInfo} :
      setting.Meets scope (expression scope mode node) (.constant constant root) →
      Reaches setting scope mode node constant
  | nested {mode innerMode : Mode} {node inner : NodeId} {constant : ConstantInfo} :
      setting.Meets scope (expression scope mode node) (.node innerMode inner) →
      Reaches setting scope innerMode inner constant →
      Reaches setting scope mode node constant

/-- A plan comes to need the value of a constant's expression. -/
def Demands {α : Type} (setting : Setting) (scope : Scope) (plan : Plan α)
    (constant : ConstantInfo) : Prop :=
  (∃ root, setting.Meets scope plan (.constant constant root)) ∨
    ∃ mode node, setting.Meets scope plan (.node mode node) ∧
      setting.Reaches scope mode node constant

theorem demands_expression {setting : Setting} {scope : Scope} {mode : Mode} {node : NodeId}
    {constant : ConstantInfo} :
    setting.Demands scope (expression scope mode node) constant ↔
      setting.Reaches scope mode node constant := by
  constructor
  · rintro (⟨root, meets⟩ | ⟨innerMode, inner, meets, reaches⟩)
    · exact .now meets
    · exact .nested meets reaches
  · rintro (⟨meets⟩ | ⟨meets, reaches⟩)
    · exact .inl ⟨_, meets⟩
    · exact .inr ⟨_, _, meets, reaches⟩

/-- A constant's own expression comes to a value. -/
def Evaluates (setting : Setting) (constant : ConstantInfo) (value : Value) : Prop :=
  ∃ node, constant.value = some node ∧
    setting.Derives constant.scope (expression constant.scope .strict node) value

/-- The evaluation of a constant's expression comes to need another constant's. -/
def Refers (setting : Setting) (constant other : ConstantInfo) : Prop :=
  ∃ node, constant.value = some node ∧
    setting.Reaches constant.scope .strict node other

/-- A plan needs a constant, directly or through other constants. -/
def Depends {α : Type} (setting : Setting) (scope : Scope) (plan : Plan α)
    (constant : ConstantInfo) : Prop :=
  ∃ first, setting.Demands scope plan first ∧
    Relation.ReflTransGen setting.Refers first constant

/-! Derivations and events of plans that are put together. -/

section Parts

variable {setting : Setting} {scope : Scope} {α β : Type}

theorem derives_bind {plan : Plan α} {rest : α → Plan β} {value : β} :
    setting.Derives scope (plan >>= rest) value ↔
      ∃ given, setting.Derives scope plan given ∧
        setting.Derives scope (rest given) value := by
  constructor
  · intro derived
    induction plan with
    | done result =>
        cases result with
        | ok given => exact ⟨given, .done, derived⟩
        | error error => cases derived
    | askNode mode node next ih =>
        cases derived with
        | node given derived =>
            obtain ⟨middle, first, second⟩ := ih _ derived
            exact ⟨middle, .node given first, second⟩
    | askConstant constant node next ih =>
        cases derived with
        | constant given derived =>
            obtain ⟨middle, first, second⟩ := ih _ derived
            exact ⟨middle, .constant given first, second⟩
    | askClass name next ih =>
        cases derived with
        | named known derived =>
            obtain ⟨middle, first, second⟩ := ih _ derived
            exact ⟨middle, .named known first, second⟩
    | askMember info name next ih =>
        cases derived with
        | member found derived =>
            obtain ⟨middle, first, second⟩ := ih _ derived
            exact ⟨middle, .member found first, second⟩
    | askDeclared name next ih =>
        cases derived with
        | declared derived =>
            obtain ⟨middle, first, second⟩ := ih _ derived
            exact ⟨middle, .declared first, second⟩
    | askIndex next ih =>
        cases derived with
        | index derived =>
            obtain ⟨middle, first, second⟩ := ih _ derived
            exact ⟨middle, .index first, second⟩
    | askPlatform next ih =>
        cases derived with
        | platform derived =>
            obtain ⟨middle, first, second⟩ := ih _ derived
            exact ⟨middle, .platform first, second⟩
  · rintro ⟨given, first, second⟩
    induction first with
    | done => exact second
    | node given _ _ ih => exact .node given (ih second)
    | constant given _ _ ih => exact .constant given (ih second)
    | named known _ ih => exact .named known (ih second)
    | member found _ ih => exact .member found (ih second)
    | declared _ ih => exact .declared (ih second)
    | index _ ih => exact .index (ih second)
    | platform _ ih => exact .platform (ih second)

theorem meets_bind {plan : Plan α} {rest : α → Plan β} {event : Event}
    (meets : setting.Meets scope (plan >>= rest) event) :
    setting.Meets scope plan event ∨
      ∃ given, setting.Derives scope plan given ∧
        setting.Meets scope (rest given) event := by
  induction plan with
  | done result =>
      cases result with
      | ok given => exact .inr ⟨given, .done, meets⟩
      | error error =>
          cases meets
          exact .inl .failure
  | askNode mode node next ih =>
      cases meets with
      | node => exact .inl .node
      | afterNode given meets =>
          rcases ih _ meets with first | ⟨middle, first, second⟩
          · exact .inl (.afterNode given first)
          · exact .inr ⟨middle, .node given first, second⟩
  | askConstant constant node next ih =>
      cases meets with
      | constant => exact .inl .constant
      | afterConstant given meets =>
          rcases ih _ meets with first | ⟨middle, first, second⟩
          · exact .inl (.afterConstant given first)
          · exact .inr ⟨middle, .constant given first, second⟩
  | askClass name next ih =>
      cases meets with
      | afterNamed known meets =>
          rcases ih _ meets with first | ⟨middle, first, second⟩
          · exact .inl (.afterNamed known first)
          · exact .inr ⟨middle, .named known first, second⟩
  | askMember info name next ih =>
      cases meets with
      | afterMember found meets =>
          rcases ih _ meets with first | ⟨middle, first, second⟩
          · exact .inl (.afterMember found first)
          · exact .inr ⟨middle, .member found first, second⟩
  | askDeclared name next ih =>
      cases meets with
      | afterDeclared meets =>
          rcases ih _ meets with first | ⟨middle, first, second⟩
          · exact .inl (.afterDeclared first)
          · exact .inr ⟨middle, .declared first, second⟩
  | askIndex next ih =>
      cases meets with
      | afterIndex meets =>
          rcases ih _ meets with first | ⟨middle, first, second⟩
          · exact .inl (.afterIndex first)
          · exact .inr ⟨middle, .index first, second⟩
  | askPlatform next ih =>
      cases meets with
      | afterPlatform meets =>
          rcases ih _ meets with first | ⟨middle, first, second⟩
          · exact .inl (.afterPlatform first)
          · exact .inr ⟨middle, .platform first, second⟩

theorem Meets.bind_left {plan : Plan α} {event : Event}
    (meets : setting.Meets scope plan event) (rest : α → Plan β) :
    setting.Meets scope (plan >>= rest) event := by
  induction meets with
  | failure => exact .failure
  | node => exact .node
  | constant => exact .constant
  | afterNode given _ ih => exact .afterNode given ih
  | afterConstant given _ ih => exact .afterConstant given ih
  | afterNamed known _ ih => exact .afterNamed known ih
  | afterMember found _ ih => exact .afterMember found ih
  | afterDeclared _ ih => exact .afterDeclared ih
  | afterIndex _ ih => exact .afterIndex ih
  | afterPlatform _ ih => exact .afterPlatform ih

theorem Meets.bind_right {plan : Plan α} {rest : α → Plan β} {given : α} {event : Event}
    (derived : setting.Derives scope plan given)
    (meets : setting.Meets scope (rest given) event) :
    setting.Meets scope (plan >>= rest) event := by
  induction derived with
  | done => exact meets
  | node given _ _ ih => exact .afterNode given (ih meets)
  | constant given _ _ ih => exact .afterConstant given (ih meets)
  | named known _ ih => exact .afterNamed known (ih meets)
  | member found _ ih => exact .afterMember found (ih meets)
  | declared _ ih => exact .afterDeclared (ih meets)
  | index _ ih => exact .afterIndex (ih meets)
  | platform _ ih => exact .afterPlatform (ih meets)

theorem derives_done {result : Except ReflectionError α} {value : α} :
    setting.Derives scope (.done result) value ↔ result = .ok value := by
  constructor
  · intro derived
    cases derived
    rfl
  · rintro rfl
    exact .done

theorem derives_value {mode : Mode} {node : NodeId} {value : Value} :
    setting.Derives scope (Plan.value mode node) value ↔
      setting.Derives scope (expression scope mode node) value := by
  constructor
  · intro derived
    cases derived with
    | node given rest =>
        cases rest
        exact given
  · exact fun derived => .node derived .done

theorem derives_initializer {constant : ConstantInfo} {node : NodeId} {value : Value} :
    setting.Derives scope (Plan.initializer constant node) value ↔
      setting.Derives constant.scope (expression constant.scope .strict node) value := by
  constructor
  · intro derived
    cases derived with
    | constant given rest =>
        cases rest
        exact given
  · exact fun derived => .constant derived .done

theorem derives_classNamed {name : String} {info : ClassInfo} :
    setting.Derives scope (Plan.classNamed name) info ↔
      setting.index.class? (stripSeparator name) = some info := by
  constructor
  · intro derived
    cases derived with
    | named known rest =>
        cases rest
        exact known
  · exact fun known => .named known .done

theorem derives_member? {info : ClassInfo} {name : String} {found : Option ConstantInfo} :
    setting.Derives scope (Plan.member? info name) found ↔ setting.finds info name found := by
  constructor
  · intro derived
    cases derived with
    | member finds rest =>
        cases rest
        exact finds
  · exact fun finds => .member finds .done

theorem derives_declared? {name : String} {found : Option ConstantInfo} :
    setting.Derives scope (Plan.declared? name) found ↔
      found = setting.index.constant? name := by
  constructor
  · intro derived
    cases derived with
    | declared rest =>
        cases rest
        rfl
  · rintro rfl
    exact .declared .done

/-- The first of some names that is declared is found. -/
theorem derives_firstDeclared {names : List String} {found : Option ConstantInfo}
    (derived : setting.Derives scope (names.findSomeM? Plan.declared?) found) :
    found = names.findSome? setting.index.constant? := by
  induction names with
  | nil =>
      cases derived
      rfl
  | cons name rest ih =>
      obtain ⟨given, first, later⟩ := derives_bind.mp derived
      cases derives_declared?.mp first
      rw [List.findSome?_cons]
      cases known : setting.index.constant? name with
      | some constant =>
          rw [known] at later
          cases later
          rfl
      | none =>
          rw [known] at later
          exact ih later

theorem derives_index {index : EntityIndex}
    (derived : setting.Derives scope Plan.index index) : index = setting.index := by
  cases derived with
  | index rest =>
      cases rest
      rfl

theorem meets_done {result : Except ReflectionError α} {event : Event}
    (meets : setting.Meets scope (.done result) event) :
    ∃ error, result = .error error ∧ event = .failure error := by
  cases meets with
  | failure => exact ⟨_, rfl, rfl⟩

theorem not_meets_pure {value : α} {event : Event} :
    ¬ setting.Meets scope (pure value : Plan α) event := by
  intro meets
  obtain ⟨_, failed, _⟩ := meets_done meets
  cases failed

theorem meets_value {mode : Mode} {node : NodeId} {event : Event}
    (meets : setting.Meets scope (Plan.value mode node) event) :
    event = .node mode node := by
  cases meets with
  | node => rfl
  | afterNode _ meets => exact absurd meets not_meets_pure

theorem meets_initializer {constant : ConstantInfo} {node : NodeId} {event : Event}
    (meets : setting.Meets scope (Plan.initializer constant node) event) :
    event = .constant constant node := by
  cases meets with
  | constant => rfl
  | afterConstant _ meets => exact absurd meets not_meets_pure

theorem not_meets_classNamed {name : String} {event : Event} :
    ¬ setting.Meets scope (Plan.classNamed name) event := by
  intro meets
  cases meets with
  | afterNamed _ meets => exact not_meets_pure meets

theorem not_meets_member? {info : ClassInfo} {name : String} {event : Event} :
    ¬ setting.Meets scope (Plan.member? info name) event := by
  intro meets
  cases meets with
  | afterMember _ meets => exact not_meets_pure meets

theorem not_meets_declared? {name : String} {event : Event} :
    ¬ setting.Meets scope (Plan.declared? name) event := by
  intro meets
  cases meets with
  | afterDeclared meets => exact not_meets_pure meets

theorem not_meets_index {event : Event} : ¬ setting.Meets scope Plan.index event := by
  intro meets
  cases meets with
  | afterIndex meets => exact not_meets_pure meets

theorem not_meets_platform {event : Event} :
    ¬ setting.Meets scope Plan.platform event := by
  intro meets
  cases meets with
  | afterPlatform meets => exact not_meets_pure meets

/-! What plans need. -/

variable {constant : ConstantInfo}

theorem Demands.lift {part : Plan α} {plan : Plan β}
    (met : ∀ event, setting.Meets scope part event → setting.Meets scope plan event)
    (demands : setting.Demands scope part constant) :
    setting.Demands scope plan constant := by
  rcases demands with ⟨root, meets⟩ | ⟨mode, node, meets, reaches⟩
  · exact .inl ⟨root, met _ meets⟩
  · exact .inr ⟨mode, node, met _ meets, reaches⟩

theorem demands_bind {plan : Plan α} {rest : α → Plan β} :
    setting.Demands scope (plan >>= rest) constant ↔
      setting.Demands scope plan constant ∨
        ∃ given, setting.Derives scope plan given ∧
          setting.Demands scope (rest given) constant := by
  constructor
  · rintro (⟨root, meets⟩ | ⟨mode, node, meets, reaches⟩)
    · rcases meets_bind meets with meets | ⟨given, derived, meets⟩
      · exact .inl (.inl ⟨root, meets⟩)
      · exact .inr ⟨given, derived, .inl ⟨root, meets⟩⟩
    · rcases meets_bind meets with meets | ⟨given, derived, meets⟩
      · exact .inl (.inr ⟨mode, node, meets, reaches⟩)
      · exact .inr ⟨given, derived, .inr ⟨mode, node, meets, reaches⟩⟩
  · rintro (demands | ⟨given, derived, demands⟩)
    · exact demands.lift fun _ meets => meets.bind_left rest
    · exact demands.lift fun _ meets => .bind_right derived meets

theorem demands_value {mode : Mode} {node : NodeId} :
    setting.Demands scope (Plan.value mode node) constant ↔
      setting.Reaches scope mode node constant := by
  constructor
  · rintro (⟨root, meets⟩ | ⟨innerMode, inner, meets, reaches⟩)
    · cases meets_value meets
    · cases meets_value meets
      exact reaches
  · exact fun reaches => .inr ⟨mode, node, .node, reaches⟩

theorem demands_initializer {asked : ConstantInfo} {node : NodeId} :
    setting.Demands scope (Plan.initializer asked node) constant ↔ constant = asked := by
  constructor
  · rintro (⟨root, meets⟩ | ⟨mode, inner, meets, _⟩)
    · cases meets_initializer meets
      rfl
    · cases meets_initializer meets
  · rintro rfl
    exact .inl ⟨node, .constant⟩

theorem not_demands_of_not_meets {plan : Plan α}
    (never : ∀ {event}, ¬ setting.Meets scope plan event) :
    ¬ setting.Demands scope plan constant := by
  rintro (⟨_, meets⟩ | ⟨_, _, meets, _⟩) <;> exact never meets

theorem not_demands_done {result : Except ReflectionError α} :
    ¬ setting.Demands scope (.done result) constant := by
  rintro (⟨_, meets⟩ | ⟨_, _, meets, _⟩) <;> cases meets

end Parts

end Setting

end StaticReflection
