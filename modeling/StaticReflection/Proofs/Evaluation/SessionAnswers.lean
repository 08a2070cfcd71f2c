import StaticReflection.Proofs.Evaluation.SoundSessions

namespace StaticReflection

/-! Over a fixed set of files, every answer of a reflector is the value that the rules give,
whatever it was asked before. -/

open Evaluation Setting

/-- A fresh reflector and requests to it that load no file, with no locator to ask. -/
structure Reflector.Session (start : Reflector) (requests : List Request) : Prop where
  fresh : start.Fresh
  nowhere : start.locator = .nowhere
  takes : start.Takes requests
  noLoad : ∀ request ∈ requests, request.isLoad = false

/-- The values of expressions over the files that a reflector knows. -/
def Reflector.rules (r : Reflector) : Setting :=
  unbounded r.index r.options.platform

/-- The value that a static variable starts with. -/
def Setting.Starts (setting : Setting) (scope : Scope) (static : StaticVariable)
    (value : Value) : Prop :=
  match static.initializer with
  | some node => setting.Derives scope (expression scope .strict node) value
  | none => value = .null

namespace Reflector.Session

variable {start : Reflector} {requests : List Request} (session : start.Session requests)

include session

theorem index : (start.afterAll requests).index = start.index :=
  index_afterAll session.nowhere session.noLoad

theorem sound : (start.afterAll requests).Sound start.index start.options [] :=
  session.fresh.sound_afterAll session.takes session.index

theorem still {α : Type} {query : Query α} (advances : query.Advances) :
    (query.next (start.afterAll requests)).index = (start.afterAll requests).index :=
  (advances.next _).stays ((start.step_afterAll requests).locator.trans session.nowhere)

end Reflector.Session

section Answers

variable {index : EntityIndex} {options : Options} {r : Reflector}

theorem Query.perform_derives {α : Type} {scope : Scope} {plan : Plan α} {value : α}
    (sound : r.Sound index options [])
    (expected : (bounded index options).Only scope plan r.Expects)
    (same : ((perform scope plan).next r).index = r.index)
    (answered : (perform scope plan).result r = .ok value) :
    (unbounded index options.platform).Derives scope plan value := by
  obtain ⟨_, answers, _⟩ :=
    perform_follows scope plan [] r sound (.outermost expected) same
  exact (answers value answered).derived.mono bounded_within

theorem Query.evaluate_derives {scope : Scope} {node : NodeId} {value : Value}
    (sound : r.Sound index options [])
    (same : ((evaluate scope node).next r).index = r.index)
    (answered : (evaluate scope node).result r = .ok value) :
    (unbounded index options.platform).Derives scope (expression scope .strict node) value :=
  derives_value.mp (perform_derives sound (.value trivial) same answered)

theorem Query.staticValue_starts {scope : Scope} {static : StaticVariable} {value : Value}
    (sound : r.Sound index options [])
    (same : ((staticValue scope static).next r).index = r.index)
    (answered : (staticValue scope static).result r = .ok value) :
    (unbounded index options.platform).Starts scope static value := by
  unfold staticValue at same answered
  unfold Setting.Starts
  cases written : static.initializer with
  | some node =>
      rw [written] at same answered
      exact evaluate_derives sound same answered
  | none =>
      rw [written] at answered
      cases answered
      rfl

theorem Query.addStatics_start {scope : Scope} (statics : List StaticVariable)
    {before values : OrderedMap String Value} (sameIndex : r.index = index)
    (sound : r.Sound index options [])
    (same : ((statics.foldlM (addStatic scope) before).next r).index = r.index)
    (answered : (statics.foldlM (addStatic scope) before).result r = .ok values) :
    ∃ initial, List.Forall₂ ((unbounded index options.platform).Starts scope) statics initial ∧
      values = (statics.zip initial).foldl
        (fun values (static, value) => values.insert static.name value) before := by
  induction statics generalizing r before with
  | nil =>
      cases answered
      exact ⟨[], .nil, rfl⟩
  | cons static rest ih =>
      rw [List.foldlM_cons, addStatic, bind_assoc] at same answered
      obtain ⟨value, answeredFirst, answeredRest⟩ := ok_of_bind answered
      have restAdvances := fun value => Moves.foldlM (addStatic_advances scope) rest
        (before.insert static.name value)
      simp only [pure_bind] at same answeredRest
      obtain ⟨sameFirst, afterFirst⟩ :=
        index_of_bind (staticValue_advances scope static) restAdvances same
      have soundFirst := (staticValue_fair scope static sound sameFirst).1
      obtain ⟨initial, starts, sameValues⟩ := ih (sameFirst.trans sameIndex) soundFirst
        (afterFirst value answeredFirst) answeredRest
      exact ⟨value :: initial,
        .cons (staticValue_starts sound sameFirst answeredFirst) starts, sameValues⟩

end Answers

namespace Reflector.Session

variable {start : Reflector} {requests : List Request} (session : start.Session requests)

include session

theorem evaluate_derives {scope : Scope} {node : NodeId} {value : Value}
    (answered : (Query.evaluate scope node).result (start.afterAll requests) = .ok value) :
    start.rules.Derives scope (expression scope .strict node) value :=
  Query.evaluate_derives session.sound
    (session.still (Query.evaluate_advances scope node)) answered

theorem constantValue_derives {constant : ConstantInfo} {value : Value}
    (held : (start.afterAll requests).Holds constant)
    (answered : (Query.constantValue constant).result (start.afterAll requests) = .ok value) :
    start.rules.Derives constant.scope (constantValue constant) value :=
  Query.perform_derives session.sound
    (Query.expects_constantValue held) (session.still (Query.perform_advances _ _)) answered

theorem backingValue_derives {constant : ConstantInfo} {value : Value}
    (held : (start.afterAll requests).Holds constant)
    (answered : (Query.backingValue constant).result (start.afterAll requests) = .ok value) :
    start.rules.Derives constant.scope (backingValue constant) value :=
  Query.perform_derives session.sound
    (Query.expects_backingValue held) (session.still (Query.perform_advances _ _)) answered

theorem parameterDefault_derives {parameter : ParameterInfo} {value : Value}
    (answered : (Query.parameterDefault parameter).result (start.afterAll requests) =
      .ok value) :
    ∃ node, parameter.default = some node ∧
      start.rules.Derives parameter.scope (expression parameter.scope .strict node) value := by
  unfold Query.parameterDefault at answered
  split at answered
  · exact ⟨_, ‹_›, session.evaluate_derives answered⟩
  · cases answered

theorem propertyDefault_derives {property : PropertyInfo} {value : Value}
    (answered : (Query.propertyDefault property).result (start.afterAll requests) =
      .ok value) :
    (∃ node, property.default = some node ∧
      start.rules.Derives property.scope (expression property.scope .strict node) value) ∨
    property.default = none ∧ value = .null := by
  unfold Query.propertyDefault at answered
  split at answered
  · exact .inl ⟨_, ‹_›, session.evaluate_derives answered⟩
  · split at answered
    · cases answered
      exact .inr ⟨‹_›, rfl⟩
    · cases answered

end Reflector.Session

/-! A small program, at which the theorems about sessions can be seen. -/

namespace Sample

/-- The parameter of `function f($x = -(-TWO)) {}`. -/
def parameterDecl : ParameterDecl where
  name := "x"
  modifiers := .none
  type := none
  default := some 13
  byRef := false
  variadic := false
  doc := none

/-- The nodes of `const ONE = 1, TWO = ONE + ONE, LEFT = RIGHT, RIGHT = LEFT;` and of a
parameter of a function after it. -/
def nodes : List Node :=
  [.intLiteral 1, .constDeclarator "ONE" 0,
    .constFetch "ONE", .constFetch "ONE", .binary .plus 2 3, .constDeclarator "TWO" 4,
    .constFetch "RIGHT", .constDeclarator "LEFT" 6,
    .constFetch "LEFT", .constDeclarator "RIGHT" 8,
    .constStatement [1, 5, 7, 9] none,
    .constFetch "TWO", .unary .minus 11, .unary .minus 12, .parameter parameterDecl,
    .function ⟨"f", .none, [14], none, false, true, [], false, none⟩,
    .sourceFile "/sample.php" [10, 15]]

def arena : Arena :=
  ⟨(nodes.map fun node => (node, ⟨0, 0⟩)).toArray⟩

def file : SourceFile where
  path := "/sample.php"
  text := []
  lines := ⟨[0]⟩
  arena
  root := 16
  diagnostics := []
  blocks := namespaceBlocks ⟨arena, ⟨[0]⟩⟩ 16

/-- A reflector for the program that lets expressions nest so deep. -/
def reflector (depth : Nat) : Reflector where
  options := { maxExpressionDepth := depth }
  index := .ofFiles [file]

def place : PlacedBlock :=
  ⟨file, 0, ⟨"", 16, [10, 15], none, Entities.discover ⟨arena, ⟨[0]⟩⟩ "" [10, 15]⟩⟩

def constant (name : String) (node : NodeId) : ConstantInfo :=
  .declaredAt (.named (.constant name)) place ⟨name, node, node + 1, .statement, none⟩

def parameter : ParameterInfo :=
  .ofDecl { place, function := some "f" } "f()" 0 parameterDecl

theorem fresh (depth : Nat) : (reflector depth).Fresh :=
  ⟨⟨[file], rfl⟩, fun _ => rfl, rfl⟩

end Sample

/-- Whatever was asked before, an answer is the value that the rules give without memory
and without bounds. So the answers of two sessions over the same files agree. -/
theorem answers_derived {start : Reflector} {requests : List Request}
    (session : start.Session requests) :
    let r := start.afterAll requests
    (∀ constant value, r.Holds constant → (Query.constantValue constant).result r = .ok value →
      start.rules.Derives constant.scope (constantValue constant) value) ∧
    (∀ constant value, r.Holds constant → (Query.backingValue constant).result r = .ok value →
      start.rules.Derives constant.scope (backingValue constant) value) ∧
    (∀ parameter value, (Query.parameterDefault parameter).result r = .ok value →
      ∃ node, parameter.default = some node ∧
        start.rules.Derives parameter.scope (expression parameter.scope .strict node) value) ∧
    (∀ property value, (Query.propertyDefault property).result r = .ok value →
      (∃ node, property.default = some node ∧
        start.rules.Derives property.scope (expression property.scope .strict node) value) ∨
      property.default = none ∧ value = .null) ∧
    (∀ function values, (Query.staticValues function).result r = .ok values →
      ∃ initial, List.Forall₂ (start.rules.Starts function.scope) function.statics initial ∧
        values = (function.statics.zip initial).foldl
          (fun values (static, value) => values.insert static.name value) {}) ∧
    ∀ (other : Reflector) (others : List Request), other.Session others →
      other.index = start.index → other.options.platform = start.options.platform →
      ∀ constant value again, r.Holds constant → (other.afterAll others).Holds constant →
        (Query.constantValue constant).result r = .ok value →
        (Query.constantValue constant).result (other.afterAll others) = .ok again →
          value = again := by
  refine ⟨fun constant value held answered => session.constantValue_derives held answered,
    fun constant value held answered => session.backingValue_derives held answered,
    fun parameter value answered => session.parameterDefault_derives answered,
    fun property value answered => session.propertyDefault_derives answered,
    fun function values answered => ?_, ?_⟩
  · exact Query.addStatics_start function.statics session.index
      session.sound (session.still (Query.staticValues_advances function)) answered
  · intro other others otherSession sameIndex samePlatform constant value again held heldToo
      answered answeredAgain
    have derived := session.constantValue_derives held answered
    have derivedAgain := otherSession.constantValue_derives heldToo answeredAgain
    unfold Reflector.rules at derived derivedAgain
    rw [sameIndex, samePlatform] at derivedAgain
    exact derived.unique unbounded_functional derivedAgain

open Sample in
/-- A sum of which both parts are known by then. -/
theorem answers_derived_sum :
    let start := reflector 3
    let requests := [.constantValue (constant "ONE" 0)]
    let sum := constant "TWO" 4
    start.Session requests ∧
    (Query.constantValue sum).result (start.afterAll requests) = .ok (.int 2) ∧
    start.rules.Derives sum.scope (constantValue sum) (.int 2) := by
  intro start requests sum
  have session : start.Session requests :=
    ⟨fresh 3, rfl, ⟨rfl, trivial⟩, by simp [requests, Request.isLoad]⟩
  have answered : (Query.constantValue sum).result (start.afterAll requests) = .ok (.int 2) :=
    rfl
  exact ⟨session, answered, (answers_derived session).1 sum (.int 2) rfl answered⟩

end StaticReflection
