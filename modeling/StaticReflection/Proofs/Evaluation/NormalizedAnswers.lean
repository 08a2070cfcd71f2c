import StaticReflection.Proofs.Evaluation.NormalizedPlans
import StaticReflection.Proofs.Reflection.FirstAnswers
import StaticReflection.Proofs.Reflection.KeyedTables

namespace StaticReflection

/-! A reflector remembers only normalized values, and so it answers with no others. -/

/-- Every value that is remembered is normalized. -/
def Reflector.Tidy (r : Reflector) : Prop :=
  ∀ id value, r.state id = .resolved value → value.Normalized

/-- A query leaves only normalized values behind, and what it answers has a property. -/
def Query.Yields {α : Type} (P : α → Prop) (query : Query α) : Prop :=
  ∀ r : Reflector, r.Tidy → (query.next r).Tidy ∧ GivesOnly P (query.result r)

namespace Query.Yields

variable {α β : Type} {P : α → Prop} {Q : β → Prop}

theorem next {query : Query α} (yields : query.Yields P) {r : Reflector} (tidy : r.Tidy) :
    (query.next r).Tidy :=
  (yields r tidy).1

theorem result {query : Query α} (yields : query.Yields P) {r : Reflector} (tidy : r.Tidy)
    {value : α} (answered : query.result r = .ok value) : P value :=
  (yields r tidy).2 value answered

theorem pure {value : α} (meets : P value) : (Pure.pure value : Query α).Yields P :=
  fun _ tidy => ⟨tidy, .ok meets⟩

theorem throw {error : ReflectionError} : (MonadExcept.throw error : Query α).Yields P :=
  fun _ tidy => ⟨tidy, .error⟩

theorem ofExcept {result : Except ReflectionError α} (gives : GivesOnly P result) :
    (MonadExcept.ofExcept result : Query α).Yields P := by
  intro _ tidy
  rw [next_ofExcept, result_ofExcept]
  exact ⟨tidy, gives⟩

theorem bind {query : Query α} {rest : α → Query β} (first : query.Yields P)
    (second : ∀ value, P value → (rest value).Yields Q) : (query >>= rest).Yields Q := by
  intro r tidy
  cases answered : query.result r with
  | ok value =>
      rw [next_bind_ok answered, result_bind_ok answered]
      exact second value (first.result tidy answered) _ (first.next tidy)
  | error error =>
      rw [next_bind_error answered, result_bind_error answered]
      exact ⟨first.next tidy, .error⟩

theorem outcome {query : Query α} (yields : query.Yields P) :
    (Query.outcome query).Yields (GivesOnly P) :=
  fun r tidy => ⟨yields.next tidy, .ok (yields r tidy).2⟩

/-- A query that leaves what is remembered of constants alone. -/
theorem of_states {query : Query α} (same : ∀ r, (query.next r).states = r.states) :
    query.Yields fun _ => True := by
  refine fun r tidy => ⟨fun id value known => tidy id value ?_, .trivial⟩
  rwa [Reflector.state, same] at known

theorem of_loads {query : Query α} (loads : query.Loads) : query.Yields fun _ => True :=
  of_states fun r => (loads.next r).states

theorem of_looks {query : Query α} (looks : query.Looks) : query.Yields fun _ => True :=
  of_loads looks.loads

theorem foldlM {step : α → β → Query α}
    (yields : ∀ result value, P result → (step result value).Yields P) (values : List β)
    {start : α} (meets : P start) : (values.foldlM step start).Yields P := by
  induction values generalizing start with
  | nil => exact pure meets
  | cons value rest ih =>
      rw [List.foldlM_cons]
      exact (yields start value meets).bind fun _ => ih

theorem inside {enter leave : Underway → Underway} {query : Query α}
    (yields : query.Yields P) : (Query.inside enter leave query).Yields P := by
  intro r tidy
  rw [next_inside, result_inside]
  exact yields (r.withUnderway (enter r.underway)) tidy

end Query.Yields

theorem Plan.carryOut_yields {α : Type} {P : α → Prop}
    {nodeValue : Mode → NodeId → Query Value}
    {initializerValue : ConstantInfo → NodeId → Query Value}
    (nodes : ∀ mode node, (nodeValue mode node).Yields Value.Normalized)
    (initializers : ∀ constant node, (initializerValue constant node).Yields Value.Normalized)
    {plan : Plan α} (yields : plan.Yields P) :
    (plan.carryOut nodeValue initializerValue).Yields P := by
  induction yields with
  | done gives => exact .ofExcept gives
  | askNode _ ih => exact (nodes _ _).bind ih
  | askConstant _ ih => exact (initializers _ _).bind ih
  | askClass _ ih =>
      exact (Query.Yields.of_looks (Query.classNamed_looks _)).bind fun info _ => ih info
  | askMember _ ih =>
      exact (Query.Yields.of_looks (Query.member?_looks .constant _ _)).bind fun member _ =>
        ih member
  | askDeclared _ ih =>
      exact (Query.Yields.of_looks (Query.constant?_notes _).looks).bind fun constant _ =>
        ih constant
  | askIndex _ ih =>
      exact (Query.Yields.of_states fun _ => rfl).bind fun reflector _ => ih reflector.index
  | askPlatform _ ih =>
      exact (Query.Yields.of_states fun _ => rfl).bind fun options _ => ih options.platform

theorem Evaluation.resolve_yields {eval : Scope → NodeId → Query Value}
    (yields : ∀ scope node, (eval scope node).Yields Value.Normalized)
    (constant : ConstantInfo) (node : NodeId) :
    (resolve eval constant node).Yields Value.Normalized := by
  intro r tidy
  cases known : r.state constant.id with
  | resolved value =>
      rw [(resolve_of_resolved known).1, (resolve_of_resolved known).2]
      exact ⟨tidy, .ok (tidy constant.id value known)⟩
  | failed error =>
      rw [(resolve_of_failed known).1, (resolve_of_failed known).2]
      exact ⟨tidy, .error⟩
  | resolving =>
      rw [(resolve_of_resolving known).1, (resolve_of_resolving known).2]
      exact ⟨tidy, .error⟩
  | unresolved =>
      by_cases long : r.options.maxConstantChain ≤ r.underway.constants.length
      · rw [(resolve_of_long_chain known long).1, (resolve_of_long_chain known long).2]
        exact ⟨tidy, .error⟩
      · have short := Nat.lt_of_not_le long
        have entering : (r.entering constant).Tidy := by
          intro id value state
          rw [Reflector.state_entering] at state
          split at state
          · cases state
          · exact tidy id value state
        obtain ⟨after, gives⟩ := yields constant.scope node (r.entering constant) entering
        rw [(resolve_of_unresolved known short).1, (resolve_of_unresolved known short).2]
        refine ⟨fun id value state => ?_, gives⟩
        rw [Reflector.state_leaving] at state
        split at state
        · exact gives value (eq_ok_of_settled state)
        · exact after id value state

theorem Evaluation.evaluate_yields (room : Nat) (mode : Mode) (scope : Scope)
    (node : NodeId) : (evaluate room mode scope node).Yields Value.Normalized := by
  induction room generalizing mode scope node with
  | zero => exact (Query.Yields.of_states fun _ => rfl).bind fun _ _ => .throw
  | succ room ih =>
      exact .inside (Plan.carryOut_yields (fun mode node => ih mode scope node)
        (resolve_yields (ih .strict)) (expression_yields scope mode node))

namespace Query

open Yields

theorem perform_yields {α : Type} {P : α → Prop} (scope : Scope) {plan : Plan α}
    (yields : plan.Yields P) : (perform scope plan).Yields P :=
  (of_states fun _ => rfl).bind fun _ _ => (of_states fun _ => rfl).bind fun _ _ =>
    Plan.carryOut_yields (fun mode node => Evaluation.evaluate_yields _ mode scope node)
      (Evaluation.resolve_yields (Evaluation.evaluate_yields _ .strict)) yields

theorem evaluate_yields (scope : Scope) (node : NodeId) :
    (evaluate scope node).Yields Value.Normalized :=
  perform_yields scope Plan.Yields.value

theorem constantValue_yields (constant : ConstantInfo) :
    (constantValue constant).Yields Value.Normalized :=
  perform_yields constant.scope (Evaluation.constantValue_yields constant)

theorem backingValue_yields (constant : ConstantInfo) :
    (backingValue constant).Yields Value.Normalized :=
  perform_yields constant.scope (Evaluation.backingValue_yields constant)

theorem parameterDefault_yields (parameter : ParameterInfo) :
    (parameterDefault parameter).Yields Value.Normalized := by
  unfold parameterDefault
  split
  · exact evaluate_yields _ _
  · exact .throw

theorem propertyDefault_yields (property : PropertyInfo) :
    (propertyDefault property).Yields Value.Normalized := by
  unfold propertyDefault
  split
  · exact evaluate_yields _ _
  · split
    · exact pure (.flat nofun)
    · exact .throw

theorem staticValue_yields (scope : Scope) (static : StaticVariable) :
    (staticValue scope static).Yields Value.Normalized := by
  unfold staticValue
  split
  · exact evaluate_yields _ _
  · exact pure (.flat nofun)

/-- All values of a map are normalized. -/
def AllNormalized (values : OrderedMap String Value) : Prop :=
  ∀ entry ∈ values.entries, entry.2.Normalized

theorem allNormalized_empty : AllNormalized {} := nofun

theorem AllNormalized.insert {values : OrderedMap String Value} {name : String} {value : Value}
    (all : AllNormalized values) (normalized : value.Normalized) :
    AllNormalized (values.insert name value) := by
  intro entry among
  rcases OrderedMap.mem_insert among with rfl | ⟨earlier, _⟩
  · exact normalized
  · exact all entry earlier

theorem staticValues_yields (function : FunctionInfo) :
    (staticValues function).Yields AllNormalized :=
  .foldlM (fun _ static all => (staticValue_yields function.scope static).bind
    fun _ normalized => pure (all.insert normalized)) _ allNormalized_empty

theorem propertyDefaults_yields (info : ClassInfo) :
    (propertyDefaults info).Yields AllNormalized :=
  (of_looks (members_looks .property info)).bind fun _ _ =>
    .foldlM (fun _ property all => (propertyDefault_yields property).bind
      fun _ normalized => pure (all.insert normalized)) _ allNormalized_empty

theorem constantValues_yields (constants : List ConstantInfo) :
    (constantValues constants).Yields AllNormalized :=
  .foldlM (fun _ constant all => (constantValue_yields constant).bind
    fun _ normalized => pure (all.insert normalized)) _ allNormalized_empty

theorem someValue_yields (constant : ConstantInfo) :
    (some <$> constantValue constant).Yields fun found => ∀ value ∈ found, value.Normalized := by
  rw [map_eq_pure_bind]
  refine (constantValue_yields constant).bind fun value normalized => pure ?_
  rintro _ ⟨⟩
  exact normalized

theorem classConstant?_yields (info : ClassInfo) (name : String) :
    (classConstant? info name).Yields fun found => ∀ value ∈ found, value.Normalized := by
  refine (of_looks (member?_looks .constant info name)).bind fun found _ => ?_
  cases found with
  | some constant => exact someValue_yields constant
  | none => exact pure nofun

theorem addValue?_yields {values : OrderedMap String Value} (all : AllNormalized values)
    (constant : ConstantInfo) : (addValue? values constant).Yields AllNormalized := by
  refine (constantValue_yields constant).outcome.bind fun result gives => ?_
  cases result with
  | ok value => exact pure (all.insert (gives value rfl))
  | error => exact pure all

theorem addBlockValues_yields {values : OrderedMap String Value} (all : AllNormalized values)
    (place : PlacedBlock) : (addBlockValues values place).Yields AllNormalized :=
  (of_looks (blockConstants_looks place)).bind fun _ _ =>
    .foldlM (fun _ constant all => addValue?_yields all constant) _ all

theorem constantIn?_yields (place : PlacedBlock) (name : String) :
    (constantIn? place name).Yields fun found => ∀ value ∈ found, value.Normalized := by
  unfold constantIn?
  dsimp only
  split
  · exact (of_looks (blockConstant_looks place _)).bind fun constant _ =>
      someValue_yields constant
  · exact pure nofun

theorem fileValues_yields (file : SourceFile) : (fileValues file).Yields AllNormalized :=
  .foldlM (fun _ place all => addBlockValues_yields all place) _
    allNormalized_empty

end Query

/-! Whole runs. -/

open Query Query.Yields in
theorem Request.query_yields (request : Request) : request.query.Yields fun _ => True := by
  have discarded {α : Type} {P : α → Prop} {query : Query α} (yields : query.Yields P) :
      (discard query : Query Unit).Yields fun _ => True := by
    intro r tidy
    have same : (discard query : Query Unit).next r = query.next r := next_map _ _ _
    exact ⟨same ▸ yields.next tidy, .trivial⟩
  cases request with
  | loadFile | loadText | loadNamespace => exact of_loads (query_loads rfl)
  | constantValue constant => exact discarded (constantValue_yields constant)
  | backingValue constant => exact discarded (backingValue_yields constant)
  | parameterDefault parameter => exact discarded (parameterDefault_yields parameter)
  | propertyDefault property => exact discarded (propertyDefault_yields property)
  | staticValues function => exact discarded (staticValues_yields function)
  | propertyDefaults info => exact discarded (propertyDefaults_yields info)
  | constantValues info wanted =>
      exact (of_looks (members_looks .constant info)).bind fun _ _ =>
        discarded (constantValues_yields _)
  | constantValueOf info name => exact discarded (classConstant?_yields info name)
  | blockValues place => exact discarded (addBlockValues_yields allNormalized_empty place)
  | constantIn place name => exact discarded (constantIn?_yields place name)
  | fileValues file => exact discarded (fileValues_yields file)
  | _ => exact of_looks (query_looks rfl)

theorem Reflector.Tidy.undergo {r : Reflector} (tidy : r.Tidy) (operation : Operation) :
    (r.undergo operation).Tidy := by
  cases operation with
  | request request => exact request.query_yields.next tidy
  | parse | store | relocate => exact tidy

theorem Reflector.Tidy.undergoAll {r : Reflector} (tidy : r.Tidy) (operations : List Operation) :
    (r.undergoAll operations).Tidy :=
  List.foldlRecOn (motive := Tidy) operations Reflector.undergo tidy
    fun _ kept operation _ => kept.undergo operation

/-- A value that a reflector remembers, or answers a query with, alone or among others. -/
inductive Reflector.ComesTo (r : Reflector) : Value → Prop
  | remembered {id : ConstantId} {value : Value} :
      r.state id = .resolved value → ComesTo r value
  | expression {scope : Scope} {node : NodeId} {value : Value} :
      (Query.evaluate scope node).result r = .ok value → ComesTo r value
  | constant {constant : ConstantInfo} {value : Value} :
      (Query.constantValue constant).result r = .ok value → ComesTo r value
  | backing {constant : ConstantInfo} {value : Value} :
      (Query.backingValue constant).result r = .ok value → ComesTo r value
  | parameter {parameter : ParameterInfo} {value : Value} :
      (Query.parameterDefault parameter).result r = .ok value → ComesTo r value
  | property {property : PropertyInfo} {value : Value} :
      (Query.propertyDefault property).result r = .ok value → ComesTo r value
  | ofClass {info : ClassInfo} {name : String} {value : Value} :
      (Query.classConstant? info name).result r = .ok (some value) → ComesTo r value
  | ofBlock {place : PlacedBlock} {name : String} {value : Value} :
      (Query.constantIn? place name).result r = .ok (some value) → ComesTo r value
  | statics {function : FunctionInfo} {values : OrderedMap String Value}
      {entry : String × Value} :
      (Query.staticValues function).result r = .ok values → entry ∈ values.entries →
      ComesTo r entry.2
  | properties {info : ClassInfo} {values : OrderedMap String Value}
      {entry : String × Value} :
      (Query.propertyDefaults info).result r = .ok values → entry ∈ values.entries →
      ComesTo r entry.2
  | constants {constants : List ConstantInfo} {values : OrderedMap String Value}
      {entry : String × Value} :
      (Query.constantValues constants).result r = .ok values → entry ∈ values.entries →
      ComesTo r entry.2
  | block {place : PlacedBlock} {values : OrderedMap String Value} {entry : String × Value} :
      (Query.addBlockValues {} place).result r = .ok values → entry ∈ values.entries →
      ComesTo r entry.2
  | file {file : SourceFile} {values : OrderedMap String Value} {entry : String × Value} :
      (Query.fileValues file).result r = .ok values → entry ∈ values.entries →
      ComesTo r entry.2

open Query in
theorem Reflector.Tidy.normalized {r : Reflector} (tidy : r.Tidy) {value : Value}
    (comes : r.ComesTo value) : value.Normalized := by
  cases comes with
  | remembered known => exact tidy _ _ known
  | expression answered => exact (evaluate_yields _ _).result tidy answered
  | constant answered => exact (constantValue_yields _).result tidy answered
  | backing answered => exact (backingValue_yields _).result tidy answered
  | parameter answered => exact (parameterDefault_yields _).result tidy answered
  | property answered => exact (propertyDefault_yields _).result tidy answered
  | ofClass answered => exact (classConstant?_yields _ _).result tidy answered _ rfl
  | ofBlock answered => exact (constantIn?_yields _ _).result tidy answered _ rfl
  | statics answered among => exact (staticValues_yields _).result tidy answered _ among
  | properties answered among => exact (propertyDefaults_yields _).result tidy answered _ among
  | constants answered among => exact (constantValues_yields _).result tidy answered _ among
  | block answered among =>
      exact (addBlockValues_yields allNormalized_empty _).result tidy answered _ among
  | file answered among => exact (fileValues_yields _).result tidy answered _ among

theorem Reflector.tidy_new (options : Options) (locator : Locator) (sources : SourceCache) :
    (Reflector.new options locator sources).Tidy := nofun

/-- In every array of a value that a reflector comes to, at any depth, the keys differ, no
string that is the decimal text of an integer is a key, and a look-up by the value of a key
gives the entry of that key. -/
theorem keys_read_back (options : Options) (locator : Locator) (sources : SourceCache)
    (operations : List Operation) {value : Value}
    (comes : ((Reflector.new options locator sources).undergoAll operations).ComesTo value)
    {items : KeyedArray Value} (contains : value.Contains items) :
    (items.entries.map (·.1)).Nodup ∧
    (∀ bytes, ArrayKey.string bytes ∈ items.entries.map (·.1) →
      ∀ i : Int64, bytes ≠ Utf8.ofString (intText i.toInt)) ∧
    ∀ key entry, (key, entry) ∈ items.entries →
      key.toValue.toKey? = some key ∧ items.get? key = some entry ∧
        ∀ quiet, Value.offset quiet (.array items) key.toValue = .ok entry := by
  have tidy := (Reflector.tidy_new options locator sources).undergoAll operations
  have keeps := contains.keeps (tidy.normalized comes)
  refine ⟨keeps.distinct, ?_, ?_⟩
  · rintro _ among i rfl
    obtain ⟨entry, there, same⟩ := List.mem_map.mp among
    have canonical := keeps.canonical entry there
    rw [same, ArrayKey.canonical_string_iff, canonicalInt?_intText] at canonical
    cases canonical
  · intro key entry among
    have stands : key.toValue.toKey? = some key := keeps.canonical _ among
    have found := KeyedArray.get?_of_mem keeps.distinct among
    refine ⟨stands, found, fun quiet => ?_⟩
    simp only [Value.offset, stands, found]

/-- The keys of an array. -/
def Value.arrayKeys? : Value → Option (List ArrayKey)
  | .array items => some (items.entries.map (·.1))
  | _ => none

/-- A union of arrays from two constants, one of them with an array inside and with the
entries of an unpacked one. -/
theorem keys_of_union_read_back :
    let operations : List Operation := [.request (.loadText "/app/a.php"
      ("<?php const A = ['1' => [2], '01' => 3, ...['x', 'k' => 4]]; " ++
        "const B = A + ['1' => 9, 7 => 5];").toList)]
    let r := (Reflector.new {} .nowhere {}).undergoAll operations
    ∃ value items, r.ComesTo value ∧ value.Contains items ∧
      items.entries.map (·.1) = [.int 1, .string [0x30, 0x31], .int 2, .string [0x6b], .int 7] ∧
      ∀ key entry, (key, entry) ∈ items.entries →
        ∀ quiet, Value.offset quiet (.array items) key.toValue = .ok entry := by
  intro operations r
  have known : (((Query.constantNamed "B").result r).toOption.bind fun constant =>
      ((Query.constantValue constant).result r).toOption.bind Value.arrayKeys?) =
        some [.int 1, .string [0x30, 0x31], .int 2, .string [0x6b], .int 7] := by
    decide +kernel
  obtain ⟨constant, _, given⟩ := Option.bind_eq_some_iff.mp known
  obtain ⟨value, answered, same⟩ := Option.bind_eq_some_iff.mp given
  have comes : r.ComesTo value := .constant (Query.ok_of_toOption answered)
  cases value with
  | array items =>
      have read := keys_read_back {} .nowhere {} operations comes (.self items)
      exact ⟨.array items, items, comes, .self items, Option.some.inj same,
        fun key entry among => (read.2.2 key entry among).2.2⟩
  | _ => cases same

end StaticReflection
