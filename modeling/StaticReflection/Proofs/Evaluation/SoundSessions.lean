import StaticReflection.Proofs.Evaluation.DerivedAnswers
import StaticReflection.Proofs.Reflection.HeldConstants
import StaticReflection.Proofs.Reflection.Quiescence

namespace StaticReflection

/-! Whatever a reflector is asked, what it remembers stays right, as long as no new file is
loaded. -/

open Evaluation Setting

/-- A reflector that knows the declarations of some files and no value yet. -/
structure Reflector.Fresh (r : Reflector) : Prop where
  files : ∃ files, r.index = .ofFiles files
  states : ∀ id, r.state id = .unresolved
  underway : r.underway = {}

/-- A request is about constants that the reflector gave away. Only the constants whose
values are remembered matter. -/
def Request.Valid (r : Reflector) : Request → Prop
  | .constantValue constant | .backingValue constant => r.Holds constant
  | .constantValues info _ | .constantValueOf info _ => r.HoldsClass info
  | _ => True

/-- Requests of which each is valid when its turn comes. -/
def Reflector.Takes (r : Reflector) : List Request → Prop
  | [] => True
  | request :: rest => request.Valid r ∧ (r.after request).Takes rest

theorem Reflector.Fresh.sound {r : Reflector} (fresh : r.Fresh) :
    r.Sound r.index r.options [] where
  alike := ⟨rfl, rfl, by rw [fresh.underway]⟩
  names := by rw [fresh.underway]; rfl
  linked := .nil
  distinct := List.nodup_nil
  held := by simp
  opened := by simp
  resolving constant _ state := by simp [fresh.states] at state
  known id state := absurd (fresh.states id) state
  resolved constant value _ state := by simp [fresh.states] at state
  failed constant error node _ state := by simp [fresh.states] at state

/-- A query that keeps what is remembered right, and reports only cycles that there are. -/
def Query.Fair {α : Type} (index : EntityIndex) (options : Options) (query : Query α)
    (r : Reflector) : Prop :=
  r.Sound index options [] → (query.next r).index = r.index →
    (query.next r).Sound index options [] ∧
      ∀ cycle, query.result r = .error (.circularConstant cycle) →
        (bounded index options).Circular (query.next r) cycle

namespace Query

variable {index : EntityIndex} {options : Options} {α β γ : Type} {r : Reflector}

theorem Loads.fair {query : Query α} (loads : query.Loads) (r : Reflector) :
    query.Fair index options r :=
  fun sound same => ⟨sound.load (loads.next r) same,
    fun cycle failed => absurd rfl (loads.error failed cycle)⟩

theorem Looks.fair {query : Query α} (looks : query.Looks) (r : Reflector) :
    query.Fair index options r :=
  looks.loads.fair r

theorem Advances.keeps {query : Query α} (advances : query.Advances)
    (same : (query.next r).index = r.index) : r.Keeps (query.next r) :=
  ⟨same, (advances.next r).hidden⟩

theorem Fair.bind {query : Query α} {rest : α → Query β} (first : query.Fair index options r)
    (advances : query.Advances) (restAdvances : ∀ value, (rest value).Advances)
    (second : ∀ value, query.result r = .ok value → (query.next r).index = r.index →
      (rest value).Fair index options (query.next r)) :
    (query >>= rest).Fair index options r := by
  intro sound same
  obtain ⟨sameMiddle, sameRest⟩ := index_of_bind advances restAdvances same
  obtain ⟨soundMiddle, circular⟩ := first sound sameMiddle
  cases answered : query.result r with
  | ok value =>
      rw [next_bind_ok answered, result_bind_ok answered]
      exact second value answered sameMiddle soundMiddle (sameRest value answered)
  | error error =>
      rw [next_bind_error answered, result_bind_error answered]
      refine ⟨soundMiddle, fun cycle failed => circular cycle ?_⟩
      cases failed
      exact answered

theorem Fair.outcome {query : Query α} (fair : query.Fair index options r) :
    (Query.outcome query).Fair index options r :=
  fun sound same => ⟨(fair sound same).1, nofun⟩

theorem fair_pure (value : α) : (pure value : Query α).Fair index options r :=
  Looks.fair (.pure value) r

theorem fair_throw {error : ReflectionError} (ordinary : error.Ordinary) :
    (throw error : Query α).Fair index options r :=
  Looks.fair (.throw ordinary) r

theorem Fair.map {query : Query α} (fair : query.Fair index options r)
    (advances : query.Advances) (f : α → β) : (f <$> query).Fair index options r := by
  rw [map_eq_pure_bind]
  exact fair.bind advances (fun _ => .pure _) fun _ _ _ => fair_pure _

theorem fair_foldlM {step : β → γ → Query β} {P : γ → Reflector → Prop}
    (stable : ∀ value r next, r.Keeps next → P value r → P value next)
    (advances : ∀ result value, (step result value).Advances)
    (fair : ∀ result value r, r.index = index → P value r →
      (step result value).Fair index options r)
    (values : List γ) (start : β) (sameIndex : r.index = index)
    (good : ∀ value ∈ values, P value r) :
    (values.foldlM step start).Fair index options r := by
  induction values generalizing start r with
  | nil => exact fair_pure start
  | cons value rest ih =>
      rw [List.foldlM_cons]
      refine (fair start value r sameIndex (good value (by simp))).bind (advances start value)
        (fun result => .foldlM advances rest result) fun result _ same => ?_
      refine ih result (same.trans sameIndex) fun other member => ?_
      exact stable other r _ (Advances.keeps (advances start value) same)
        (good other (List.mem_cons_of_mem _ member))

theorem expects_initializer {setting : Setting} {scope : Scope} {constant : ConstantInfo}
    {node : NodeId} (stands : constant.value = some node) (held : r.Holds constant) :
    setting.Only scope (.initializer constant node) r.Expects := by
  intro event meets
  rw [meets_initializer meets]
  exact ⟨stands, held⟩

theorem expects_constantValue {setting : Setting} {scope : Scope} {constant : ConstantInfo}
    (held : r.Holds constant) :
    setting.Only scope (Evaluation.constantValue constant) r.Expects := by
  unfold Evaluation.constantValue
  split
  · exact .pure _
  · split
    · exact expects_initializer ‹_› held
    · exact .fail nofun

theorem expects_backingValue {setting : Setting} {scope : Scope} {constant : ConstantInfo}
    (held : r.Holds constant) :
    setting.Only scope (Evaluation.backingValue constant) r.Expects := by
  unfold Evaluation.backingValue
  split
  · exact expects_initializer ‹_› held
  · exact .pure _

section Values

theorem perform_fair {scope : Scope} {plan : Plan α}
    (expected : (bounded index options).Only scope plan r.Expects) :
    (perform scope plan).Fair index options r := by
  intro sound same
  obtain ⟨soundNext, _, explains⟩ :=
    perform_follows scope plan [] r sound (.outermost expected) same
  exact ⟨soundNext, fun cycle failed => (explains _ failed).circular cycle rfl⟩

theorem evaluate_fair (scope : Scope) (node : NodeId) :
    (evaluate scope node).Fair index options r :=
  perform_fair (.value trivial)

theorem constantValue_fair {constant : ConstantInfo} (held : r.Holds constant) :
    (constantValue constant).Fair index options r :=
  perform_fair (expects_constantValue held)

theorem parameterDefault_fair (parameter : ParameterInfo) :
    (parameterDefault parameter).Fair index options r := by
  unfold parameterDefault
  split
  · exact evaluate_fair _ _
  · exact fair_throw nofun

theorem propertyDefault_fair (property : PropertyInfo) :
    (propertyDefault property).Fair index options r := by
  unfold propertyDefault
  split
  · exact evaluate_fair _ _
  · split
    · exact fair_pure _
    · exact fair_throw nofun

theorem staticValue_fair (scope : Scope) (static : StaticVariable) :
    (staticValue scope static).Fair index options r := by
  unfold staticValue
  split
  · exact evaluate_fair _ _
  · exact fair_pure _

theorem addStatic_fair (scope : Scope) (values : OrderedMap String Value)
    (static : StaticVariable) : (addStatic scope values static).Fair index options r :=
  (staticValue_fair scope static).bind (staticValue_advances scope static)
    (fun _ => .pure _) fun _ _ _ => fair_pure _

theorem staticValues_fair (function : FunctionInfo) (same : r.index = index) :
    (staticValues function).Fair index options r :=
  fair_foldlM (P := fun _ _ => True) (fun _ _ _ _ good => good)
    (addStatic_advances function.scope)
    (fun values static _ _ _ => addStatic_fair function.scope values static) _ _ same
    fun _ _ => trivial

theorem addDefault_fair (values : OrderedMap String Value) (property : PropertyInfo) :
    (addDefault values property).Fair index options r :=
  (propertyDefault_fair property).bind (propertyDefault_advances property)
    (fun _ => .pure _) fun _ _ _ => fair_pure _

theorem propertyDefaults_fair (info : ClassInfo) (same : r.index = index) :
    (propertyDefaults info).Fair index options r := by
  refine Fair.bind (Looks.fair (members_looks .property info) r)
    (members_looks .property info).advances (fun _ => .foldlM addDefault_advances _ _)
    fun properties _ sameMiddle => ?_
  exact fair_foldlM (P := fun _ _ => True) (fun _ _ _ _ good => good) addDefault_advances
    (fun values property _ _ _ => addDefault_fair values property) _ _
    (sameMiddle.trans same) fun _ _ => trivial

theorem addValue_fair {constant : ConstantInfo} (held : r.Holds constant)
    (values : OrderedMap String Value) : (addValue values constant).Fair index options r :=
  (constantValue_fair held).bind (constantValue_advances constant)
    (fun _ => .pure _) fun _ _ _ => fair_pure _

theorem constantValues_fair {constants : List ConstantInfo} (same : r.index = index)
    (held : ∀ constant ∈ constants, r.Holds constant) :
    (constantValues constants).Fair index options r :=
  fair_foldlM (P := fun constant r => r.Holds constant)
    (fun _ _ _ keeps held => keeps.holds held) addValue_advances
    (fun values _ _ _ held => addValue_fair held values) _ _ same held

theorem classConstant?_fair {info : ClassInfo} (same : r.index = index)
    (held : r.HoldsClass info) (name : String) :
    (classConstant? info name).Fair index options r := by
  subst same
  refine Fair.bind (Looks.fair (member?_looks .constant info name) r)
    (member?_looks .constant info name).advances (fun found => ?_)
    fun found answered same => ?_
  · cases found with
    | some constant => exact .bind (constantValue_advances constant) fun _ => .pure _
    | none => exact .pure _
  · cases found with
    | some constant =>
        have keeps := Advances.keeps (member?_looks .constant info name).advances same
        have heldConstant := keeps.holds (r.holds_of_member? held answered same)
        exact (constantValue_fair heldConstant).bind (constantValue_advances constant)
          (fun _ => .pure _) fun _ _ _ => fair_pure _
    | none => exact fair_pure _

theorem holds_of_blockConstants {place : PlacedBlock} (entries : List ConstantEntry)
    {constants : List ConstantInfo} (sameIndex : r.index = index)
    (answered : (entries.mapM (blockConstant place)).result r = .ok constants)
    (same : ((entries.mapM (blockConstant place)).next r).index = r.index) :
    ∀ constant ∈ constants, ((entries.mapM (blockConstant place)).next r).Holds constant := by
  induction entries generalizing r constants with
  | nil =>
      rw [List.mapM_nil] at answered
      cases answered
      exact fun _ member => absurd member List.not_mem_nil
  | cons entry rest ih =>
      have looks := fun entry => blockConstant_looks place entry
      have restLooks : ((rest.mapM (blockConstant place)) : Query _).Looks := .mapM looks rest
      rw [List.mapM_cons] at answered same ⊢
      obtain ⟨first, answeredFirst, answeredRest⟩ := ok_of_bind answered
      obtain ⟨sameFirst, afterFirst⟩ := index_of_bind (looks entry).advances
        (fun first => .bind restLooks.advances fun others => .pure _) same
      obtain ⟨others, answeredOthers, last⟩ := ok_of_bind answeredRest
      obtain ⟨sameOthers, _⟩ := index_of_bind restLooks.advances
        (fun others => .pure (first :: others)) (afterFirst _ answeredFirst)
      cases last
      rw [next_bind_ok answeredFirst, next_bind_ok answeredOthers, next_pure]
      intro constant member
      rcases List.mem_cons.mp member with rfl | member
      · have held := r.holds_of_blockConstant answeredFirst
        exact (Advances.keeps restLooks.advances sameOthers).holds held
      · exact ih (sameFirst.trans sameIndex) answeredOthers sameOthers constant member

theorem addValue?_fair {constant : ConstantInfo} (held : r.Holds constant)
    (values : OrderedMap String Value) : (addValue? values constant).Fair index options r := by
  refine (constantValue_fair held).outcome.bind
    (constantValue_advances constant).outcome (fun result => ?_) fun result _ _ => ?_
  · cases result <;> exact .pure _
  · cases result <;> exact fair_pure _

theorem addBlockValues_fair (values : OrderedMap String Value) (place : PlacedBlock)
    (same : r.index = index) : (addBlockValues values place).Fair index options r := by
  refine Fair.bind (Looks.fair (blockConstants_looks place) r)
    (blockConstants_looks place).advances (fun _ => .foldlM addValue?_advances _ _)
    fun constants answered sameMiddle => ?_
  exact fair_foldlM (P := fun constant r => r.Holds constant)
    (fun _ _ _ keeps held => keeps.holds held) addValue?_advances
    (fun values _ _ _ held => addValue?_fair held values) _ _
    (sameMiddle.trans same) (holds_of_blockConstants _ same answered sameMiddle)

theorem constantIn?_fair (place : PlacedBlock) (name : String) (same : r.index = index) :
    (constantIn? place name).Fair index options r := by
  subst same
  unfold constantIn?
  dsimp only
  split
  · rename_i entry _
    refine Fair.bind (Looks.fair (blockConstant_looks place entry) r)
      (blockConstant_looks place entry).advances
      (fun constant => .bind (constantValue_advances constant) fun _ => .pure _)
      fun constant answered _ => ?_
    have held := r.holds_of_blockConstant answered
    exact (constantValue_fair held).bind (constantValue_advances constant)
      (fun _ => .pure _) fun _ _ _ => fair_pure _
  · exact fair_pure _

theorem fileValues_fair (file : SourceFile) (same : r.index = index) :
    (fileValues file).Fair index options r :=
  fair_foldlM (P := fun _ _ => True) (fun _ _ _ _ good => good) addBlockValues_advances
    (fun values place _ same _ => addBlockValues_fair values place same) _ _ same
    fun _ _ => trivial

end Values

end Query

open Query in
theorem Request.query_fair {index : EntityIndex} {options : Options} {r : Reflector}
    (same : r.index = index) (request : Request)
    (valid : request.Valid r) : request.query.Fair index options r := by
  cases request with
  | constantValue constant =>
      exact (constantValue_fair valid).map (constantValue_advances constant) _
  | backingValue constant =>
      exact (perform_fair (expects_backingValue valid)).map (perform_advances _ _) _
  | parameterDefault parameter =>
      exact (parameterDefault_fair parameter).map (parameterDefault_advances parameter) _
  | propertyDefault property =>
      exact (propertyDefault_fair property).map (propertyDefault_advances property) _
  | staticValues function =>
      exact (staticValues_fair function same).map (staticValues_advances function) _
  | propertyDefaults info =>
      exact (propertyDefaults_fair info same).map (propertyDefaults_advances info) _
  | constantValues info wanted =>
      subst same
      refine Fair.bind (Looks.fair (members_looks .constant info) r)
        (members_looks .constant info).advances
        (fun _ => discard_advances (constantValues_advances _)) fun constants answered same => ?_
      refine (constantValues_fair same fun constant member => ?_).map
        (constantValues_advances _) _
      exact (Advances.keeps (members_looks .constant info).advances same).holds
        (r.holds_of_members valid answered same constant (List.mem_filter.mp member).1)
  | constantValueOf info name =>
      exact (classConstant?_fair same valid name).map
        (classConstant?_advances info name) _
  | blockValues place =>
      exact (addBlockValues_fair {} place same).map (addBlockValues_advances {} place) _
  | constantIn place name =>
      exact (constantIn?_fair place name same).map (constantIn?_advances place name) _
  | fileValues file =>
      exact (fileValues_fair file same).map (fileValues_advances file) _
  | loadFile | loadText | loadNamespace => exact Loads.fair (query_loads rfl) r
  | _ => exact Looks.fair (query_looks rfl) r

theorem Reflector.Fresh.sound_afterAll {start : Reflector} (fresh : start.Fresh)
    {requests : List Request} (takes : start.Takes requests)
    (same : (start.afterAll requests).index = start.index) :
    (start.afterAll requests).Sound start.index start.options [] := by
  have run : ∀ (requests : List Request) (r : Reflector),
      r.Sound start.index start.options [] → r.Takes requests →
        (r.afterAll requests).index = start.index →
          (r.afterAll requests).Sound start.index start.options [] := by
    intro requests
    induction requests with
    | nil => exact fun _ sound _ _ => sound
    | cons request rest ih =>
        intro r sound takes same
        have restStep : Step (r.after request) (r.afterAll (request :: rest)) :=
          (r.after request).step_afterAll rest
        have sameStep := (request.step r).index.squeeze restStep.index
          (same.trans sound.index_eq.symm)
        have fair : request.query.Fair start.index start.options r :=
          request.query_fair sound.index_eq takes.1
        exact ih (r.after request) (fair sound sameStep).1 takes.2 same
  exact run requests start fresh.sound takes same

end StaticReflection
