import StaticReflection.Proofs.OrderedMap
import StaticReflection.Reflection.Query

namespace StaticReflection

/-! What queries answer and what they leave behind, for each way to build them. -/

def Reflector.state (reflector : Reflector) (id : ConstantId) : ResolutionState :=
  (reflector.states.find? id).getD .unresolved

/-- The failure is not one of constants that depend on themselves. -/
def ReflectionError.Ordinary (error : ReflectionError) : Prop :=
  ∀ cycle, error ≠ .circularConstant cycle

namespace Query

variable {α β : Type}

/-- The answer of a query to a reflector, or its error. -/
def result (query : Query α) (reflector : Reflector) : Except ReflectionError α :=
  (query reflector).1

def next (query : Query α) (reflector : Reflector) : Reflector :=
  (query reflector).2

@[simp] theorem result_pure (value : α) (r : Reflector) :
    (pure value : Query α).result r = .ok value := rfl

@[simp] theorem next_pure (value : α) (r : Reflector) :
    (pure value : Query α).next r = r := rfl

@[simp] theorem result_throw (error : ReflectionError) (r : Reflector) :
    (throw error : Query α).result r = .error error := rfl

@[simp] theorem next_throw (error : ReflectionError) (r : Reflector) :
    (throw error : Query α).next r = r := rfl

@[simp] theorem result_ofExcept (outcome : Except ReflectionError α) (r : Reflector) :
    (ofExcept outcome : Query α).result r = outcome := by
  cases outcome <;> rfl

@[simp] theorem next_ofExcept (outcome : Except ReflectionError α) (r : Reflector) :
    (ofExcept outcome : Query α).next r = r := by
  cases outcome <;> rfl

theorem result_bind (query : Query α) (rest : α → Query β) (r : Reflector) :
    (query >>= rest).result r =
      match query.result r with
      | .ok value => (rest value).result (query.next r)
      | .error error => .error error := by
  change ((query >>= rest) r).1 = _
  simp only [bind, ExceptT.bind, ExceptT.bindCont, ExceptT.mk, StateT.bind, result, next]
  generalize query r = answered
  obtain ⟨outcome, after⟩ := answered
  cases outcome <;> rfl

theorem next_bind (query : Query α) (rest : α → Query β) (r : Reflector) :
    (query >>= rest).next r =
      match query.result r with
      | .ok value => (rest value).next (query.next r)
      | .error _ => query.next r := by
  change ((query >>= rest) r).2 = _
  simp only [bind, ExceptT.bind, ExceptT.bindCont, ExceptT.mk, StateT.bind, result, next]
  generalize query r = answered
  obtain ⟨outcome, after⟩ := answered
  cases outcome <;> rfl

theorem result_bind_ok {query : Query α} {value : α} {r : Reflector}
    (answered : query.result r = .ok value) (rest : α → Query β) :
    (query >>= rest).result r = (rest value).result (query.next r) := by
  rw [result_bind, answered]

theorem next_bind_ok {query : Query α} {value : α} {r : Reflector}
    (answered : query.result r = .ok value) (rest : α → Query β) :
    (query >>= rest).next r = (rest value).next (query.next r) := by
  rw [next_bind, answered]

theorem result_bind_error {query : Query α} {error : ReflectionError} {r : Reflector}
    (failed : query.result r = .error error) (rest : α → Query β) :
    (query >>= rest).result r = .error error := by
  rw [result_bind, failed]

theorem next_bind_error {query : Query α} {error : ReflectionError} {r : Reflector}
    (failed : query.result r = .error error) (rest : α → Query β) :
    (query >>= rest).next r = query.next r := by
  rw [next_bind, failed]

theorem bind_of_ok {query : Query α} {r after : Reflector} {value : α}
    (answered : query r = (.ok value, after)) (rest : α → Query β) :
    (query >>= rest) r = rest value after := by
  refine Prod.ext ?_ ?_
  · exact (result_bind_ok (congrArg Prod.fst answered) rest).trans
      (congrArg (fun outcome => (rest value).result outcome.2) answered)
  · exact (next_bind_ok (congrArg Prod.fst answered) rest).trans
      (congrArg (fun outcome => (rest value).next outcome.2) answered)

theorem bind_of_error {query : Query α} {r after : Reflector} {error : ReflectionError}
    (failed : query r = (.error error, after)) (rest : α → Query β) :
    (query >>= rest) r = (.error error, after) := by
  refine Prod.ext ?_ ?_
  · exact result_bind_error (congrArg Prod.fst failed) rest
  · exact (next_bind_error (congrArg Prod.fst failed) rest).trans (congrArg Prod.snd failed)

theorem ok_of_bind {query : Query α} {rest : α → Query β} {r : Reflector} {value : β}
    (answered : (query >>= rest).result r = .ok value) :
    ∃ first, query.result r = .ok first ∧ (rest first).result (query.next r) = .ok value := by
  cases first : query.result r with
  | ok given => exact ⟨given, rfl, by rw [← answered, result_bind_ok first]⟩
  | error error =>
      rw [result_bind_error first] at answered
      cases answered

theorem ok_of_toOption {query : Query α} {r : Reflector} {value : α}
    (answered : (query.result r).toOption = some value) : query.result r = .ok value := by
  cases outcome : query.result r with
  | ok given =>
      rw [outcome] at answered
      rw [Option.some.inj answered]
  | error error =>
      rw [outcome] at answered
      cases answered

@[simp] theorem next_map (query : Query α) (f : α → β) (r : Reflector) :
    (f <$> query).next r = query.next r := by
  rw [map_eq_pure_bind, next_bind]
  cases query.result r <;> rfl

@[simp] theorem result_get (r : Reflector) : (get : Query Reflector).result r = .ok r := rfl

@[simp] theorem next_get (r : Reflector) : (get : Query Reflector).next r = r := rfl

@[simp] theorem result_modify (change : Reflector → Reflector) (r : Reflector) :
    (modify change : Query Unit).result r = .ok () := rfl

@[simp] theorem next_modify (change : Reflector → Reflector) (r : Reflector) :
    (modify change : Query Unit).next r = change r := rfl

@[simp] theorem result_outcome (query : Query α) (r : Reflector) :
    (outcome query).result r = .ok (query.result r) := rfl

@[simp] theorem next_outcome (query : Query α) (r : Reflector) :
    (outcome query).next r = query.next r := rfl

@[simp] theorem result_get_bind (rest : Reflector → Query β) (r : Reflector) :
    (get >>= rest : Query β).result r = (rest r).result r := rfl

@[simp] theorem next_get_bind (rest : Reflector → Query β) (r : Reflector) :
    (get >>= rest : Query β).next r = (rest r).next r := rfl

@[simp] theorem result_modify_bind (change : Reflector → Reflector) (rest : Unit → Query β)
    (r : Reflector) :
    (modify change >>= rest : Query β).result r = (rest ()).result (change r) := rfl

@[simp] theorem next_modify_bind (change : Reflector → Reflector) (rest : Unit → Query β)
    (r : Reflector) :
    (modify change >>= rest : Query β).next r = (rest ()).next (change r) := rfl

@[simp] theorem result_options (r : Reflector) : options.result r = .ok r.options := rfl

@[simp] theorem next_options (r : Reflector) : options.next r = r := rfl

@[simp] theorem result_stateOf (constant : ConstantInfo) (r : Reflector) :
    (stateOf constant).result r = .ok (r.state constant.id) := rfl

@[simp] theorem next_stateOf (constant : ConstantInfo) (r : Reflector) :
    (stateOf constant).next r = r := rfl

@[simp] theorem result_setState (constant : ConstantInfo) (state : ResolutionState)
    (r : Reflector) : (setState constant state).result r = .ok () := rfl

end Query

def Reflector.withUnderway (r : Reflector) (underway : Underway) : Reflector :=
  { r with underway }

def Reflector.withState (r : Reflector) (id : ConstantId) (state : ResolutionState) :
    Reflector :=
  { r with states := r.states.insert id state }

@[simp] theorem Reflector.state_withUnderway (r : Reflector) (underway : Underway)
    (id : ConstantId) : (r.withUnderway underway).state id = r.state id := rfl

theorem Reflector.state_withState (r : Reflector) (id other : ConstantId)
    (state : ResolutionState) :
    (r.withState id state).state other = if other = id then state else r.state other := by
  unfold Reflector.state Reflector.withState
  rw [OrderedMap.find?_insert]
  split <;> rfl

namespace Query

variable {α : Type}

@[simp] theorem next_setState (constant : ConstantInfo) (state : ResolutionState)
    (r : Reflector) : (setState constant state).next r = r.withState constant.id state := rfl

@[simp] theorem result_inside (enter leave : Underway → Underway) (query : Query α)
    (r : Reflector) :
    (inside enter leave query).result r =
      query.result (r.withUnderway (enter r.underway)) := by
  unfold inside
  rw [result_modify_bind, result_bind_ok (result_outcome _ _), result_modify_bind,
    result_ofExcept]
  rfl

@[simp] theorem next_inside (enter leave : Underway → Underway) (query : Query α)
    (r : Reflector) :
    (inside enter leave query).next r =
      (query.next (r.withUnderway (enter r.underway))).withUnderway
        (leave (query.next (r.withUnderway (enter r.underway))).underway) := by
  unfold inside
  rw [next_modify_bind, next_bind_ok (result_outcome _ _), next_modify_bind, next_ofExcept]
  rfl

/-! Whether a query is answered by an integer, or fails in some way, can be found out by running
it. -/

instance (query : Query Value) (r : Reflector) (number : Int64) :
    Decidable (query.result r = .ok (.int number)) :=
  match query.result r with
  | .ok (.int given) => decidable_of_iff (given = number) (by simp)
  | .ok .null | .ok (.bool _) | .ok (.float _) | .ok (.string _) | .ok (.array _)
  | .ok (.enumCase _ _) | .error _ => isFalse (by simp)

instance (query : Query α) (r : Reflector) (error : ReflectionError) :
    Decidable (query.result r = .error error) :=
  match query.result r with
  | .ok _ => isFalse (by simp)
  | .error given => decidable_of_iff (given = error) (by simp)

end Query

end StaticReflection
