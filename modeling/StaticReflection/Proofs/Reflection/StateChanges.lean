import Mathlib.Order.Defs.Unbundled
import StaticReflection.Proofs.Reflection.QueryRuns

namespace StaticReflection

/-! How a reflector may change. A relation between the reflector before a query and the
one after it carries over from the parts of a query to the whole if it is a preorder. -/

/-- Every outcome of a query, be it an answer or an error, leaves a related reflector, and
the errors have a property. -/
def Query.Moves {α : Type} (R : Reflector → Reflector → Prop) (E : ReflectionError → Prop)
    (query : Query α) : Prop :=
  ∀ r, R r (query.next r) ∧ ∀ error, query.result r = .error error → E error

namespace Query.Moves

variable {α β γ : Type} {R S : Reflector → Reflector → Prop} {E F : ReflectionError → Prop}

theorem next {query : Query α} (moves : query.Moves R E) (r : Reflector) :
    R r (query.next r) :=
  (moves r).1

theorem error {query : Query α} (moves : query.Moves R E) {r : Reflector}
    {error : ReflectionError} (failed : query.result r = .error error) : E error :=
  (moves r).2 error failed

theorem mono {query : Query α} (moves : query.Moves R E) (weaker : ∀ r s, R r s → S r s)
    (broader : ∀ error, E error → F error) : query.Moves S F :=
  fun r => ⟨weaker r _ (moves.next r), fun _ failed => broader _ (moves.error failed)⟩

/-- A query that always has an answer. -/
theorem of_ok {query : Query α} (related : ∀ r, R r (query.next r))
    (answered : ∀ r, ∃ value, query.result r = .ok value) : query.Moves R E := by
  refine fun r => ⟨related r, fun error failed => ?_⟩
  obtain ⟨value, answered⟩ := answered r
  rw [answered] at failed
  cases failed

theorem outcome {query : Query α} (moves : query.Moves R E) :
    (Query.outcome query).Moves R E :=
  of_ok moves.next fun r => ⟨query.result r, rfl⟩

theorem modify {change : Reflector → Reflector} (related : ∀ r, R r (change r)) :
    (modify change : Query Unit).Moves R E :=
  of_ok related fun _ => ⟨(), rfl⟩

variable [IsPreorder Reflector R]

theorem pure (value : α) : (Pure.pure value : Query α).Moves R E :=
  of_ok refl fun _ => ⟨value, rfl⟩

theorem throw {error : ReflectionError} (allowed : E error) :
    (MonadExcept.throw error : Query α).Moves R E := by
  refine fun r => ⟨refl r, fun thrown failed => ?_⟩
  cases failed
  exact allowed

theorem ofExcept {result : Except ReflectionError α}
    (allowed : ∀ error, result = .error error → E error) :
    (MonadExcept.ofExcept result : Query α).Moves R E := by
  intro r
  rw [next_ofExcept, result_ofExcept]
  exact ⟨refl r, allowed⟩

theorem bind {query : Query α} {rest : α → Query β} (first : query.Moves R E)
    (second : ∀ value, (rest value).Moves R E) : (query >>= rest).Moves R E := by
  intro r
  cases answered : query.result r with
  | ok value =>
      rw [next_bind_ok answered, result_bind_ok answered]
      exact ⟨IsTrans.trans _ _ _ (first.next r) ((second value).next _),
        fun _ failed => (second value).error failed⟩
  | error error =>
      rw [next_bind_error answered, result_bind_error answered]
      refine ⟨first.next r, fun thrown same => ?_⟩
      cases same
      exact first.error answered

theorem get : (MonadState.get : Query Reflector).Moves R E :=
  of_ok refl fun r => ⟨r, rfl⟩

theorem options : Query.options.Moves R E :=
  of_ok refl fun r => ⟨r.options, rfl⟩

theorem map {query : Query α} (moves : query.Moves R E) (f : α → β) :
    (f <$> query).Moves R E := by
  rw [map_eq_pure_bind]
  exact moves.bind fun value => pure (f value)

theorem foldlM {step : β → α → Query β}
    (moves : ∀ result value, (step result value).Moves R E) (values : List α) (start : β) :
    (values.foldlM step start).Moves R E := by
  induction values generalizing start with
  | nil => exact pure start
  | cons value rest ih =>
      rw [List.foldlM_cons]
      exact (moves start value).bind ih

theorem mapM {f : α → Query β} (moves : ∀ value, (f value).Moves R E) (values : List α) :
    (values.mapM f).Moves R E := by
  induction values with
  | nil => simpa using pure []
  | cons value rest ih =>
      rw [List.mapM_cons]
      exact (moves value).bind fun first => ih.bind fun others => pure (first :: others)

theorem findM? {test : α → Query Bool} (moves : ∀ value, (test value).Moves R E)
    (values : List α) : (values.findM? test).Moves R E := by
  induction values with
  | nil => exact pure none
  | cons value rest ih =>
      refine (moves value).bind fun passed => ?_
      cases passed with
      | true => exact pure (some value)
      | false => exact ih

end Query.Moves

/-! The relations that queries are measured by. -/

def EntityIndex.Grows (before after : EntityIndex) : Prop :=
  after = before ∨ before.files.length < after.files.length

theorem EntityIndex.Grows.trans {a b c : EntityIndex} (first : a.Grows b)
    (second : b.Grows c) : a.Grows c := by
  rcases first with rfl | first
  · exact second
  · rcases second with rfl | second
    · exact .inr first
    · exact .inr (Nat.lt_trans first second)

/-- An index that is the same in the end was the same in between. -/
theorem EntityIndex.Grows.squeeze {a b c : EntityIndex} (first : a.Grows b)
    (second : b.Grows c) (same : c = a) : b = a := by
  rcases first with rfl | first
  · rfl
  · rcases second with rfl | second
    · exact same
    · subst same
      omega

/-- The outcomes of a cache are those of a later one too, under the same keys. -/
structure SourceCache.Within (cache later : SourceCache) : Prop where
  canonical : later.disk.canonical = cache.disk.canonical
  outcomes : cache.outcomes.Within later.outcomes

theorem SourceCache.within_refl (cache : SourceCache) : cache.Within cache :=
  ⟨rfl, OrderedMap.within_refl _⟩

theorem SourceCache.Within.trans {a b c : SourceCache} (first : a.Within b)
    (second : b.Within c) : a.Within c :=
  ⟨second.canonical.trans first.canonical, first.outcomes.trans second.outcomes⟩

/-- A load: all that it may change is which declarations are known. -/
structure Load (r next : Reflector) : Prop where
  underway : next.underway = r.underway
  options : next.options = r.options
  locator : next.locator = r.locator
  states : next.states = r.states
  hidden : r.hidden <+: next.hidden
  index : r.index.Grows next.index
  sources : r.sources.Within next.sources
  declared : r.index.Within next.index
  described : r.descriptors.Within next.descriptors

/-- A look-up: it loads only what the locator finds. -/
structure Look (r next : Reflector) : Prop extends Load r next where
  stays : r.locator = .nowhere → next.index = r.index

instance : IsPreorder Reflector Load where
  refl r := ⟨rfl, rfl, rfl, rfl, List.prefix_refl _, .inl rfl, r.sources.within_refl,
    r.index.within_refl, r.descriptors.within_refl⟩
  trans _ _ _ first second :=
    ⟨second.underway.trans first.underway, second.options.trans first.options,
      second.locator.trans first.locator, second.states.trans first.states,
      first.hidden.trans second.hidden, first.index.trans second.index,
      first.sources.trans second.sources, first.declared.trans second.declared,
      first.described.trans second.described⟩

instance : IsPreorder Reflector Look where
  refl r := ⟨refl r, fun _ => rfl⟩
  trans _ _ _ first second :=
    ⟨IsTrans.trans _ _ _ first.toLoad second.toLoad, fun nowhere =>
      (second.stays (first.locator.trans nowhere)).trans (first.stays nowhere)⟩

/-- Any query. What is under way is as before, what was found out of a constant stays,
and no constant is left in the middle of its evaluation. -/
structure Step (r next : Reflector) : Prop where
  underway : next.underway = r.underway
  options : next.options = r.options
  locator : next.locator = r.locator
  hidden : r.hidden <+: next.hidden
  index : r.index.Grows next.index
  sources : r.sources.Within next.sources
  declared : r.index.Within next.index
  described : r.descriptors.Within next.descriptors
  settled : ∀ id, r.state id ≠ .unresolved → next.state id = r.state id
  opened : ∀ id, r.state id = .unresolved → next.state id ≠ .resolving

/-- Any query that loads only what the locator finds. -/
structure Advance (r next : Reflector) : Prop extends Step r next where
  stays : r.locator = .nowhere → next.index = r.index

theorem Load.step {r next : Reflector} (load : Load r next) : Step r next where
  underway := load.underway
  options := load.options
  locator := load.locator
  hidden := load.hidden
  index := load.index
  sources := load.sources
  declared := load.declared
  described := load.described
  settled id _ := by simp only [Reflector.state, load.states]
  opened id unresolved := by
    rw [Reflector.state, load.states, ← Reflector.state, unresolved]
    simp

instance : IsPreorder Reflector Step where
  refl r := (refl (r := Load) r).step
  trans a b c first second := by
    refine ⟨second.underway.trans first.underway, second.options.trans first.options,
      second.locator.trans first.locator, first.hidden.trans second.hidden,
      first.index.trans second.index, first.sources.trans second.sources,
      first.declared.trans second.declared, first.described.trans second.described, ?_, ?_⟩
    · intro id known
      have same := first.settled id known
      rw [second.settled id (same ▸ known), same]
    · intro id unresolved
      by_cases open_ : b.state id = .unresolved
      · exact second.opened id open_
      · rw [second.settled id open_]
        exact first.opened id unresolved

instance : IsPreorder Reflector Advance where
  refl r := ⟨refl r, fun _ => rfl⟩
  trans _ _ _ first second :=
    ⟨IsTrans.trans _ _ _ first.toStep second.toStep, fun nowhere =>
      (second.stays (first.locator.trans nowhere)).trans (first.stays nowhere)⟩

namespace Query

variable {α : Type} {query : Query α}

def Loads (query : Query α) : Prop :=
  query.Moves Load ReflectionError.Ordinary

def Looks (query : Query α) : Prop :=
  query.Moves Look ReflectionError.Ordinary

def Advances (query : Query α) : Prop :=
  query.Moves Advance fun _ => True

theorem Looks.loads (looks : query.Looks) : query.Loads :=
  looks.mono (fun _ _ look => look.toLoad) fun _ ordinary => ordinary

theorem Looks.advances (looks : query.Looks) : query.Advances :=
  looks.mono (fun _ _ look => ⟨look.toLoad.step, look.stays⟩) fun _ _ => trivial

end Query

theorem Query.index_of_bind {α β : Type} {query : Query α} {rest : α → Query β}
    {r : Reflector} (first : query.Advances) (second : ∀ value, (rest value).Advances)
    (same : ((query >>= rest).next r).index = r.index) :
    (query.next r).index = r.index ∧ ∀ value, query.result r = .ok value →
      ((rest value).next (query.next r)).index = (query.next r).index := by
  cases answered : query.result r with
  | ok value =>
      rw [next_bind_ok answered] at same
      have middle := (first.next r).index.squeeze ((second value).next _).index same
      refine ⟨middle, fun other sameValue => ?_⟩
      cases sameValue
      rw [same, middle]
  | error error =>
      rw [next_bind_error answered] at same
      exact ⟨same, nofun⟩

end StaticReflection
