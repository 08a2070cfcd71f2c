import StaticReflection.Proofs.Reflection.Sessions

namespace StaticReflection

/-! Between two questions nothing is under way, and what was found out of a constant is
final. -/

/-- A reflector that waits for a question. -/
structure Reflector.Idle (r : Reflector) : Prop where
  classes : r.underway.classes = []
  constants : r.underway.constants = []
  depth : r.underway.depth = 0
  resolving : ∀ id, r.state id ≠ .resolving

theorem Reflector.idle_new (options : Options) (locator : Locator) (sources : SourceCache) :
    (new options locator sources).Idle :=
  ⟨rfl, rfl, rfl, fun _ => nofun⟩

theorem Reflector.Idle.step {r next : Reflector} (idle : r.Idle) (step : Step r next) :
    next.Idle where
  classes := by rw [step.underway, idle.classes]
  constants := by rw [step.underway, idle.constants]
  depth := by rw [step.underway, idle.depth]
  resolving id := by
    by_cases unresolved : r.state id = .unresolved
    · exact step.opened id unresolved
    · rw [step.settled id unresolved]
      exact idle.resolving id

theorem session_quiescent (options : Options) (locator : Locator) (sources : SourceCache)
    (requests : List Request) (request : Request) :
    let before := (Reflector.new options locator sources).afterAll requests
    let after := before.after request
    after.Idle ∧
      (∀ id value, before.state id = .resolved value → after.state id = .resolved value) ∧
      (∀ id error, before.state id = .failed error → after.state id = .failed error) ∧
      ∀ id, before.state id = .unresolved →
        after.state id = .unresolved ∨ (∃ value, after.state id = .resolved value) ∨
          ∃ error, after.state id = .failed error := by
  intro before after
  have idle : before.Idle :=
    (Reflector.idle_new options locator sources).step (Reflector.step_afterAll _ requests)
  have step : Step before after := request.step before
  refine ⟨idle.step step, ?_, ?_, ?_⟩
  · intro id value known
    rw [step.settled id (by simp [known]), known]
  · intro id error known
    rw [step.settled id (by simp [known]), known]
  · intro id unresolved
    have final := step.opened id unresolved
    cases known : after.state id with
    | unresolved => exact .inl rfl
    | resolving => exact absurd known final
    | resolved value => exact .inr (.inl ⟨value, rfl⟩)
    | failed error => exact .inr (.inr ⟨error, rfl⟩)

end StaticReflection
