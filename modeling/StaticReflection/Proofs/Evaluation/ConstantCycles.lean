import StaticReflection.Proofs.Evaluation.SessionAnswers

namespace StaticReflection

/-! Cycles of constants: what is reported as one is one, and a constant on one never has a
value. -/

open Evaluation Setting

/-- Names of which each belongs to a constant whose expression mentions one of the next
name, from a name to the same name again. -/
structure Setting.CycleOfNames (setting : Setting) (r : Reflector) (cycle : List String) :
    Prop where
  length : 2 ≤ cycle.length
  closed : cycle.head? = cycle.getLast?
  linked : cycle.IsChain fun first second => ∃ constant other, r.Holds constant ∧
    r.Holds other ∧ constant.identity = first ∧ other.identity = second ∧
      setting.Mentions constant other
  /-- Without a constant that leads back to itself there are no such names. -/
  cyclic : ∃ constant, r.Holds constant ∧ Relation.TransGen setting.Mentions constant constant

theorem Setting.Circular.names {first second : Setting} (wider : first.Within second)
    {r : Reflector} {cycle : List String} (circular : first.Circular r cycle) :
    second.CycleOfNames r cycle := by
  obtain ⟨chain, constant, held, _, linked, member, head, rfl⟩ := circular
  have notEmpty : 0 < chain.length := List.length_pos_of_mem member
  have mentions : ∀ a b, first.Refers a b → second.Mentions a b :=
    fun a b refers => (refers.mono wider).mentions
  have heldAll : ∀ entry ∈ chain ++ [constant], r.Holds entry := by
    intro entry inChain
    rcases List.mem_append.mp inChain with earlier | last
    · exact held entry earlier
    · cases List.mem_singleton.mp last
      exact held constant member
  refine ⟨?_, ?_, ?_, constant, held constant member, ?_⟩
  · simp only [List.length_map, List.length_append, List.length_singleton]
    omega
  · rw [List.map_append, List.head?_append, List.head?_map, head]
    simp
  · rw [List.isChain_map]
    refine List.IsChain.imp_of_mem_imp (fun a b inA inB refers => ?_) linked
    exact ⟨a, b, heldAll a inA, heldAll b inB, rfl, rfl, mentions a b refers⟩
  · exact Relation.TransGen.mono mentions _ _ (transGen_of_closed linked member)

/-- No answer takes a constant on a cycle. -/
theorem Query.not_ok_of_cyclic {start : Reflector} (fresh : start.Fresh)
    {requests : List Request} (takes : start.Takes requests) {scope : Scope}
    {plan : Plan Value} {other : ConstantInfo}
    (expected : ∀ setting : Setting,
      setting.Only scope plan (start.afterAll requests).Expects)
    (same : ((perform scope plan).next (start.afterAll requests)).index = start.index)
    (depends : start.rules.Depends scope plan other)
    (cyclic : Relation.TransGen start.rules.Refers other other) (value : Value) :
    (perform scope plan).result (start.afterAll requests) ≠ .ok value := by
  intro answered
  have step := ((perform_advances scope plan).next (start.afterAll requests)).toStep
  have sameBefore := (start.step_afterAll requests).index.squeeze step.index same
  have derived := perform_derives (fresh.sound_afterAll takes sameBefore)
    (expected _) (same.trans sameBefore.symm) answered
  exact derived.acyclic unbounded_functional
    (fun event meets => (expected _ event meets).proper) depends cyclic

/-- Over a fixed set of files, a cycle is reported only if there is one, by whatever query
and after whatever others; and a constant that comes to need one on a cycle, itself for
instance, never has a value. -/
theorem cycles_genuine {start : Reflector} (fresh : start.Fresh) {requests : List Request}
    (takes : start.Takes requests) :
    let r := start.afterAll requests
    (∀ request : Request, request.Valid r → (r.after request).index = start.index →
      ∀ cycle, request.query.result r = .error (.circularConstant cycle) →
        start.rules.CycleOfNames (r.after request) cycle) ∧
    (∀ constant other, r.Holds constant →
      ((Query.constantValue constant).next r).index = start.index →
      start.rules.Depends constant.scope (constantValue constant) other →
      Relation.TransGen start.rules.Refers other other →
        ∀ value, (Query.constantValue constant).result r ≠ .ok value) ∧
    ∀ constant other, r.Holds constant →
      ((Query.backingValue constant).next r).index = start.index →
      start.rules.Depends constant.scope (backingValue constant) other →
      Relation.TransGen start.rules.Refers other other →
        ∀ value, (Query.backingValue constant).result r ≠ .ok value := by
  intro r
  refine ⟨fun request valid same cycle failed => ?_,
    fun constant other held same depends cyclic => ?_,
    fun constant other held same depends cyclic => ?_⟩
  · have sameBefore := (start.step_afterAll requests).index.squeeze (request.step r).index same
    have fair : request.query.Fair start.index start.options r :=
      request.query_fair sameBefore valid
    obtain ⟨_, circular⟩ :=
      fair (fresh.sound_afterAll takes sameBefore) (same.trans sameBefore.symm)
    exact (circular cycle failed).names bounded_within
  · exact Query.not_ok_of_cyclic fresh takes (fun _ => Query.expects_constantValue held) same
      depends cyclic
  · exact Query.not_ok_of_cyclic fresh takes (fun _ => Query.expects_backingValue held) same
      depends cyclic

open Sample in
/-- Two constants that need each other. The second one is told the cycle as it was found
from the first. -/
theorem cycles_genuine_pair :
    let start := reflector 3
    let requests := [.constantValue (constant "LEFT" 6)]
    let right : Request := .constantValue (constant "RIGHT" 8)
    start.Fresh ∧ start.Takes requests ∧
    right.query.result (start.afterAll requests) =
      .error (.circularConstant ["LEFT", "RIGHT", "LEFT"]) ∧
    start.rules.CycleOfNames ((start.afterAll requests).after right)
      ["LEFT", "RIGHT", "LEFT"] := by
  intro start requests right
  have takes : start.Takes requests := ⟨rfl, trivial⟩
  have failed : right.query.result (start.afterAll requests) =
      .error (.circularConstant ["LEFT", "RIGHT", "LEFT"]) := rfl
  exact ⟨fresh 3, takes, failed, (cycles_genuine (fresh 3) takes).1 right rfl rfl _ failed⟩

end StaticReflection
