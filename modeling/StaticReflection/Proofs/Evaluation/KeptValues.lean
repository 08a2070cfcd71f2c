import StaticReflection.Proofs.Evaluation.LargerMemory
import StaticReflection.Proofs.Evaluation.SessionAnswers

namespace StaticReflection

/-! What earlier queries do to the value of a constant. A constant that has a value on a
fresh reflector keeps it unless one that it needs was given up at a bound before. -/

open Evaluation Setting

/-! A bound that is hit for the sake of another constant leaves no trace. -/

/-- While a constant is evaluated no constant is given up at a bound. -/
structure Spare (r next : Reflector) : Prop where
  underway : next.underway = r.underway
  spared : r.underway.constants ≠ [] → ∀ id bound limit,
    next.state id = .failed (.depthLimit bound limit) →
      r.state id = .failed (.depthLimit bound limit)

instance : IsPreorder Reflector Spare where
  refl _ := ⟨rfl, fun _ _ _ _ state => state⟩
  trans _ _ _ first second := by
    refine ⟨second.underway.trans first.underway, fun busy id bound limit state => ?_⟩
    exact first.spared busy id bound limit
      (second.spared (first.underway ▸ busy) id bound limit state)

theorem Query.Looks.spares {α : Type} {query : Query α} (looks : query.Looks) :
    query.Moves Spare fun _ => True := by
  refine looks.mono (fun r next look => ⟨look.underway, fun _ id bound limit state => ?_⟩)
    fun _ _ => trivial
  simp only [Reflector.state, look.states] at state ⊢
  exact state

theorem Evaluation.settled_inner {result : Except ReflectionError Value} {bound : Bound}
    {limit : Nat} : settled false result ≠ .failed (.depthLimit bound limit) := by
  intro settles
  have failed := eq_error_of_settled settles
  rw [failed] at settles
  cases settles

section Spares

variable {eval : Scope → NodeId → Query Value}
  (spares : ∀ scope node, (eval scope node).Moves Spare fun _ => True)

include spares

theorem Evaluation.resolve_spares_others {constant : ConstantInfo} {node : NodeId}
    {r : Reflector} {id : ConstantId} (apart : id ≠ constant.id) {bound : Bound} {limit : Nat}
    (state : ((resolve eval constant node).next r).state id =
      .failed (.depthLimit bound limit)) :
    r.state id = .failed (.depthLimit bound limit) := by
  cases known : r.state constant.id with
  | resolved value => rwa [(resolve_of_resolved known).2] at state
  | failed error => rwa [(resolve_of_failed known).2] at state
  | resolving => rwa [(resolve_of_resolving known).2] at state
  | unresolved =>
      by_cases long : r.options.maxConstantChain ≤ r.underway.constants.length
      · rwa [(resolve_of_long_chain known long).2] at state
      · rw [(resolve_of_unresolved known (Nat.lt_of_not_le long)).2,
          Reflector.state_leaving, if_neg apart] at state
        have busy : (r.entering constant).underway.constants ≠ [] := List.concat_ne_nil _ _
        have before := ((spares constant.scope node).next (r.entering constant)).spared busy
          id bound limit state
        rwa [Reflector.state_entering, if_neg apart] at before

theorem Evaluation.resolve_spares (advances : ∀ scope node, (eval scope node).Advances)
    (constant : ConstantInfo) (node : NodeId) :
    (resolve eval constant node).Moves Spare fun _ => True := by
  refine fun r => ⟨⟨((resolve_advances advances constant node).next r).underway,
    fun busy id bound limit state => ?_⟩, fun _ _ => trivial⟩
  by_cases same : id = constant.id
  · subst same
    cases known : r.state constant.id with
    | resolved value => rwa [(resolve_of_resolved known).2, known] at state
    | failed error => rwa [(resolve_of_failed known).2, known] at state
    | resolving => rwa [(resolve_of_resolving known).2, known] at state
    | unresolved =>
        by_cases long : r.options.maxConstantChain ≤ r.underway.constants.length
        · rwa [(resolve_of_long_chain known long).2, known] at state
        · rw [(resolve_of_unresolved known (Nat.lt_of_not_le long)).2,
            Reflector.state_leaving, if_pos rfl] at state
          have left : ((eval constant.scope node).next
              (r.entering constant)).underway.leaveConstant = r.underway := by
            rw [((spares constant.scope node).next (r.entering constant)).underway]
            exact Underway.leaveConstant_enterConstant constant.identity r.underway
          -- It is not the outermost constant, so a bound leaves it open.
          rw [left, List.isEmpty_eq_false_iff.mpr busy] at state
          exact absurd state settled_inner
  · exact resolve_spares_others spares same state

end Spares

theorem Evaluation.evaluate_spares (room : Nat) (mode : Mode) (scope : Scope)
    (node : NodeId) : (evaluate room mode scope node).Moves Spare fun _ => True := by
  induction room generalizing mode scope node with
  | zero => exact .bind .options fun _ => .throw trivial
  | succ room ih =>
      intro r
      have inner := (Plan.carryOut_moves Query.Looks.spares (fun mode node => ih mode scope node)
        (resolve_spares (ih .strict) (evaluate_advances room .strict))
        (expression scope mode node)).next (r.withUnderway r.underway.enterExpression)
      refine ⟨⟨((evaluate_advances (room + 1) mode scope node).next r).underway,
        fun busy id bound limit state => ?_⟩, fun _ _ => trivial⟩
      unfold evaluate at state
      rw [Query.next_inside] at state
      exact inner.spared busy id bound limit state

theorem Query.initializer_spares {scope : Scope} {constant : ConstantInfo} {node : NodeId}
    {r : Reflector} {id : ConstantId} (apart : constant.id ≠ id) {bound : Bound} {limit : Nat}
    (state : ((perform scope (.initializer constant node)).next r).state id =
      .failed (.depthLimit bound limit)) :
    r.state id = .failed (.depthLimit bound limit) := by
  have run : perform scope (.initializer constant node) r =
      (resolve (Evaluation.evaluate (r.options.maxExpressionDepth - r.underway.depth) .strict)
        constant node >>= pure) r := rfl
  rw [bind_pure] at run
  have next : (perform scope (.initializer constant node)).next r = _ := congrArg Prod.snd run
  rw [next] at state
  exact resolve_spares_others (Evaluation.evaluate_spares _ .strict) apart.symm state

theorem Query.constantValue_spares {constant : ConstantInfo} {r : Reflector}
    {id : ConstantId} (apart : constant.id ≠ id) {bound : Bound} {limit : Nat}
    (state : ((constantValue constant).next r).state id = .failed (.depthLimit bound limit)) :
    r.state id = .failed (.depthLimit bound limit) := by
  unfold constantValue Evaluation.constantValue at state
  split at state
  · exact state
  · split at state
    · exact initializer_spares apart state
    · exact state

theorem Query.backingValue_spares {constant : ConstantInfo} {r : Reflector}
    {id : ConstantId} (apart : constant.id ≠ id) {bound : Bound} {limit : Nat}
    (state : ((backingValue constant).next r).state id = .failed (.depthLimit bound limit)) :
    r.state id = .failed (.depthLimit bound limit) := by
  unfold backingValue Evaluation.backingValue at state
  split at state
  · exact initializer_spares apart state
  · exact state

/-- Requests that look something up, or ask for the value of one other constant. -/
def Request.Avoids (id : ConstantId) : Request → Prop
  | .constantValue constant | .backingValue constant => constant.id ≠ id
  | request => request.isLookUp = true

theorem Request.Avoids.spares {request : Request} {id : ConstantId}
    (avoids : request.Avoids id) {r : Reflector} {bound : Bound} {limit : Nat}
    (state : (r.after request).state id = .failed (.depthLimit bound limit)) :
    r.state id = .failed (.depthLimit bound limit) := by
  cases request with
  | constantValue constant =>
      have next : r.after (.constantValue constant) = (Query.constantValue constant).next r :=
        Query.next_map _ _ _
      rw [next] at state
      exact Query.constantValue_spares avoids state
  | backingValue constant =>
      have next : r.after (.backingValue constant) = (Query.backingValue constant).next r :=
        Query.next_map _ _ _
      rw [next] at state
      exact Query.backingValue_spares avoids state
  | _ =>
      have look := (query_looks avoids).next r
      simp only [Reflector.after, Reflector.state, look.states] at state ⊢
      exact state

theorem Reflector.spared_afterAll {r : Reflector} {requests : List Request} {id : ConstantId}
    (avoid : ∀ request ∈ requests, request.Avoids id) {bound : Bound} {limit : Nat}
    (state : (r.afterAll requests).state id = .failed (.depthLimit bound limit)) :
    r.state id = .failed (.depthLimit bound limit) := by
  induction requests generalizing r with
  | nil => exact state
  | cons request rest ih =>
      have after := ih (fun other member => avoid other (List.mem_cons_of_mem _ member)) state
      exact (avoid request (by simp)).spares after

/-! What was answered once is answered again. -/

namespace Reflector.Session

variable {start : Reflector} {requests : List Request} (session : start.Session requests)
  {constant needed : ConstantInfo} {value : Value}

include session

theorem nothing : start.Session [] :=
  ⟨session.fresh, session.nowhere, trivial, by simp⟩

theorem keeps : start.Keeps (start.afterAll requests) :=
  ⟨session.index, (start.step_afterAll requests).hidden⟩

theorem ahead : Ahead start (start.afterAll requests) where
  underway := (start.step_afterAll requests).underway
  resolved id known state := by
    rw [session.fresh.states] at state
    cases state

section Answered

variable (held : (start.afterAll requests).Holds constant)
  (answered : (Query.constantValue constant).result (start.afterAll requests) = .ok value)

include held answered

theorem answers :
    ((Query.constantValue constant).next (start.afterAll requests)).Sound start.index
      start.options [] ∧
    (bounded start.index start.options).Answers constant.scope (constantValue constant)
      (start.afterAll requests) ((Query.constantValue constant).next (start.afterAll requests))
      value := by
  obtain ⟨sound, answers, _⟩ := Query.perform_follows constant.scope
    (constantValue constant) [] _ session.sound (.outermost (Query.expects_constantValue held))
    (session.still (Query.constantValue_advances constant))
  exact ⟨sound, answers value answered⟩

/-- All that an answer took lies within the bound on ancestors. -/
theorem depends_bounded
    (depends : start.rules.Depends constant.scope (constantValue constant) needed) :
    (bounded start.index start.options).Depends constant.scope (constantValue constant)
      needed :=
  depends.narrow bounded_within unbounded_functional
    (fun event meets => (Query.expects_constantValue held event meets).proper)
    (session.answers held answered).2.derived

theorem resolved_of_depends
    (depends : (bounded start.index start.options).Depends constant.scope
      (constantValue constant) needed) :
    ∃ known,
      ((Query.constantValue constant).next (start.afterAll requests)).state needed.id =
        .resolved known ∧
      (bounded start.index start.options).Evaluates needed known := by
  obtain ⟨sound, answers⟩ := session.answers held answered
  have keeps := Query.Advances.keeps (Query.constantValue_advances constant)
    (session.still (Query.constantValue_advances constant))
  obtain ⟨heldNeeded, known, state⟩ := answers.resolved sound
    (fun first demands => demands.depends.holds
      sound.index_eq (Query.expects_constantValue (keeps.holds held))) depends
  exact ⟨known, state, (sound.resolved needed known heldNeeded state).1⟩

end Answered

section Kept

variable (held : start.Holds constant)
  (answered : (Query.constantValue constant).result start = .ok value)

include held answered

/-- Only a bound makes a constant fail that the value on the fresh reflector took. -/
theorem depthLimit_of_failed
    (depends : (bounded start.index start.options).Depends constant.scope
      (constantValue constant) needed) {error : ReflectionError}
    (failed : (start.afterAll requests).state needed.id = .failed error) :
    ∃ bound limit, error = .depthLimit bound limit := by
  by_contra! apart
  obtain ⟨known, _, node, stands, derived⟩ :=
    session.nothing.resolved_of_depends held answered depends
  have sound := session.sound
  have heldNeeded := depends.holds sound.index_eq
    (Query.expects_constantValue (session.keeps.holds held))
  exact (sound.failed needed error node heldNeeded failed stands).underivable apart known derived

theorem kept_of_unfailed
    (unfailed : ∀ needed bound limit,
      start.rules.Depends constant.scope (constantValue constant) needed →
        (start.afterAll requests).state needed.id ≠ .failed (.depthLimit bound limit)) :
    (Query.constantValue constant).result (start.afterAll requests) = .ok value := by
  have advances := Query.constantValue_advances constant
  refine (Query.perform_repeats constant.scope (constantValue constant)
    [] start (start.afterAll requests) session.fresh.sound session.sound session.ahead
    (.outermost (Query.expects_constantValue held))
    (.outermost (Query.expects_constantValue (session.keeps.holds held)))
    (session.nothing.still advances) (session.still advances) ?_ value answered).1
  intro needed error depends failed
  obtain ⟨bound, limit, rfl⟩ := session.depthLimit_of_failed held answered depends failed
  exact unfailed needed bound limit (depends.mono bounded_within) failed

end Kept

end Reflector.Session

/-- A constant that has a value on a fresh reflector has it after other requests exactly if
they left no constant that it needs given up at a bound. A request for the value of one
constant gives up no other, so only one that evaluates a default, a static variable or
several constants may do that to a constant that is not asked for. It does it to the outermost
constant that it comes to: while one is under way, no constant is given up at a bound. -/
theorem value_kept_iff {start : Reflector} {requests : List Request}
    (session : start.Session requests) {constant : ConstantInfo} {value : Value}
    (held : start.Holds constant)
    (answered : (Query.constantValue constant).result start = .ok value) :
    let r := start.afterAll requests
    ((Query.constantValue constant).result r = .ok value ↔
      ∀ needed bound limit,
        start.rules.Depends constant.scope (constantValue constant) needed →
          r.state needed.id ≠ .failed (.depthLimit bound limit)) ∧
    ((∀ needed, start.rules.Depends constant.scope (constantValue constant) needed →
        ∀ request ∈ requests, request.Avoids needed.id) →
      (Query.constantValue constant).result r = .ok value) ∧
    ∀ (middle : Reflector) (room : Nat) (mode : Mode) (scope : Scope) (node : NodeId),
      middle.underway.constants ≠ [] → ∀ id bound limit,
        ((evaluate room mode scope node).next middle).state id =
            .failed (.depthLimit bound limit) →
          middle.state id = .failed (.depthLimit bound limit) := by
  intro r
  have heldLater := session.keeps.holds held
  refine ⟨⟨fun kept needed bound limit depends failed => ?_, ?_⟩, fun avoid => ?_,
    fun middle room mode scope node => ((evaluate_spares room mode scope node).next middle).spared⟩
  · -- The answer leaves what it took resolved, but what has failed stays failed.
    obtain ⟨known, state, _⟩ := session.resolved_of_depends heldLater kept
      (session.depends_bounded heldLater kept depends)
    have step := ((Query.constantValue_advances constant).next r).toStep
    rw [step.settled needed.id (by simp [failed]), failed] at state
    cases state
  · exact session.kept_of_unfailed held answered
  · refine session.kept_of_unfailed held answered fun needed bound limit depends failed => ?_
    have before := Reflector.spared_afterAll (avoid needed depends) failed
    rw [session.fresh.states] at before
    cases before

open Sample in
/-- A default that nests too deep makes a constant fail that has a value by itself. -/
theorem value_lost_to_default :
    let start := reflector 3
    let requests := [.parameterDefault parameter]
    let sum := constant "TWO" 4
    start.Session requests ∧ start.Holds sum ∧
    (Query.constantValue sum).result start = .ok (.int 2) ∧
    (Query.constantValue sum).result (start.afterAll requests) =
      .error (.depthLimit .expression 3) ∧
    ∃ needed bound limit, start.rules.Depends sum.scope (constantValue sum) needed ∧
      (start.afterAll requests).state needed.id = .failed (.depthLimit bound limit) := by
  intro start requests sum
  have session : start.Session requests :=
    ⟨fresh 3, rfl, ⟨trivial, trivial⟩, by simp [requests, Request.isLoad]⟩
  have held : start.Holds sum := rfl
  have answered : (Query.constantValue sum).result start = .ok (.int 2) := rfl
  have lost : (Query.constantValue sum).result (start.afterAll requests) =
      .error (.depthLimit .expression 3) := rfl
  refine ⟨session, held, answered, lost, ?_⟩
  by_contra! unfailed
  have kept := (value_kept_iff session held answered).1.mpr
    fun needed bound limit depends => unfailed needed bound limit depends
  cases lost.symm.trans kept

namespace Sample

/-- The nodes of `const E1 = 1, E = E1, D1 = E, D = D1, C = E + D;`. -/
def chainNodes : List Node :=
  [.intLiteral 1, .constDeclarator "E1" 0,
    .constFetch "E1", .constDeclarator "E" 2,
    .constFetch "E", .constDeclarator "D1" 4,
    .constFetch "D1", .constDeclarator "D" 6,
    .constFetch "E", .constFetch "D", .binary .plus 8 9, .constDeclarator "C" 10,
    .constStatement [1, 3, 5, 7, 11] none,
    .sourceFile "/chain.php" [12]]

def chainArena : Arena :=
  ⟨(chainNodes.map fun node => (node, ⟨0, 0⟩)).toArray⟩

def chainFile : SourceFile where
  path := "/chain.php"
  text := []
  lines := ⟨[0]⟩
  arena := chainArena
  root := 13
  diagnostics := []
  blocks := namespaceBlocks ⟨chainArena, ⟨[0]⟩⟩ 13

def chainPlace : PlacedBlock :=
  ⟨chainFile, 0, ⟨"", 13, [12], none, Entities.discover ⟨chainArena, ⟨[0]⟩⟩ "" [12]⟩⟩

def chainConstant (name : String) (node : NodeId) : ConstantInfo :=
  .declaredAt (.named (.constant name)) chainPlace ⟨name, node, node + 1, .statement, none⟩

end Sample

open Sample in
/-- Asked for by itself, `D` needs one constant more than the chain may have, and keeps that
failure. So `C` loses a value that it had on the fresh reflector. -/
theorem value_lost_to_outermost_constant :
    let start : Reflector :=
      { options := { maxConstantChain := 3 }, index := .ofFiles [chainFile] }
    let outermost := chainConstant "D" 6
    let sum := chainConstant "C" 10
    let requests := [Request.constantValue outermost]
    start.Session requests ∧ start.Holds outermost ∧ start.Holds sum ∧ outermost.id ≠ sum.id ∧
    (Query.constantValue sum).result start = .ok (.int 2) ∧
    (start.afterAll requests).state outermost.id = .failed (.depthLimit .constantChain 3) ∧
    (Query.constantValue sum).result (start.afterAll requests) ≠ .ok (.int 2) := by
  intro start outermost sum requests
  have fresh : start.Fresh := ⟨⟨[chainFile], rfl⟩, fun _ => rfl, rfl⟩
  have session : start.Session requests :=
    ⟨fresh, rfl, ⟨rfl, trivial⟩, by simp [requests, Request.isLoad]⟩
  exact ⟨session, rfl, rfl, by decide, by decide +kernel, rfl, by decide +kernel⟩

end StaticReflection
