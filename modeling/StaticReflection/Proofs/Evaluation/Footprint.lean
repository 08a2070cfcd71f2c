import StaticReflection.Proofs.Evaluation.OpenExpressions
import StaticReflection.Proofs.Evaluation.SessionAnswers

namespace StaticReflection

/-! What an evaluation touches: the constants that come up on its way, each with those that
come up in the evaluation of its own expression. -/

/-- What comes up after a query has answered. Nothing does after an error. -/
def Query.onward {α β : Type} (query : Query α) (rest : α → Reflector → List β)
    (r : Reflector) : List β :=
  match query.result r with
  | .ok value => rest value (query.next r)
  | .error _ => []

namespace Evaluation

/-- The constants that come up as a plan is carried out, given those that come up at its
nodes and from the constants that it asks for. -/
def planReached {α : Type} (room : Nat) (scope : Scope)
    (atNode : Mode → NodeId → Reflector → List ConstantInfo)
    (atConstant : ConstantInfo → NodeId → Reflector → List ConstantInfo) :
    Plan α → Reflector → List ConstantInfo
  | .done _, _ => []
  | .askNode mode node next, r =>
      atNode mode node r ++ (evaluate room mode scope node).onward
        (fun value => planReached room scope atNode atConstant (next value)) r
  | .askConstant constant node next, r =>
      atConstant constant node r ++ (resolve (evaluate room .strict) constant node).onward
        (fun value => planReached room scope atNode atConstant (next value)) r
  | .askClass name next, r =>
      (Query.classNamed name).onward
        (fun info => planReached room scope atNode atConstant (next info)) r
  | .askMember info name next, r =>
      (Query.member? .constant info name).onward
        (fun member => planReached room scope atNode atConstant (next member)) r
  | .askDeclared name next, r =>
      (Query.constant? name).onward
        (fun constant => planReached room scope atNode atConstant (next constant)) r
  | .askIndex next, r => planReached room scope atNode atConstant (next r.index) r
  | .askPlatform next, r => planReached room scope atNode atConstant (next r.options.platform) r

/-- A constant, and what comes up in its expression if that is evaluated now. -/
def resolveReached (inside : Scope → NodeId → Reflector → List ConstantInfo)
    (constant : ConstantInfo) (node : NodeId) (r : Reflector) : List ConstantInfo :=
  constant :: match r.state constant.id with
    | .unresolved =>
        if r.options.maxConstantChain ≤ r.underway.constants.length then []
        else inside constant.scope node (r.entering constant)
    | _ => []

/-- The constants that come up in the evaluation of a node, in the order in which they do. -/
def reached : Nat → Mode → Scope → NodeId → Reflector → List ConstantInfo
  | 0, _, _, _, _ => []
  | room + 1, mode, scope, node, r =>
      planReached room scope (reached room · scope ·) (resolveReached (reached room .strict))
        (expression scope mode node) r

def carryReached {α : Type} (room : Nat) (scope : Scope) (plan : Plan α) :
    Reflector → List ConstantInfo :=
  planReached room scope (reached room · scope ·) (resolveReached (reached room .strict)) plan

end Evaluation

/-- The constants that come up as the value of a constant is found out, itself included. -/
def Query.reachedBy (constant : ConstantInfo) (r : Reflector) : List ConstantInfo :=
  Evaluation.carryReached (r.options.maxExpressionDepth - r.underway.depth) constant.scope
    (Evaluation.constantValue constant) r

/-- A query touches only the constants that come up, and when it answers it has found out
the value of each of them. -/
structure Query.Footprint {α : Type} (query : Query α)
    (reached : Reflector → List ConstantInfo) : Prop where
  advances : query.Advances
  frame : ∀ r id, (∀ constant ∈ reached r, constant.id ≠ id) →
    (query.next r).state id = r.state id
  known : ∀ r value, query.result r = .ok value → ∀ constant ∈ reached r,
    ∃ found, (query.next r).state constant.id = .resolved found

/-- What comes up in a query is what its plan depends on. -/
def Query.Justified {α : Type} (index : EntityIndex) (options : Options) (scope : Scope)
    (plan : Plan α) (query : Query α) (reached : Reflector → List ConstantInfo) : Prop :=
  ∀ chain r, r.Sound index options chain →
    (Setting.bounded index options).Serves chain r scope plan →
    (query.next r).index = r.index →
      ∀ constant ∈ reached r, (Setting.bounded index options).Depends scope plan constant

namespace Query

variable {α β : Type} {query : Query α} {rest : α → Query β}
  {reached : Reflector → List ConstantInfo} {restReached : α → Reflector → List ConstantInfo}

theorem onward_of_ok {r : Reflector} {value : α} (answered : query.result r = .ok value)
    (comes : α → Reflector → List β) :
    query.onward comes r = comes value (query.next r) := by
  unfold onward
  rw [answered]

theorem onward_of_error {r : Reflector} {error : ReflectionError}
    (failed : query.result r = .error error) (comes : α → Reflector → List β) :
    query.onward comes r = [] := by
  unfold onward
  rw [failed]

theorem mem_onward {comes : α → Reflector → List β} {entry : β} {r : Reflector} :
    entry ∈ query.onward comes r ↔
      ∃ value, query.result r = .ok value ∧ entry ∈ comes value (query.next r) := by
  unfold onward
  cases query.result r <;> simp

namespace Footprint

theorem looks (looks : query.Looks) : query.Footprint fun _ => [] where
  advances := looks.advances
  frame r id _ := by simp only [Reflector.state, (looks.next r).states]
  known _ _ _ _ member := nomatch member

theorem bind (first : query.Footprint reached)
    (second : ∀ value, (rest value).Footprint (restReached value)) :
    (query >>= rest).Footprint fun r => reached r ++ query.onward restReached r where
  advances := first.advances.bind fun value => (second value).advances
  frame r id apart := by
    have kept := first.frame r id fun constant member =>
      apart constant (List.mem_append_left _ member)
    cases answered : query.result r with
    | error error => rw [next_bind_error answered, kept]
    | ok value =>
        rw [next_bind_ok answered, ← kept]
        exact (second value).frame _ id fun constant member =>
          apart constant (List.mem_append_right _ (mem_onward.mpr ⟨value, answered, member⟩))
  known r value answered constant member := by
    obtain ⟨given, answeredFirst, answeredRest⟩ := ok_of_bind answered
    rw [next_bind_ok answeredFirst]
    rcases List.mem_append.mp member with here | later
    · obtain ⟨found, state⟩ := first.known r given answeredFirst constant here
      refine ⟨found, ?_⟩
      rw [((second given).advances.next _).settled _ (by simp [state]), state]
    · obtain ⟨again, answeredAgain, later⟩ := mem_onward.mp later
      cases answeredFirst.symm.trans answeredAgain
      exact (second given).known _ value answeredRest constant later

end Footprint

theorem Justified.nothing {index : EntityIndex} {options : Options} {scope : Scope}
    {plan : Plan α} : query.Justified index options scope plan fun _ => [] :=
  fun _ _ _ _ _ _ member => nomatch member

theorem Justified.bind {index : EntityIndex} {options : Options} {scope : Scope}
    {plan : Plan α} {restPlan : α → Plan β}
    (first : query.Justified index options scope plan reached)
    (second : ∀ value,
      (rest value).Justified index options scope (restPlan value) (restReached value))
    (follows : query.Follows index options scope plan) (advances : query.Advances)
    (restAdvances : ∀ value, (rest value).Advances) :
    (query >>= rest).Justified index options scope (plan >>= restPlan)
      fun r => reached r ++ query.onward restReached r := by
  intro chain r sound serves same constant member
  obtain ⟨sameFirst, sameRest⟩ := index_of_bind advances restAdvances same
  rcases List.mem_append.mp member with here | later
  · exact (first chain r sound serves.first sameFirst constant here).lift
      fun _ demands => Setting.demands_bind.mpr (.inl demands)
  · obtain ⟨given, answered, later⟩ := mem_onward.mp later
    obtain ⟨soundMiddle, answers, _⟩ := follows chain r sound serves.first sameFirst
    have derived := (answers given answered).derived
    have depends := second given chain _ soundMiddle
      (serves.rest derived (advances.keeps sameFirst)) (sameRest given answered) constant later
    exact depends.lift fun _ demands =>
      Setting.demands_bind.mpr (.inr ⟨given, derived, demands⟩)

end Query

namespace Evaluation

open Query Setting

variable {α : Type}

/-! Nothing else is touched. -/

section Footprint

variable {room : Nat} {scope : Scope} {atNode : Mode → NodeId → Reflector → List ConstantInfo}
  {atConstant : ConstantInfo → NodeId → Reflector → List ConstantInfo}
  {eval : Scope → NodeId → Query Value} {inside : Scope → NodeId → Reflector → List ConstantInfo}

theorem mem_resolveReached {constant entry : ConstantInfo} {node : NodeId} {r : Reflector} :
    entry ∈ resolveReached inside constant node r ↔ entry = constant ∨
      r.state constant.id = .unresolved ∧
        r.underway.constants.length < r.options.maxConstantChain ∧
          entry ∈ inside constant.scope node (r.entering constant) := by
  unfold resolveReached
  cases r.state constant.id with
  | unresolved =>
      by_cases long : r.options.maxConstantChain ≤ r.underway.constants.length
      · simp [long]
      · simp [long, Nat.lt_of_not_le long]
  | resolving => simp
  | resolved value => simp
  | failed error => simp

theorem resolve_footprint
    (each : ∀ scope node, (eval scope node).Footprint (inside scope node))
    (constant : ConstantInfo) (node : NodeId) :
    (resolve eval constant node).Footprint (resolveReached inside constant node) where
  advances := resolve_advances (fun scope node => (each scope node).advances) constant node
  frame r id apart := by
    cases known : r.state constant.id with
    | resolved value => rw [(resolve_of_resolved known).2]
    | failed error => rw [(resolve_of_failed known).2]
    | resolving => rw [(resolve_of_resolving known).2]
    | unresolved =>
        by_cases long : r.options.maxConstantChain ≤ r.underway.constants.length
        · rw [(resolve_of_long_chain known long).2]
        · have short := Nat.lt_of_not_le long
          have other : id ≠ constant.id :=
            (apart constant (mem_resolveReached.mpr (.inl rfl))).symm
          have kept := (each constant.scope node).frame (r.entering constant) id
            fun entry member =>
              apart entry (mem_resolveReached.mpr (.inr ⟨known, short, member⟩))
          rw [(resolve_of_unresolved known short).2, Reflector.state_leaving, if_neg other, kept,
            Reflector.state_entering, if_neg other]
  known r value answered entry member := by
    have own := state_of_resolve answered
    by_cases same : entry.id = constant.id
    · exact ⟨value, same ▸ own⟩
    rcases mem_resolveReached.mp member with rfl | ⟨unresolved, short, inner⟩
    · exact absurd rfl same
    · obtain ⟨result, next⟩ := @resolve_of_unresolved eval constant node r unresolved short
      rw [result] at answered
      rw [next, Reflector.state_leaving, if_neg same]
      exact (each constant.scope node).known _ value answered entry inner

theorem planReached_footprint
    (nodes : ∀ mode node, (evaluate room mode scope node).Footprint (atNode mode node))
    (constants : ∀ constant node,
      (resolve (evaluate room .strict) constant node).Footprint (atConstant constant node))
    (plan : Plan α) :
    (carry room scope plan).Footprint (planReached room scope atNode atConstant plan) := by
  induction plan with
  | done result =>
      exact ⟨carry_advances room scope _, fun r id _ => by rw [carry, Plan.carryOut, next_ofExcept],
        fun _ _ _ _ member => nomatch member⟩
  | askNode mode node next ih => exact (nodes mode node).bind ih
  | askConstant constant node next ih => exact (constants constant node).bind ih
  | askClass name next ih => exact (Footprint.looks (classNamed_looks name)).bind ih
  | askMember info name next ih =>
      exact (Footprint.looks (member?_looks .constant info name)).bind ih
  | askDeclared name next ih =>
      exact (Footprint.looks (constant?_notes name).looks).bind ih
  | askIndex next ih =>
      exact ⟨carry_advances room scope _, fun r => (ih r.index).frame r,
        fun r => (ih r.index).known r⟩
  | askPlatform next ih =>
      exact ⟨carry_advances room scope _, fun r => (ih r.options.platform).frame r,
        fun r => (ih r.options.platform).known r⟩

theorem evaluate_footprint (room : Nat) (mode : Mode) (scope : Scope) (node : NodeId) :
    (evaluate room mode scope node).Footprint (reached room mode scope node) := by
  induction room generalizing mode scope node with
  | zero =>
      exact ⟨evaluate_advances 0 mode scope node, fun _ _ _ => rfl,
        fun _ _ _ _ member => nomatch member⟩
  | succ room ih =>
      have carried := planReached_footprint (fun mode node => ih mode scope node)
        (resolve_footprint (ih .strict)) (expression scope mode node)
      have run := evaluate_eq_carry room mode scope node
      refine ⟨evaluate_advances _ mode scope node, fun r id apart => ?_,
        fun r value answered => ?_⟩
      · rw [(run r).2]
        exact carried.frame r id apart
      · rw [(run r).2]
        rw [(run r).1] at answered
        exact carried.known r value answered

theorem carry_footprint (room : Nat) (scope : Scope) (plan : Plan α) :
    (carry room scope plan).Footprint (carryReached room scope plan) :=
  planReached_footprint (fun mode node => evaluate_footprint room mode scope node)
    (resolve_footprint (evaluate_footprint room .strict)) plan

end Footprint

/-! Operands that may be skipped. -/

/-- A part of an expression is evaluated first, and its value decides which other part is
evaluated then, if any is. -/
inductive Chooses (scope : Scope) (node : NodeId) :
    Mode → NodeId → (Value → Option NodeId) → Prop
  | conjunction {op : TokenKind} {left right : NodeId} :
      scope.node? node = some (.binary op left right) →
      op = .ampersandAmpersand ∨ op = .andKw →
      Chooses scope node .strict left fun value => if value.toBool then some right else none
  | disjunction {op : TokenKind} {left right : NodeId} :
      scope.node? node = some (.binary op left right) → op = .barBar ∨ op = .orKw →
      Chooses scope node .strict left fun value => if value.toBool then none else some right
  | coalescing {left right : NodeId} :
      scope.node? node = some (.binary .questionQuestion left right) →
      Chooses scope node .quiet left fun value => if value.isNull then some right else none
  | ternary {condition whenFalse : NodeId} {whenTrue : Option NodeId} :
      scope.node? node = some (.ternary condition whenTrue whenFalse) →
      Chooses scope node .strict condition
        fun value => if value.toBool then whenTrue else some whenFalse

section Chooses

variable {room : Nat} {scope : Scope} {goesTo : Value → Option NodeId}

@[simp] theorem reached_pure (value : α) :
    carryReached room scope (pure value) = fun _ => [] := rfl

@[simp] theorem reached_value_bind_pure (mode : Mode) (node : NodeId) (f : Value → Value) :
    carryReached room scope (.value mode node >>= fun value => pure (f value)) =
      reached room mode scope node := by
  funext r
  change reached room mode scope node r ++ (evaluate room mode scope node).onward
    (fun _ _ => []) r = _
  unfold onward
  cases (evaluate room mode scope node).result r <;> exact List.append_nil _

@[simp] theorem reached_value (mode : Mode) (node : NodeId) :
    carryReached room scope (.value mode node) = reached room mode scope node :=
  reached_value_bind_pure mode node id

theorem reached_value_bind {mode : Mode} {node : NodeId} {rest : Value → Plan Value}
    (chosen : ∀ value, carryReached room scope (rest value) =
      (goesTo value).elim (fun _ => []) (reached room .strict scope)) (r : Reflector) :
    carryReached room scope (.value mode node >>= rest) r =
      reached room mode scope node r ++ (evaluate room mode scope node).onward
        (fun value => (goesTo value).elim (fun _ => []) (reached room .strict scope)) r := by
  simp only [← chosen]
  rfl

/-- After the part that is evaluated first comes the one that is chosen, and no other. -/
theorem reached_of_chooses {node first : NodeId} {firstMode : Mode}
    (chooses : Chooses scope node firstMode first goesTo) (room : Nat) (mode : Mode)
    (r : Reflector) :
    reached (room + 1) mode scope node r =
      reached room firstMode scope first r ++ (evaluate room firstMode scope first).onward
        (fun value => (goesTo value).elim (fun _ => []) (reached room .strict scope)) r := by
  change carryReached room scope (expression scope mode node) r = _
  unfold expression
  cases chooses with
  | conjunction here isAnd =>
      rw [here]
      rcases isAnd with rfl | rfl
      all_goals
        refine reached_value_bind (fun value => ?_) r
        cases value.toBool <;> simp
  | disjunction here isOr =>
      rw [here]
      rcases isOr with rfl | rfl
      all_goals
        refine reached_value_bind (fun value => ?_) r
        cases value.toBool <;> simp
  | coalescing here =>
      rw [here]
      refine reached_value_bind (fun value => ?_) r
      cases value.isNull <;> simp
  | @ternary _ _ whenTrue here =>
      rw [here]
      refine reached_value_bind (fun value => ?_) r
      cases value.toBool with
      | false => simp
      | true => cases whenTrue <;> simp

end Chooses

/-! What comes up is what the rules need. -/

section Justified

variable {index : EntityIndex} {options : Options}

/-- What an expression needs is needed where it is asked for. -/
theorem justified_at_node {mode : Mode} {scope : Scope} {node : NodeId} {query : Query Value}
    {comes : Reflector → List ConstantInfo}
    (justified : query.Justified index options scope (expression scope mode node) comes) :
    query.Justified index options scope (.value mode node) comes := by
  have needs : ∀ constant,
      (bounded index options).Demands scope (expression scope mode node) constant ↔
        (bounded index options).Demands scope (.value mode node) constant :=
    fun constant => demands_expression.trans demands_value.symm
  intro chain r sound serves same entry member
  have known : r.index = index := sound.alike.index
  have depends := justified chain r sound
    ⟨fun last inChain other demands => serves.belongs last inChain other ((needs other).mp demands),
      r.expects_expression known scope mode node⟩ same entry member
  exact depends.lift fun first => (needs first).mp

theorem resolve_justified {eval : Scope → NodeId → Query Value}
    {inside : Scope → NodeId → Reflector → List ConstantInfo}
    (each : ∀ scope node, (eval scope node).Justified index options scope
      (expression scope .strict node) (inside scope node))
    (scope : Scope) (constant : ConstantInfo) (node : NodeId) :
    (resolve eval constant node).Justified index options scope (.initializer constant node)
      (resolveReached inside constant node) := by
  intro chain r sound serves same entry member
  rcases mem_resolveReached.mp member with rfl | ⟨known, short, inner⟩
  · exact (demands_initializer.mpr rfl).depends
  · obtain ⟨stands, held⟩ := serves.expected (.constant constant node) .constant
    have linked : ∀ last ∈ chain.getLast?, (bounded index options).Refers last constant :=
      fun last member => serves.belongs last member constant (demands_initializer.mpr rfl)
    rw [(resolve_of_unresolved known short).2] at same
    obtain ⟨needed, demands, path⟩ := each constant.scope node _ _
      (sound.entering held known linked) (sound.serves_entering stands) same entry inner
    exact ⟨constant, demands_initializer.mpr rfl,
      .head ⟨node, stands, demands_expression.mp demands⟩ path⟩

theorem carry_follows (room : Nat) (scope : Scope) (plan : Plan α) :
    (carry room scope plan).Follows index options scope plan :=
  Plan.carryOut_evaluate_follows (evaluate_follows room)
    (evaluate_advances room) scope plan

theorem planReached_justified {room : Nat} {scope : Scope}
    {atNode : Mode → NodeId → Reflector → List ConstantInfo}
    {atConstant : ConstantInfo → NodeId → Reflector → List ConstantInfo}
    (nodes : ∀ mode node, (evaluate room mode scope node).Justified index options scope
      (.value mode node) (atNode mode node))
    (constants : ∀ constant node, (resolve (evaluate room .strict) constant node).Justified
      index options scope (.initializer constant node) (atConstant constant node))
    (plan : Plan α) :
    (carry room scope plan).Justified index options scope plan
      (planReached room scope atNode atConstant plan) := by
  have advances := fun plan : Plan α => carry_advances room scope plan
  induction plan with
  | done result => exact fun _ _ _ _ _ _ member => nomatch member
  | askNode mode node next ih =>
      have follows : (carry room scope _).Follows index options scope (.value mode node) :=
        carry_follows room scope _
      rw [carry_value] at follows
      exact (nodes mode node).bind ih follows (evaluate_advances room mode scope node)
        fun value => advances (next value)
  | askConstant constant node next ih =>
      have follows : (carry room scope _).Follows index options scope
          (.initializer constant node) :=
        carry_follows room scope _
      rw [carry_initializer] at follows
      exact (constants constant node).bind ih follows
        (resolve_advances (evaluate_advances room .strict) constant node)
        fun value => advances (next value)
  | askClass name next ih =>
      exact Justified.bind .nothing ih (follows_classNamed name)
        (classNamed_looks name).advances fun info => advances (next info)
  | askMember info name next ih =>
      exact Justified.bind .nothing ih (follows_member? info name)
        (member?_looks .constant info name).advances fun member => advances (next member)
  | askDeclared name next ih =>
      exact Justified.bind .nothing ih (follows_constant? name)
        (constant?_notes name).looks.advances fun constant => advances (next constant)
  | askIndex next ih =>
      intro chain r sound serves same entry member
      obtain rfl : r.index = index := sound.alike.index
      exact (ih r.index chain r sound
        ⟨fun last inChain other demands => serves.belongs last inChain other
            (demands.lift fun _ => .afterIndex),
          fun event meets => serves.expected event (.afterIndex meets)⟩ same entry member).lift
        fun _ => .lift fun _ => .afterIndex
  | askPlatform next ih =>
      intro chain r sound serves same entry member
      obtain rfl : r.options = options := sound.alike.options
      exact (ih r.options.platform chain r sound
        ⟨fun last inChain other demands => serves.belongs last inChain other
            (demands.lift fun _ => .afterPlatform),
          fun event meets => serves.expected event (.afterPlatform meets)⟩ same entry member).lift
        fun _ => .lift fun _ => .afterPlatform

theorem evaluate_justified (room : Nat) (mode : Mode) (scope : Scope) (node : NodeId) :
    (evaluate room mode scope node).Justified index options scope
      (expression scope mode node) (reached room mode scope node) := by
  induction room generalizing mode scope node with
  | zero => exact fun _ _ _ _ _ _ member => nomatch member
  | succ room ih =>
      intro chain r sound serves same
      rw [(evaluate_eq_carry room mode scope node r).2] at same
      exact planReached_justified
        (fun mode node => justified_at_node (ih mode scope node))
        (resolve_justified (ih .strict) scope) _ chain r sound serves same

theorem carry_justified (room : Nat) (scope : Scope) (plan : Plan α) :
    (carry room scope plan).Justified index options scope plan (carryReached room scope plan) :=
  planReached_justified
    (fun mode node => justified_at_node (evaluate_justified room mode scope node))
    (resolve_justified (evaluate_justified room .strict) scope) plan

end Justified

end Evaluation

open Evaluation Setting

theorem Setting.refers_of_depends {setting : Setting} {constant other : ConstantInfo}
    (depends : setting.Depends constant.scope (constantValue constant) other) :
    Relation.ReflTransGen setting.Refers constant other := by
  obtain ⟨first, demands, path⟩ := depends
  suffices first = constant by rwa [this] at path
  unfold constantValue at demands
  split at demands
  · exact absurd demands not_demands_done
  · split at demands
    · exact demands_initializer.mp demands
    · exact absurd demands not_demands_done

/-- Finding out the value of a constant touches only what comes up on the way, whatever is
known before and whether it succeeds or fails; after a success the value of all that came up
is known. What comes up in an expression that may skip an operand comes up in the part that is
evaluated first, and in the part that this one's value asks for, if any. Over a fixed set of
files, all that comes up is what the constant refers to, directly or through others. -/
theorem resolving_touches_only_what_it_reaches :
    (∀ (constant : ConstantInfo) (r : Reflector),
      (∀ id, (∀ other ∈ Query.reachedBy constant r, other.id ≠ id) →
        ((Query.constantValue constant).next r).state id = r.state id) ∧
      ∀ value, (Query.constantValue constant).result r = .ok value →
        ∀ other ∈ Query.reachedBy constant r, ∃ found,
          ((Query.constantValue constant).next r).state other.id = .resolved found) ∧
    (∀ room mode scope node (r : Reflector) id,
      (∀ other ∈ reached room mode scope node r, other.id ≠ id) →
        ((evaluate room mode scope node).next r).state id = r.state id) ∧
    (∀ scope node firstMode first goesTo, Chooses scope node firstMode first goesTo →
      ∀ room mode (r : Reflector),
        (∀ error, (evaluate room firstMode scope first).result r = .error error →
          reached (room + 1) mode scope node r = reached room firstMode scope first r) ∧
        ∀ value, (evaluate room firstMode scope first).result r = .ok value →
          reached (room + 1) mode scope node r = reached room firstMode scope first r ++
            match goesTo value with
            | some part =>
                reached room .strict scope part ((evaluate room firstMode scope first).next r)
            | none => []) ∧
    ∀ (start : Reflector) (requests : List Request), start.Fresh → start.Takes requests →
      ∀ constant, (start.afterAll requests).Holds constant →
        ((Query.constantValue constant).next (start.afterAll requests)).index = start.index →
          ∀ other ∈ Query.reachedBy constant (start.afterAll requests),
            Relation.ReflTransGen start.rules.Refers constant other := by
  refine ⟨fun constant r => ?_,
    fun room mode scope node => (evaluate_footprint room mode scope node).frame,
    fun scope node firstMode first goesTo chooses room mode r => ?_,
    fun start requests fresh takes constant held same other member => ?_⟩
  · have footprint := carry_footprint (r.options.maxExpressionDepth - r.underway.depth)
      constant.scope (constantValue constant)
    exact ⟨footprint.frame r, footprint.known r⟩
  · rw [reached_of_chooses chooses]
    refine ⟨fun error failed => ?_, fun value answered => ?_⟩
    · rw [Query.onward_of_error failed, List.append_nil]
    · rw [Query.onward_of_ok answered]
      cases goesTo value <;> rfl
  · have advances := Query.constantValue_advances constant
    have sameBefore := (start.step_afterAll requests).index.squeeze
      (advances.next (start.afterAll requests)).toStep.index same
    have depends := carry_justified _ constant.scope (constantValue constant) []
      (start.afterAll requests) (fresh.sound_afterAll takes sameBefore)
      (.outermost (Query.expects_constantValue held)) (same.trans sameBefore.symm) other member
    exact refers_of_depends (depends.mono bounded_within)

/-! A program in which an operand is skipped. -/

namespace Skipping

/-- The nodes of `const FLAG = false, SHOWN = FLAG && HIDDEN, HIDDEN = 1;`. -/
def nodes : List Node :=
  [.constFetch "false", .constDeclarator "FLAG" 0,
    .constFetch "FLAG", .constFetch "HIDDEN", .binary .ampersandAmpersand 2 3,
    .constDeclarator "SHOWN" 4, .intLiteral 1, .constDeclarator "HIDDEN" 6,
    .constStatement [1, 5, 7] none, .sourceFile "/skipping.php" [8]]

def arena : Arena :=
  ⟨(nodes.map fun node => (node, ⟨0, 0⟩)).toArray⟩

def file : SourceFile where
  path := "/skipping.php"
  text := []
  lines := ⟨[0]⟩
  arena
  root := 9
  diagnostics := []
  blocks := namespaceBlocks ⟨arena, ⟨[0]⟩⟩ 9

def reflector : Reflector where
  options := { maxExpressionDepth := 4 }
  index := .ofFiles [file]

def constant (name : String) (node : NodeId) : ConstantInfo :=
  .declaredAt (.named (.constant name))
    ⟨file, 0, ⟨"", 9, [8], none, Entities.discover ⟨arena, ⟨[0]⟩⟩ "" [8]⟩⟩
    ⟨name, node, node + 1, .statement, none⟩

end Skipping

open Skipping in
/-- The second operand is not asked for, so its constant stays as it was. -/
theorem resolving_skips_operand :
    let shown := constant "SHOWN" 4
    let flag := constant "FLAG" 0
    Query.reachedBy shown reflector = [shown, flag] ∧
    ((Query.constantValue shown).next reflector).state (constant "HIDDEN" 6).id =
      .unresolved ∧
    (∃ found, ((Query.constantValue shown).next reflector).state flag.id = .resolved found) ∧
    reached 3 .strict shown.scope 4 reflector = reached 2 .strict shown.scope 2 reflector ∧
    Relation.ReflTransGen reflector.rules.Refers shown flag := by
  intro shown flag
  obtain ⟨frame, _, chooses, refers⟩ := resolving_touches_only_what_it_reaches
  have comes : Query.reachedBy shown reflector = [shown, flag] := rfl
  have answered : (Query.constantValue shown).result reflector = .ok (.bool false) := rfl
  have first : (evaluate 2 .strict shown.scope 2).result reflector = .ok (.bool false) := rfl
  refine ⟨comes, ?_, (frame shown reflector).2 _ answered flag (comes ▸ by simp), ?_, ?_⟩
  · refine (frame shown reflector).1 _ fun other member => ?_
    rw [comes] at member
    rcases List.mem_pair.mp member with rfl | rfl <;> decide
  · rw [(chooses shown.scope 4 .strict 2 _ (.conjunction rfl (.inl rfl)) 2 .strict
      reflector).2 _ first]
    exact List.append_nil _
  · have fresh : reflector.Fresh := ⟨⟨[file], rfl⟩, fun _ => rfl, rfl⟩
    exact refers reflector [] fresh trivial shown rfl rfl flag (comes ▸ by simp)

end StaticReflection
