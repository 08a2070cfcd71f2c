import StaticReflection.Proofs.Evaluation.PlanRuns

namespace StaticReflection

/-! The left operand of `??` is evaluated quietly. Quiet evaluation agrees with strict
evaluation, unless something is missing. -/

namespace Value

/-- The container has nothing at the offset: no such key, no such position, or a string as
offset of a string that is no integer. -/
inductive Lacks : Value → Value → Fault → Prop
  | key {items : KeyedArray Value} {dim : Value} {key : ArrayKey} :
      dim.toKey? = some key →
      items.get? key = none →
      Lacks (.array items) dim (.undefinedKey key)
  | position {bytes : Bytes} {dim : Value} {offset : Int} :
      dim.stringOffset? = some offset →
      byteAt? bytes offset = none →
      Lacks (.string bytes) dim (.stringOffset offset)
  | noInteger {bytes text : Bytes} :
      (Value.string text).stringOffset? = none →
      Lacks (.string bytes) (.string text) (.illegalOffset "string" .string)

variable {container dim : Value} {fault : Fault}

theorem Lacks.strict (lacks : container.Lacks dim fault) :
    container.offset false dim = .error fault := by
  cases lacks with
  | key key absent => simp [offset, key, absent]
  | position position absent => simp [offset, position, absent]
  | noInteger text => simp [offset, text, typeName]

theorem Lacks.quiet (lacks : container.Lacks dim fault) :
    container.offset true dim = .ok .null := by
  cases lacks with
  | key key absent => simp [offset, key, absent]
  | position position absent => simp [offset, position, absent]
  | noInteger text => simp [offset, text]

theorem offset_quiet_or_lacks (container dim : Value) :
    container.offset true dim = container.offset false dim ∨
      ∃ fault, container.Lacks dim fault := by
  cases container with
  | array items =>
      cases key : dim.toKey? with
      | none => exact .inl (by simp [offset, key])
      | some given =>
          cases absent : items.get? given with
          | none => exact .inr ⟨_, .key key absent⟩
          | some value => exact .inl (by simp [offset, key, absent])
  | string bytes =>
      cases position : dim.stringOffset? with
      | some given =>
          cases absent : byteAt? bytes given with
          | none => exact .inr ⟨_, .position position absent⟩
          | some byte => exact .inl (by simp [offset, position, absent])
      | none =>
          cases dim with
          | string text => exact .inr ⟨_, .noInteger position⟩
          | _ => exact .inl (by simp [offset, position])
  | _ => exact .inl rfl

theorem isNull_iff {value : Value} : value.isNull = true ↔ value = .null := by
  cases value <;> simp [isNull]

end Value

/-- Two queries do the same in sequence if their parts do. -/
theorem Query.bind_congr_at {α β : Type} {first second : Query α} {rest restToo : α → Query β}
    {r : Reflector} (same : first r = second r)
    (each : ∀ value, second.result r = .ok value →
      rest value (second.next r) = restToo value (second.next r)) :
    (first >>= rest) r = (second >>= restToo) r := by
  have results : first.result r = second.result r := congrArg Prod.fst same
  have nexts : first.next r = second.next r := congrArg Prod.snd same
  refine Prod.ext ?_ ?_
  · change (first >>= rest).result r = (second >>= restToo).result r
    rw [result_bind, result_bind, results, nexts]
    cases answered : second.result r with
    | ok value => exact congrArg Prod.fst (each value answered)
    | error error => rfl
  · change (first >>= rest).next r = (second >>= restToo).next r
    rw [next_bind, next_bind, results, nexts]
    cases answered : second.result r with
    | ok value => exact congrArg Prod.snd (each value answered)
    | error error => rfl

namespace Evaluation

open Query

/-- Strict evaluation of a chain of offsets and properties comes to something missing, and
fails for that: a value has nothing at an offset, or a property of null is read. What is
missing may be anywhere in the chain. -/
inductive Lacks (scope : Scope) : Nat → NodeId → Reflector → ReflectionError → Prop
  | offset {room : Nat} {node object dim : NodeId} {r : Reflector} {container offset : Value}
      {fault : Fault} :
      scope.node? node = some (.dimFetch object (some dim)) →
      (evaluate room .strict scope object).result r.opened = .ok container →
      (evaluate room .strict scope dim).result
        ((evaluate room .strict scope object).next r.opened) = .ok offset →
      container.Lacks offset fault →
      Lacks scope (room + 1) node r (scope.failure fault (some node))
  | property {room : Nat} {node object name : NodeId} {r : Reflector} {property : String} :
      scope.node? node = some (.propertyFetch object name false) →
      (evaluate room .strict scope object).result r.opened = .ok .null →
      scope.node? name = some (.nameRef property) →
      Lacks scope (room + 1) node r
        (scope.failure (.propertyOfNonObject property "null") (some node))
  /-- The name of the property is computed. -/
  | computedProperty {room : Nat} {node object name : NodeId} {r : Reflector} :
      scope.node? node = some (.propertyFetch object name false) →
      (evaluate room .strict scope object).result r.opened = .ok .null →
      (∀ property, scope.node? name ≠ some (.nameRef property)) →
      Lacks scope (room + 1) node r (scope.unresolvable "PropertyFetch" (some node))
  | beforeOffset {room : Nat} {node object dim : NodeId} {r : Reflector}
      {error : ReflectionError} :
      scope.node? node = some (.dimFetch object (some dim)) →
      Lacks scope room object r.opened error →
      Lacks scope (room + 1) node r error
  | beforeProperty {room : Nat} {node object name : NodeId} {nullsafe : Bool} {r : Reflector}
      {error : ReflectionError} :
      scope.node? node = some (.propertyFetch object name nullsafe) →
      Lacks scope room object r.opened error →
      Lacks scope (room + 1) node r error

variable {room : Nat} {mode : Mode} {scope : Scope} {node object dim name left right : NodeId}
  {nullsafe : Bool} {r : Reflector} {error : ReflectionError}

/-! How the parts of a chain are evaluated. -/

theorem carry_ofFault {α : Type} (given : Option NodeId) (result : Except Fault α) :
    carry room scope (.ofFault scope given result) =
      MonadExcept.ofExcept (result.mapError (scope.failure · given)) := by
  cases result <;> rfl

theorem carry_dimFetch (here : scope.node? node = some (.dimFetch object (some dim))) :
    carry room scope (expression scope mode node) = (do
      let container ← evaluate room mode scope object
      let offset ← evaluate room .strict scope dim
      MonadExcept.ofExcept ((container.offset (mode == .quiet) offset).mapError
        (scope.failure · (some node)))) := by
  unfold expression
  rw [here]
  simp only [carry_bind, carry_value, carry_ofFault]

theorem carry_propertyFetch (here : scope.node? node = some (.propertyFetch object name nullsafe)) :
    carry room scope (expression scope mode node) = (do
      let owner ← evaluate room mode scope object
      if (nullsafe || mode == .quiet) && owner.isNull then return .null
      else carry room scope (propertyOf scope node name owner)) := by
  unfold expression
  rw [here]
  simp only [carry_bind, carry_value]
  congr
  funext owner
  split <;> rfl

theorem carry_coalesce (here : scope.node? node = some (.binary .questionQuestion left right)) :
    carry room scope (expression scope mode node) = (do
      let first ← evaluate room .quiet scope left
      if first.isNull then evaluate room .strict scope right else return first) := by
  unfold expression binary
  rw [here]
  simp only [carry_bind, carry_value]
  congr
  funext first
  split
  · exact carry_value ..
  · rfl

/-- Only offsets and properties are evaluated quietly in another way. -/
theorem expression_quiet (noOffset : ∀ object dim, scope.node? node ≠ some (.dimFetch object dim))
    (noProperty : ∀ object name nullsafe,
      scope.node? node ≠ some (.propertyFetch object name nullsafe)) :
    expression scope .quiet node = expression scope .strict node := by
  unfold expression
  split
  all_goals first
    | rfl
    | exact absurd ‹_› (noOffset _ _)
    | exact absurd ‹_› (noProperty _ _ _)

theorem propertyOf_null {property : String} (named : scope.node? name = some (.nameRef property)) :
    propertyOf scope node name .null =
      .fault scope (.propertyOfNonObject property "null") (some node) := by
  unfold propertyOf
  split <;> simp_all [Value.typeName]

theorem propertyOf_null_computed
    (computed : ∀ property, scope.node? name ≠ some (.nameRef property)) :
    propertyOf scope node name .null = .unresolvable scope "PropertyFetch" (some node) := by
  unfold propertyOf
  split <;> simp_all

/-- Where something is missing, strict evaluation fails for that. -/
theorem Lacks.fails (lacks : Lacks scope room node r error) :
    (evaluate room .strict scope node).result r = .error error := by
  induction lacks with
  | offset here container offset lacks =>
      rw [result_evaluate_succ, carry_dimFetch here, result_bind_ok container,
        result_bind_ok offset, result_ofExcept]
      change ((_ : Value).offset false _).mapError _ = _
      rw [lacks.strict]
      rfl
  | property here owner named =>
      rw [result_evaluate_succ, carry_propertyFetch here, result_bind_ok owner]
      change (carry _ scope (propertyOf scope _ _ .null)).result _ = _
      rw [propertyOf_null named]
      rfl
  | computedProperty here owner computed =>
      rw [result_evaluate_succ, carry_propertyFetch here, result_bind_ok owner]
      change (carry _ scope (propertyOf scope _ _ .null)).result _ = _
      rw [propertyOf_null_computed computed]
      rfl
  | beforeOffset here _ ih =>
      rw [result_evaluate_succ, carry_dimFetch here, result_bind_error ih]
  | beforeProperty here _ ih =>
      rw [result_evaluate_succ, carry_propertyFetch here, result_bind_error ih]

/-! Quiet evaluation beside strict evaluation. -/

/-- The quiet evaluation of a node runs as the strict one does, or something is missing and
the quiet one gives null, if it gives anything. -/
def QuietAgrees (room : Nat) (scope : Scope) (node : NodeId) (r : Reflector) : Prop :=
  evaluate room .quiet scope node r = evaluate room .strict scope node r ∨
    ∃ error, Lacks scope room node r error ∧
      ∀ value, (evaluate room .quiet scope node).result r = .ok value → value = .null

theorem evaluate_succ_congr {first second : Mode}
    (same : carry room scope (expression scope first node) r.opened =
      carry room scope (expression scope second node) r.opened) :
    evaluate (room + 1) first scope node r = evaluate (room + 1) second scope node r := by
  refine Prod.ext ?_ ?_
  · change (evaluate (room + 1) first scope node).result r = (evaluate _ second _ _).result r
    rw [result_evaluate_succ, result_evaluate_succ, result, result, same]
  · change (evaluate (room + 1) first scope node).next r = (evaluate _ second _ _).next r
    rw [next_evaluate_succ, next_evaluate_succ, next, next, same]

theorem quietAgrees_dimFetch (here : scope.node? node = some (.dimFetch object (some dim)))
    (agrees : QuietAgrees room scope object r.opened) :
    QuietAgrees (room + 1) scope node r := by
  rcases agrees with same | ⟨error, lacks, null⟩
  · by_cases missing : ∃ container offset fault,
        (evaluate room .strict scope object).result r.opened = .ok container ∧
        (evaluate room .strict scope dim).result
          ((evaluate room .strict scope object).next r.opened) = .ok offset ∧
        container.Lacks offset fault
    · obtain ⟨container, offset, fault, given, located, lacks⟩ := missing
      refine .inr ⟨_, .offset here given located lacks, fun value answered => ?_⟩
      have quiet : (evaluate room .quiet scope object).result r.opened = .ok container :=
        (congrArg Prod.fst same).trans given
      have after : (evaluate room .quiet scope object).next r.opened =
        (evaluate room .strict scope object).next r.opened := congrArg Prod.snd same
      rw [result_evaluate_succ, carry_dimFetch here, result_bind_ok quiet, after,
        result_bind_ok located, result_ofExcept] at answered
      change (container.offset true offset).mapError _ = _ at answered
      rw [lacks.quiet] at answered
      cases answered
      rfl
    · refine .inl (evaluate_succ_congr ?_)
      rw [carry_dimFetch here, carry_dimFetch here]
      refine bind_congr_at same fun container given => bind_congr_at rfl fun offset located => ?_
      have equal := (container.offset_quiet_or_lacks offset).resolve_right
        fun ⟨fault, lacks⟩ => missing ⟨container, offset, fault, given, located, lacks⟩
      change (MonadExcept.ofExcept ((container.offset true offset).mapError _) : Query Value) _ = _
      rw [equal]
      rfl
  · refine .inr ⟨error, .beforeOffset here lacks, fun value answered => ?_⟩
    rw [result_evaluate_succ, carry_dimFetch here] at answered
    obtain ⟨container, given, rest⟩ := ok_of_bind answered
    cases null container given
    obtain ⟨offset, _, last⟩ := ok_of_bind rest
    cases last
    rfl

theorem quietAgrees_propertyFetch
    (here : scope.node? node = some (.propertyFetch object name nullsafe))
    (agrees : QuietAgrees room scope object r.opened) :
    QuietAgrees (room + 1) scope node r := by
  have ofNull {value : Value}
      (null : ∀ owner, (evaluate room .quiet scope object).result r.opened = .ok owner →
        owner = .null)
      (answered : (evaluate (room + 1) .quiet scope node).result r = .ok value) :
      value = .null := by
    rw [result_evaluate_succ, carry_propertyFetch here] at answered
    obtain ⟨owner, given, rest⟩ := ok_of_bind answered
    cases null owner given
    rw [if_pos (by simp [Value.isNull])] at rest
    cases rest
    rfl
  rcases agrees with same | ⟨error, lacks, null⟩
  · by_cases missing : nullsafe = false ∧
        (evaluate room .strict scope object).result r.opened = .ok .null
    · obtain ⟨rfl, given⟩ := missing
      have null : ∀ owner, (evaluate room .quiet scope object).result r.opened = .ok owner →
          owner = .null := by
        intro owner quiet
        cases quiet.symm.trans ((congrArg Prod.fst same).trans given)
        rfl
      by_cases named : ∃ property, scope.node? name = some (.nameRef property)
      · obtain ⟨property, named⟩ := named
        exact .inr ⟨_, .property here given named, fun value => ofNull null⟩
      · exact .inr ⟨_, .computedProperty here given (not_exists.mp named),
          fun value => ofNull null⟩
    · refine .inl (evaluate_succ_congr ?_)
      rw [carry_propertyFetch here, carry_propertyFetch here]
      refine bind_congr_at same fun owner given => ?_
      have condition : ((nullsafe || Mode.quiet == .quiet) && owner.isNull) =
          ((nullsafe || Mode.strict == .quiet) && owner.isNull) := by
        cases isNull : owner.isNull with
        | false => simp
        | true =>
            rw [Value.isNull_iff.mp isNull] at given
            have safe : nullsafe = true :=
              Bool.eq_false_imp_eq_true.mp fun plain => absurd ⟨plain, given⟩ missing
            simp [safe]
      rw [condition]
  · exact .inr ⟨error, .beforeProperty here lacks, fun value => ofNull null⟩

/-- Along the chain of offsets and properties, quiet evaluation agrees with strict evaluation
as far as nothing is missing. -/
theorem quiet_agrees (room : Nat) (scope : Scope) (node : NodeId) (r : Reflector) :
    QuietAgrees room scope node r := by
  induction room generalizing node r with
  | zero => exact .inl rfl
  | succ room ih =>
      by_cases offset : ∃ object dim, scope.node? node = some (.dimFetch object dim)
      · obtain ⟨object, dim, here⟩ := offset
        cases dim with
        | some dim => exact quietAgrees_dimFetch here (ih object r.opened)
        | none =>
            refine .inl (evaluate_succ_congr ?_)
            unfold expression
            rw [here]
      · by_cases property : ∃ object name nullsafe,
            scope.node? node = some (.propertyFetch object name nullsafe)
        · obtain ⟨object, name, nullsafe, here⟩ := property
          exact quietAgrees_propertyFetch here (ih object r.opened)
        · refine .inl (evaluate_succ_congr ?_)
          rw [expression_quiet (fun object dim here => offset ⟨object, dim, here⟩)
            fun object name nullsafe here => property ⟨object, name, nullsafe, here⟩]

/-- Whatever `??` stands with its left operand, it comes to nothing but that operand, unless
the operand is null or something is missing in it. -/
theorem coalesce_runs_left (here : scope.node? node = some (.binary .questionQuestion left right))
    (given : ∀ value, (evaluate room .quiet scope left).result r.opened = .ok value →
      value ≠ .null)
    (same : evaluate room .quiet scope left r.opened = evaluate room .strict scope left r.opened) :
    (evaluate (room + 1) mode scope node).result r =
        (evaluate room .strict scope left).result r.opened ∧
      (evaluate (room + 1) mode scope node).next r =
        ((evaluate room .strict scope left).next r.opened).closed := by
  have results : (evaluate room .quiet scope left).result r.opened =
    (evaluate room .strict scope left).result r.opened := congrArg Prod.fst same
  have nexts : (evaluate room .quiet scope left).next r.opened =
    (evaluate room .strict scope left).next r.opened := congrArg Prod.snd same
  rw [result_evaluate_succ, next_evaluate_succ, carry_coalesce here, ← results, ← nexts]
  cases answered : (evaluate room .quiet scope left).result r.opened with
  | error error => exact ⟨result_bind_error answered _, by rw [next_bind_error answered]⟩
  | ok value =>
      have present : value.isNull = false :=
        Bool.eq_false_iff.mpr fun null => given value answered (Value.isNull_iff.mp null)
      rw [result_bind_ok answered, next_bind_ok answered, present]
      exact ⟨rfl, rfl⟩

end Evaluation

open Evaluation in
/-- Quiet evaluation agrees with strict evaluation. A value that the strict one gives the
quiet one gives too, and the other way round unless it is null. So `e ?? d` has the value of
`e` where that is not null; and unless `e` is null or something is missing in it, evaluating
`e ?? d` is evaluating `e`, and nothing is asked of `d`. -/
theorem quiet_agrees_with_strict (room : Nat) (scope : Scope) (r : Reflector) :
    (∀ node value, (evaluate room .strict scope node).result r = .ok value →
      (evaluate room .quiet scope node).result r = .ok value) ∧
    (∀ node value, (evaluate room .quiet scope node).result r = .ok value → value ≠ .null →
      (evaluate room .strict scope node).result r = .ok value) ∧
    ∀ mode node left right,
      scope.node? node = some (.binary .questionQuestion left right) →
      let first := evaluate room .strict scope left
      let both := evaluate (room + 1) mode scope node
      (∀ value, first.result r.opened = .ok value → value ≠ .null →
        both.result r = .ok value) ∧
      (first.result r.opened = .ok .null ∨
        (∃ error, Lacks scope room left r.opened error ∧
          first.result r.opened = .error error) ∨
        both.result r = first.result r.opened ∧
          both.next r = (first.next r.opened).closed) := by
  have quiet_of_strict (node : NodeId) (r : Reflector) (value : Value)
      (answered : (evaluate room .strict scope node).result r = .ok value) :
      (evaluate room .quiet scope node).result r = .ok value := by
    rcases quiet_agrees room scope node r with same | ⟨error, lacks, _⟩
    · exact (congrArg Prod.fst same).trans answered
    · cases lacks.fails.symm.trans answered
  refine ⟨fun node value => quiet_of_strict node r value, fun node value answered present => ?_,
    fun mode node left right here => ?_⟩
  · rcases quiet_agrees room scope node r with same | ⟨error, _, null⟩
    · exact (congrArg Prod.fst same).symm.trans answered
    · exact absurd (null value answered) present
  · intro first both
    have alone : first.result r.opened = .ok .null ∨
        (∃ error, Lacks scope room left r.opened error ∧
          first.result r.opened = .error error) ∨
        both.result r = first.result r.opened ∧
          both.next r = (first.next r.opened).closed := by
      rcases quiet_agrees room scope left r.opened with same | ⟨error, lacks, _⟩
      · by_cases null : first.result r.opened = .ok .null
        · exact .inl null
        · refine .inr (.inr (coalesce_runs_left here (fun value answered isNull => ?_) same))
          exact null ((congrArg Prod.fst same).symm.trans (isNull ▸ answered))
      · exact .inr (.inl ⟨error, lacks, lacks.fails⟩)
    refine ⟨fun value answered present => ?_, alone⟩
    rcases alone with null | ⟨error, _, failed⟩ | ⟨same, _⟩
    · cases null.symm.trans answered
      exact absurd rfl present
    · cases failed.symm.trans answered
    · exact same.trans answered

/-! A chain at which both can be seen. -/

namespace Coalesced

/-- The nodes of `"ab"[0] ?? 7` and of `"ab"[9] ?? 7`. -/
def nodes : List Node :=
  [.stringLiteral [0x61, 0x62], .intLiteral 0, .dimFetch 0 (some 1), .intLiteral 7,
    .binary .questionQuestion 2 3, .intLiteral 9, .dimFetch 0 (some 5),
    .binary .questionQuestion 6 3]

def file : SourceFile where
  path := "/coalesced.php"
  text := []
  lines := ⟨[0]⟩
  arena := ⟨(nodes.map fun node => (node, ⟨0, 0⟩)).toArray⟩
  root := 0
  diagnostics := []
  blocks := []

def scope : Scope where
  place := ⟨file, 0, ⟨"", 0, [], none, .discover ⟨file.arena, ⟨[0]⟩⟩ "" []⟩⟩

end Coalesced

open Coalesced Evaluation in
/-- The first byte is there, so nothing is asked of the right operand; the tenth is not. -/
theorem quiet_agrees_with_strict_on_text :
    (evaluate 2 .quiet scope 2).result {} = .ok (.string [0x61]) ∧
    (evaluate 2 .strict scope 2).result {} = .ok (.string [0x61]) ∧
    (evaluate 3 .strict scope 4).result {} = .ok (.string [0x61]) ∧
    (∃ error, Lacks scope 2 6 (Reflector.opened {}) error) ∧
    (evaluate 3 .strict scope 7).result {} = .ok (.int 7) := by
  obtain ⟨quiet, strict, _⟩ := quiet_agrees_with_strict 2 scope {}
  have first : (evaluate 2 .quiet scope 2).result {} = .ok (.string [0x61]) :=
    quiet 2 _ rfl
  have second : (evaluate 3 .strict scope 7).result {} = .ok (.int 7) := rfl
  have coalesces := (quiet_agrees_with_strict 2 scope {}).2.2 .strict
  refine ⟨first, strict 2 _ first nofun, (coalesces 4 2 3 rfl).1 _ rfl nofun, ?_, second⟩
  rcases (coalesces 7 6 3 rfl).2 with null | ⟨error, lacks, _⟩ | ⟨same, _⟩
  · cases null
  · exact ⟨error, lacks⟩
  · cases second.symm.trans same

end StaticReflection
