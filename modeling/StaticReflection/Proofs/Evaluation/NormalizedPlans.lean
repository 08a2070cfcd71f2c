import StaticReflection.Proofs.Values.NormalizedArrays

namespace StaticReflection

/-! The rules make normalized values out of normalized ones. -/

/-- A plan that is given normalized values comes to something with a property. -/
inductive Plan.Yields {α : Type} (P : α → Prop) : Plan α → Prop
  | done {result : Except ReflectionError α} : GivesOnly P result → Yields P (.done result)
  | askNode {mode : Mode} {node : NodeId} {next : Value → Plan α} :
      (∀ value : Value, value.Normalized → Yields P (next value)) →
      Yields P (.askNode mode node next)
  | askConstant {constant : ConstantInfo} {node : NodeId} {next : Value → Plan α} :
      (∀ value : Value, value.Normalized → Yields P (next value)) →
      Yields P (.askConstant constant node next)
  | askClass {name : String} {next : ClassInfo → Plan α} :
      (∀ info, Yields P (next info)) → Yields P (.askClass name next)
  | askMember {info : ClassInfo} {name : String} {next : Option ConstantInfo → Plan α} :
      (∀ member, Yields P (next member)) → Yields P (.askMember info name next)
  | askDeclared {name : String} {next : Option ConstantInfo → Plan α} :
      (∀ constant, Yields P (next constant)) → Yields P (.askDeclared name next)
  | askIndex {next : EntityIndex → Plan α} :
      (∀ index, Yields P (next index)) → Yields P (.askIndex next)
  | askPlatform {next : Platform → Plan α} :
      (∀ platform, Yields P (next platform)) → Yields P (.askPlatform next)

namespace Plan.Yields

variable {α β : Type} {P : α → Prop} {Q : β → Prop}

theorem pure {value : α} (meets : P value) : (Pure.pure value : Plan α).Yields P :=
  .done (.ok meets)

theorem fail {error : ReflectionError} : (Plan.fail error : Plan α).Yields P :=
  .done .error

theorem ofFault {scope : Scope} {node : Option NodeId} {result : Except Fault α}
    (gives : GivesOnly P result) : (Plan.ofFault scope node result).Yields P := by
  cases result with
  | ok value => exact pure (gives value rfl)
  | error => exact fail

theorem bind {plan : Plan α} {next : α → Plan β} (first : plan.Yields P)
    (second : ∀ value, P value → (next value).Yields Q) : (plan >>= next).Yields Q := by
  change (plan.bind next).Yields Q
  induction first with
  | @done result given =>
      cases result with
      | ok value => exact second value (given value rfl)
      | error => exact fail
  | askNode _ ih => exact .askNode ih
  | askConstant _ ih => exact .askConstant ih
  | askClass _ ih => exact .askClass ih
  | askMember _ ih => exact .askMember ih
  | askDeclared _ ih => exact .askDeclared ih
  | askIndex _ ih => exact .askIndex ih
  | askPlatform _ ih => exact .askPlatform ih

theorem trivial (plan : Plan α) : plan.Yields fun _ => True := by
  induction plan with
  | done => exact .done .trivial
  | askNode _ _ _ ih => exact .askNode fun value _ => ih value
  | askConstant _ _ _ ih => exact .askConstant fun value _ => ih value
  | askClass _ _ ih => exact .askClass ih
  | askMember _ _ _ ih => exact .askMember ih
  | askDeclared _ _ ih => exact .askDeclared ih
  | askIndex _ ih => exact .askIndex ih
  | askPlatform _ ih => exact .askPlatform ih

/-- What comes before the last step does not matter. -/
theorem after {plan : Plan α} {next : α → Plan β} (second : ∀ value, (next value).Yields Q) :
    (plan >>= next).Yields Q :=
  (trivial plan).bind fun value _ => second value

theorem value {mode : Mode} {node : NodeId} : (Plan.value mode node).Yields Value.Normalized :=
  .askNode fun _ normalized => pure normalized

theorem initializer {constant : ConstantInfo} {node : NodeId} :
    (Plan.initializer constant node).Yields Value.Normalized :=
  .askConstant fun _ normalized => pure normalized

end Plan.Yields

/-! The rules, one for each kind of node. -/

namespace Evaluation

open Plan.Yields

theorem backingValue_yields (constant : ConstantInfo) :
    (backingValue constant).Yields Value.Normalized := by
  unfold backingValue
  split
  · exact initializer
  · exact pure (.flat nofun)

theorem constantValue_yields (constant : ConstantInfo) :
    (constantValue constant).Yields Value.Normalized := by
  unfold constantValue
  split
  · exact pure (.flat nofun)
  · split
    · exact initializer
    · exact fail

theorem literalConstant?_normalized {name : String} {value : Value}
    (literal : literalConstant? name = some value) : value.Normalized := by
  unfold literalConstant? at literal
  split at literal <;> cases literal <;> exact .flat nofun

theorem firstPredefined?_normalized {platform : Platform} {names : List String} {value : Value}
    (predefined : firstPredefined? platform names = some value) : value.Normalized := by
  refine .flat fun items array => ?_
  subst array
  unfold firstPredefined? at predefined
  split at predefined
  · obtain ⟨name, _, given⟩ := List.exists_of_findSome?_eq_some predefined
    simp [predefinedConstant?, Value.text] at given
  · cases predefined

theorem valueOfFirst_yields (names : List String) (shown : String) :
    (valueOfFirst names shown).Yields Value.Normalized := by
  refine after fun found => ?_
  split
  · exact constantValue_yields _
  · refine after fun platform => ?_
    split
    · rename_i predefined
      exact pure (firstPredefined?_normalized predefined)
    · exact fail

theorem constantFetch_yields (scope : Scope) (name : String) :
    (constantFetch scope name).Yields Value.Normalized := by
  unfold constantFetch
  split
  · rename_i literal
    exact pure (literalConstant?_normalized literal)
  · exact valueOfFirst_yields _ _

theorem classConstant_yields (owner name : String) :
    (classConstant owner name).Yields Value.Normalized := by
  refine after fun info => after fun found => ?_
  split
  · exact constantValue_yields _
  · exact fail

theorem classConstFetch_yields (scope : Scope) (node owner : NodeId) (name : String) :
    (classConstFetch scope node owner name).Yields Value.Normalized := by
  unfold classConstFetch
  split
  · refine after fun owner => ?_
    split
    · exact pure (.flat nofun)
    · exact classConstant_yields _ _
  · exact fail

theorem constantByText_yields (scope : Scope) (node : NodeId) (text : String) :
    (constantByText scope node text).Yields Value.Normalized := by
  unfold constantByText
  split
  · exact after fun owner => classConstant_yields _ _
  · dsimp only
    split
    · rename_i literal
      exact pure (literalConstant?_normalized literal)
    · exact valueOfFirst_yields _ _

theorem addElement_yields (scope : Scope) (node : NodeId) (element : ArrayElement)
    {items : KeyedArray Value} (keeps : items.Keeps Value.Normalized) :
    (addElement scope node element items).Yields (KeyedArray.Keeps Value.Normalized) := by
  unfold addElement
  split
  · exact fail
  · split
    · refine value.bind fun given normalized => ?_
      split
      · rw [Value.normalized_array] at normalized
        exact ofFault (unpackInto_keeps keeps normalized.canonical normalized.values)
      · exact fail
    · split
      · refine value.bind fun given normalized => ?_
        split
        · rename_i pushed
          exact pure (keeps.push? normalized pushed)
        · exact fail
      · refine after fun key => ?_
        split
        · rename_i stands
          refine value.bind fun given normalized => ?_
          exact pure (keeps.insert (Value.canonical_of_toKey? stands) normalized)
        · exact fail

theorem addElements_yields (scope : Scope) (slots : List (Option NodeId))
    {items : KeyedArray Value} (keeps : items.Keeps Value.Normalized) :
    (addElements scope slots items).Yields (KeyedArray.Keeps Value.Normalized) := by
  induction slots generalizing items with
  | nil => exact pure keeps
  | cons slot rest ih =>
      unfold addElements
      split
      · exact (addElement_yields scope _ _ keeps).bind fun _ grown => ih grown
      · exact fail

theorem propertyOf_yields (scope : Scope) (node nameNode : NodeId) (object : Value) :
    (propertyOf scope node nameNode object).Yields Value.Normalized := by
  unfold propertyOf
  split
  · exact pure (.flat nofun)
  · refine after fun info => ?_
    split
    · exact backingValue_yields _
    · exact fail
  · exact fail
  · exact fail
  · exact fail

theorem unary_yields (scope : Scope) (node : NodeId) (op : TokenKind) (operand : NodeId) :
    (unary scope node op operand).Yields Value.Normalized := by
  unfold unary
  split
  · rename_i apply operation
    refine after fun given => ofFault ?_
    unfold unaryOperation? at operation
    split at operation
    · cases operation
      exact Value.arithmetic_normalized
    · cases operation
      exact Value.arithmetic_normalized
    · cases operation
      exact Value.bitwiseNot_normalized
    · cases operation
      exact .ok (.flat nofun)
    · cases operation
  · exact fail

theorem binary_yields (scope : Scope) (node : NodeId) (op : TokenKind) (left right : NodeId) :
    (binary scope node op left right).Yields Value.Normalized := by
  cases op with
  | ampersandAmpersand | andKw =>
      refine after fun first => ?_
      split
      · exact after fun second => pure (.flat nofun)
      · exact pure (.flat nofun)
  | barBar | orKw =>
      refine after fun first => ?_
      split
      · exact pure (.flat nofun)
      · exact after fun second => pure (.flat nofun)
  | questionQuestion =>
      refine value.bind fun first normalized => ?_
      split
      · exact value
      · exact pure normalized
  | instanceofKw => exact fail
  | _ =>
      exact value.bind fun first normalized => value.bind fun second normalizedToo =>
        ofFault (Value.binary_normalized normalized normalizedToo)

theorem ternary_yields (condition : NodeId) (whenTrue : Option NodeId) (whenFalse : NodeId) :
    (ternary condition whenTrue whenFalse).Yields Value.Normalized := by
  refine value.bind fun chosen normalized => ?_
  split
  · exact value
  · exact pure normalized
  · exact value

theorem constantCall_yields (scope : Scope) (node : NodeId) (values : List Value) :
    (constantCall scope node values).Yields Value.Normalized := by
  unfold constantCall
  split
  · exact constantByText_yields _ _ _
  · exact fail
  · exact fail

theorem call_yields (scope : Scope) (node callee : NodeId) (arguments : List NodeId) :
    (call scope node callee arguments).Yields Value.Normalized := by
  unfold call
  split
  · refine after fun index => ?_
    split
    · exact fail
    · refine after fun values => ?_
      split
      · exact constantCall_yields _ _ _
      · exact after fun platform => ofFault PureFunction.call_normalized
  · exact fail

theorem magicConstant_normalized (scope : Scope) (kind : TokenKind) (node : NodeId) :
    (scope.magicConstant kind node).Normalized := by
  unfold Scope.magicConstant
  split <;> exact .flat nofun

theorem expression_yields (scope : Scope) (mode : Mode) (node : NodeId) :
    (expression scope mode node).Yields Value.Normalized := by
  unfold expression
  split
  · exact fail
  · exact pure (.flat nofun)
  · exact pure (.flat nofun)
  · exact pure (.flat nofun)
  · exact (addElements_yields scope _ KeyedArray.keeps_empty).bind fun _ keeps =>
      pure (Value.normalized_array.mpr keeps)
  · exact unary_yields _ _ _ _
  · exact binary_yields _ _ _ _ _
  · exact ternary_yields _ _ _
  · exact constantFetch_yields _ _
  · exact classConstFetch_yields _ _ _ _
  · exact pure (magicConstant_normalized _ _ _)
  · exact fail
  · exact value.bind fun container normalized => after fun offset =>
      ofFault (Value.offset_normalized normalized)
  · refine after fun owner => ?_
    split
    · exact pure (.flat nofun)
    · exact propertyOf_yields _ _ _ _
  · exact call_yields _ _ _ _
  · exact fail

end Evaluation

end StaticReflection
