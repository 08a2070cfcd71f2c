import StaticReflection.Proofs.Reflection.DeclarationIds
import StaticReflection.Reflection.Evaluation

namespace StaticReflection

/-! The rules ask only for constants that the reflector holds, and for each of them where its
expression stands. This does not depend on the values that they are given. -/

/-- The questions of a plan are about what a reflector holds, whatever values it is given. -/
inductive Plan.Grounded (r : Reflector) {α : Type} : Plan α → Prop
  | done {result : Except ReflectionError α} : Grounded r (.done result)
  | askNode {mode : Mode} {node : NodeId} {next : Value → Plan α} :
      (∀ value, Grounded r (next value)) → Grounded r (.askNode mode node next)
  | askConstant {constant : ConstantInfo} {node : NodeId} {next : Value → Plan α} :
      r.Holds constant → constant.value = some node → (∀ value, Grounded r (next value)) →
      Grounded r (.askConstant constant node next)
  | askClass {name : String} {next : ClassInfo → Plan α} :
      (∀ info, r.HoldsClass info → Grounded r (next info)) → Grounded r (.askClass name next)
  | askMember {info : ClassInfo} {name : String} {next : Option ConstantInfo → Plan α} :
      r.HoldsClass info →
      (∀ member, (∀ constant, member = some constant → r.Holds constant) →
        Grounded r (next member)) →
      Grounded r (.askMember info name next)
  | askDeclared {name : String} {next : Option ConstantInfo → Plan α} :
      Grounded r (next (r.index.constant? name)) → Grounded r (.askDeclared name next)
  | askIndex {next : EntityIndex → Plan α} :
      Grounded r (next r.index) → Grounded r (.askIndex next)
  | askPlatform {next : Platform → Plan α} :
      (∀ platform, Grounded r (next platform)) → Grounded r (.askPlatform next)

namespace Plan.Grounded

variable {α β : Type} {r : Reflector}

theorem pure (value : α) : (Pure.pure value : Plan α).Grounded r :=
  .done

theorem fail {error : ReflectionError} : (Plan.fail error : Plan α).Grounded r :=
  .done

theorem ofFault {scope : Scope} {node : Option NodeId} {result : Except Fault α} :
    (Plan.ofFault scope node result).Grounded r := by
  cases result <;> exact .done

theorem bind {plan : Plan α} {next : α → Plan β} (first : plan.Grounded r)
    (second : ∀ value, (next value).Grounded r) : (plan >>= next).Grounded r := by
  change (plan.bind next).Grounded r
  induction first with
  | @done result =>
      cases result with
      | ok value => exact second value
      | error => exact .done
  | askNode _ ih => exact .askNode ih
  | askConstant held stands _ ih => exact .askConstant held stands ih
  | askClass _ ih => exact .askClass ih
  | askMember held _ ih => exact .askMember held ih
  | askDeclared _ ih => exact .askDeclared ih
  | askIndex _ ih => exact .askIndex ih
  | askPlatform _ ih => exact .askPlatform ih

theorem value {mode : Mode} {node : NodeId} : (Plan.value mode node).Grounded r :=
  .askNode pure

theorem platform : Plan.platform.Grounded r :=
  .askPlatform pure

theorem index_bind {next : EntityIndex → Plan α} (known : (next r.index).Grounded r) :
    (Plan.index >>= next).Grounded r :=
  .askIndex known

theorem classNamed_bind {name : String} {next : ClassInfo → Plan α}
    (known : ∀ info, r.HoldsClass info → (next info).Grounded r) :
    (Plan.classNamed name >>= next).Grounded r :=
  .askClass known

theorem member?_bind {info : ClassInfo} {name : String} {next : Option ConstantInfo → Plan α}
    (held : r.HoldsClass info)
    (known : ∀ member, (∀ constant, member = some constant → r.Holds constant) →
      (next member).Grounded r) : (Plan.member? info name >>= next).Grounded r :=
  .askMember held known

theorem firstDeclared_bind {names : List String} {next : Option ConstantInfo → Plan α}
    (known : (next (names.findSome? r.index.constant?)).Grounded r) :
    (names.findSomeM? Plan.declared? >>= next).Grounded r := by
  induction names with
  | nil => exact known
  | cons name rest ih =>
      rw [List.findSome?_cons] at known
      refine .askDeclared ?_
      cases declared : r.index.constant? name with
      | some constant =>
          rw [declared] at known
          exact known
      | none =>
          rw [declared] at known
          exact ih known

end Plan.Grounded

/-! The rules, one for each kind of node. -/

namespace Evaluation

open Plan.Grounded

variable {r : Reflector}

theorem backingValue_grounded {constant : ConstantInfo} (held : r.Holds constant) :
    (backingValue constant).Grounded r := by
  unfold backingValue
  split
  · exact .askConstant held ‹_› pure
  · exact pure _

theorem constantValue_grounded {constant : ConstantInfo} (held : r.Holds constant) :
    (constantValue constant).Grounded r := by
  unfold constantValue
  split
  · exact pure _
  · split
    · exact .askConstant held ‹_› pure
    · exact fail

theorem classConstant_grounded (owner name : String) :
    (classConstant owner name).Grounded r := by
  refine classNamed_bind fun info heldClass => member?_bind heldClass fun member held => ?_
  split
  · exact constantValue_grounded (held _ rfl)
  · exact fail

theorem classConstFetch_grounded (scope : Scope) (node owner : NodeId) (name : String) :
    (classConstFetch scope node owner name).Grounded r := by
  unfold classConstFetch
  split
  · refine Plan.Grounded.done.bind fun owner => ?_
    split
    · exact pure _
    · exact classConstant_grounded _ _
  · exact fail

theorem addElement_grounded (scope : Scope) (node : NodeId) (element : ArrayElement)
    (items : KeyedArray Value) : (addElement scope node element items).Grounded r := by
  unfold addElement
  split
  · exact fail
  · split
    · refine value.bind fun given => ?_
      split
      · exact ofFault
      · exact fail
    · split
      · refine value.bind fun given => ?_
        split
        · exact pure _
        · exact fail
      · refine value.bind fun key => ?_
        split
        · exact value.bind fun given => pure _
        · exact fail

theorem addElements_grounded (scope : Scope) (slots : List (Option NodeId))
    (items : KeyedArray Value) : (addElements scope slots items).Grounded r := by
  induction slots generalizing items with
  | nil => exact pure _
  | cons slot rest ih =>
      unfold addElements
      split
      · exact (addElement_grounded scope _ _ items).bind ih
      · exact fail

theorem unary_grounded (scope : Scope) (node : NodeId) (op : TokenKind) (operand : NodeId) :
    (unary scope node op operand).Grounded r := by
  unfold unary
  split
  · exact value.bind fun given => ofFault
  · exact fail

theorem binary_grounded (scope : Scope) (node : NodeId) (op : TokenKind)
    (left right : NodeId) : (binary scope node op left right).Grounded r := by
  cases op with
  | ampersandAmpersand | andKw =>
      refine value.bind fun first => ?_
      split
      · exact value.bind fun second => pure _
      · exact pure _
  | barBar | orKw =>
      refine value.bind fun first => ?_
      split
      · exact pure _
      · exact value.bind fun second => pure _
  | questionQuestion =>
      refine value.bind fun first => ?_
      split
      · exact value
      · exact pure _
  | instanceofKw => exact fail
  | _ => exact value.bind fun first => value.bind fun second => ofFault

theorem ternary_grounded (condition : NodeId) (whenTrue : Option NodeId) (whenFalse : NodeId) :
    (ternary condition whenTrue whenFalse).Grounded r := by
  refine value.bind fun chosen => ?_
  split
  · exact value
  · exact pure _
  · exact value

theorem fillSlots_grounded (scope : Scope) (function : PureFunction) (arguments : List NodeId)
    (slots : Slots) : (fillSlots scope function arguments slots).Grounded r := by
  induction arguments generalizing slots with
  | nil => exact pure _
  | cons argument rest ih =>
      unfold fillSlots
      split
      · exact value.bind fun given => ofFault.bind ih
      · exact fail

theorem valueOfFirst_grounded (names : List String) (shown : String) :
    (valueOfFirst names shown).Grounded r := by
  refine firstDeclared_bind ?_
  split
  · rename_i found
    obtain ⟨name, _, known⟩ := List.exists_of_findSome?_eq_some found
    exact constantValue_grounded (r.holds_of_global known)
  · refine platform.bind fun platform => ?_
    split
    · exact pure _
    · exact fail

theorem constantFetch_grounded (scope : Scope) (name : String) :
    (constantFetch scope name).Grounded r := by
  unfold constantFetch
  split
  · exact pure _
  · exact valueOfFirst_grounded _ _

theorem constantByText_grounded (scope : Scope) (node : NodeId) (text : String) :
    (constantByText scope node text).Grounded r := by
  unfold constantByText
  split
  · exact Plan.Grounded.done.bind fun owner => classConstant_grounded _ _
  · dsimp only
    split
    · exact pure _
    · exact valueOfFirst_grounded _ _

theorem propertyOf_grounded (scope : Scope) (node nameNode : NodeId) (object : Value) :
    (propertyOf scope node nameNode object).Grounded r := by
  unfold propertyOf
  split
  · exact pure _
  · refine classNamed_bind fun info heldClass => ?_
    split
    · rename_i constant _ found _
      obtain ⟨declared, _⟩ := Option.filter_eq_some_iff.mp found
      exact backingValue_grounded (r.holds_of_member heldClass declared)
    · exact fail
  · exact fail
  · exact fail
  · exact fail

theorem constantCall_grounded (scope : Scope) (node : NodeId) (values : List Value) :
    (constantCall scope node values).Grounded r := by
  unfold constantCall
  split
  · exact constantByText_grounded _ _ _
  · exact fail
  · exact fail

theorem call_grounded (scope : Scope) (node callee : NodeId) (arguments : List NodeId) :
    (call scope node callee arguments).Grounded r := by
  unfold call
  split
  · refine index_bind ?_
    split
    · exact fail
    · refine ((fillSlots_grounded scope _ _ _).bind fun slots => ofFault).bind fun values => ?_
      split
      · exact constantCall_grounded _ _ _
      · exact platform.bind fun platform => ofFault
  · exact fail

/-- The rule of every node is about what the reflector holds. -/
theorem expression_grounded (scope : Scope) (mode : Mode) (node : NodeId) :
    (expression scope mode node).Grounded r := by
  unfold expression
  split
  · exact fail
  · exact pure _
  · exact pure _
  · exact pure _
  · exact (addElements_grounded scope _ _).bind fun items => pure _
  · exact unary_grounded _ _ _ _
  · exact binary_grounded _ _ _ _ _
  · exact ternary_grounded _ _ _
  · exact constantFetch_grounded _ _
  · exact classConstFetch_grounded _ _ _ _
  · exact pure _
  · exact fail
  · exact value.bind fun container => value.bind fun offset => ofFault
  · refine value.bind fun owner => ?_
    split
    · exact pure _
    · exact propertyOf_grounded _ _ _ _
  · exact call_grounded _ _ _ _
  · exact fail

end Evaluation

end StaticReflection
