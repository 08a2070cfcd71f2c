import StaticReflection.Proofs.Parser.RenderedExpressions

namespace StaticReflection

/-! The tree that a node of an arena stands for. -/

mutual

def Arena.Unfolds (arena : Arena) : Expr → NodeId → Prop
  | .int value _, id => arena.node? id = some (.intLiteral (.ofNat value))
  | .str value, id => arena.node? id = some (.stringLiteral (Utf8.encode value.toList))
  | .const name, id => arena.node? id = some (.constFetch name.value)
  | .classConst owner name, id => ∃ ownerId,
      arena.node? id = some (.classConstFetch ownerId name.value) ∧
      arena.node? ownerId = some (.nameRef owner.value)
  | .unary op operand, id => ∃ operandId,
      arena.node? id = some (.unary op.kind operandId) ∧ arena.Unfolds operand operandId
  | .binary op left right, id => ∃ leftId rightId,
      arena.node? id = some (.binary op.kind leftId rightId) ∧
      arena.Unfolds left leftId ∧ arena.Unfolds right rightId
  | .ternary condition whenTrue whenFalse, id => ∃ conditionId trueId falseId,
      arena.node? id = some (.ternary conditionId (some trueId) falseId) ∧
      arena.Unfolds condition conditionId ∧ arena.Unfolds whenTrue trueId ∧
      arena.Unfolds whenFalse falseId
  | .shortTernary condition whenFalse, id => ∃ conditionId falseId,
      arena.node? id = some (.ternary conditionId none falseId) ∧
      arena.Unfolds condition conditionId ∧ arena.Unfolds whenFalse falseId
  | .array bracketed items, id => ∃ slots,
      arena.node? id = some (.arrayLiteral slots bracketed) ∧ arena.UnfoldsItems items slots
  | .dim base index, id => ∃ baseId indexId,
      arena.node? id = some (.dimFetch baseId (some indexId)) ∧
      arena.Unfolds base baseId ∧ arena.Unfolds index indexId

def Arena.UnfoldsItem (arena : Arena) : Item → ArrayElement → Prop
  | .plain value, found => ∃ valueId,
      found = { key := none, value := valueId } ∧ arena.Unfolds value valueId
  | .keyed key value, found => ∃ keyId valueId,
      found = { key := some keyId, value := valueId } ∧
      arena.Unfolds key keyId ∧ arena.Unfolds value valueId
  | .spread value, found => ∃ valueId,
      found = { key := none, value := valueId, spread := true } ∧ arena.Unfolds value valueId

def Arena.UnfoldsItems (arena : Arena) : Items → List (Option NodeId) → Prop
  | .nil, slots => slots = []
  | .cons item rest, slots => ∃ id found others, slots = some id :: others ∧
      arena.node? id = some (.arrayItem found) ∧
      arena.UnfoldsItem item found ∧ arena.UnfoldsItems rest others

end

/-! Nodes that are added later change nothing. -/

mutual

theorem Arena.Unfolds.mono {arena larger : Arena} {e : Expr} {id : NodeId}
    (unfolds : arena.Unfolds e id) (grows : arena.Extends larger) : larger.Unfolds e id := by
  cases e with
  | int | str | const =>
      simp only [Unfolds] at unfolds ⊢
      exact grows _ _ unfolds
  | classConst owner name =>
      simp only [Unfolds] at unfolds ⊢
      obtain ⟨ownerId, found, named⟩ := unfolds
      exact ⟨ownerId, grows _ _ found, grows _ _ named⟩
  | unary op operand =>
      simp only [Unfolds] at unfolds ⊢
      obtain ⟨operandId, found, inner⟩ := unfolds
      exact ⟨operandId, grows _ _ found, inner.mono grows⟩
  | binary op left right =>
      simp only [Unfolds] at unfolds ⊢
      obtain ⟨leftId, rightId, found, first, second⟩ := unfolds
      exact ⟨leftId, rightId, grows _ _ found, first.mono grows, second.mono grows⟩
  | ternary condition whenTrue whenFalse =>
      simp only [Unfolds] at unfolds ⊢
      obtain ⟨conditionId, trueId, falseId, found, first, second, third⟩ := unfolds
      exact ⟨conditionId, trueId, falseId, grows _ _ found, first.mono grows, second.mono grows,
        third.mono grows⟩
  | shortTernary condition whenFalse =>
      simp only [Unfolds] at unfolds ⊢
      obtain ⟨conditionId, falseId, found, first, second⟩ := unfolds
      exact ⟨conditionId, falseId, grows _ _ found, first.mono grows, second.mono grows⟩
  | array bracketed items =>
      simp only [Unfolds] at unfolds ⊢
      obtain ⟨slots, found, inner⟩ := unfolds
      exact ⟨slots, grows _ _ found, inner.mono grows⟩
  | dim base index =>
      simp only [Unfolds] at unfolds ⊢
      obtain ⟨baseId, indexId, found, first, second⟩ := unfolds
      exact ⟨baseId, indexId, grows _ _ found, first.mono grows, second.mono grows⟩

theorem Arena.UnfoldsItem.mono {arena larger : Arena} {item : Item} {found : ArrayElement}
    (unfolds : arena.UnfoldsItem item found) (grows : arena.Extends larger) :
    larger.UnfoldsItem item found := by
  cases item with
  | plain value | spread value =>
      simp only [UnfoldsItem] at unfolds ⊢
      obtain ⟨valueId, rfl, inner⟩ := unfolds
      exact ⟨valueId, rfl, inner.mono grows⟩
  | keyed key value =>
      simp only [UnfoldsItem] at unfolds ⊢
      obtain ⟨keyId, valueId, rfl, first, second⟩ := unfolds
      exact ⟨keyId, valueId, rfl, first.mono grows, second.mono grows⟩

theorem Arena.UnfoldsItems.mono {arena larger : Arena} {items : Items}
    {slots : List (Option NodeId)} (unfolds : arena.UnfoldsItems items slots)
    (grows : arena.Extends larger) : larger.UnfoldsItems items slots := by
  cases items with
  | nil => exact unfolds
  | cons item rest =>
      simp only [UnfoldsItems] at unfolds ⊢
      obtain ⟨id, found, others, rfl, there, first, second⟩ := unfolds
      exact ⟨id, found, others, rfl, grows _ _ there, first.mono grows, second.mono grows⟩

end

/-! A node stands for one tree only. -/

theorem Utf8.encode_toList_injective {first second : String}
    (same : Utf8.encode first.toList = Utf8.encode second.toList) : first = second := by
  apply String.toByteArray_inj.mp
  have bytes (text : String) : text.toByteArray = (Utf8.encode text.toList).toByteArray := by
    conv => lhs; rw [← String.ofList_toList (s := text), String.toByteArray_ofList]
    rfl
  rw [bytes, bytes, same]

theorem Word.ext_value {first second : Word} (same : first.value = second.value) :
    first = second := by
  cases first
  cases second
  cases String.ofList_injective same
  rfl

theorem ClassName.ext_value {first second : ClassName} (same : first.value = second.value) :
    first = second := by
  cases first
  cases second
  cases Word.ext_value same
  rfl

theorem ConstantName.ext_value {first second : ConstantName} (same : first.value = second.value) :
    first = second := by
  cases first
  cases second
  cases ClassName.ext_value same
  rfl

theorem MemberName.ext_value {first second : MemberName} (same : first.value = second.value) :
    first = second := by
  cases first
  cases second
  cases Word.ext_value same
  rfl

theorem UnaryOp.ext_kind {first second : UnaryOp} (same : first.kind = second.kind) :
    first = second := by
  revert same
  cases first <;> cases second <;> decide

theorem BinaryOp.ext_kind {first second : BinaryOp} (same : first.kind = second.kind) :
    first = second := by
  cases first
  cases second
  cases same
  rfl

theorem int64_ofNat_injective {first second : Nat} (fits : first < 2 ^ 63)
    (fitsToo : second < 2 ^ 63) (same : Int64.ofNat first = Int64.ofNat second) :
    first = second := by
  have value := congrArg Int64.toInt same
  rw [Int64.toInt_ofNat_of_lt fits, Int64.toInt_ofNat_of_lt fitsToo] at value
  omega

mutual

theorem Arena.Unfolds.unique {arena : Arena} {e other : Expr} {id : NodeId}
    (first : arena.Unfolds e id) (second : arena.Unfolds other id) : e = other := by
  cases e with
  | int value fits =>
      simp only [Unfolds] at first
      cases other with
      | int value' fits' =>
          simp only [Unfolds, first, Option.some.injEq, Node.intLiteral.injEq] at second
          cases int64_ofNat_injective fits fits' second
          rfl
      | _ => simp [Unfolds, first] at second
  | str value =>
      simp only [Unfolds] at first
      cases other with
      | str value' =>
          simp only [Unfolds, first, Option.some.injEq, Node.stringLiteral.injEq] at second
          rw [Utf8.encode_toList_injective second]
      | _ => simp [Unfolds, first] at second
  | const name =>
      simp only [Unfolds] at first
      cases other with
      | const name' =>
          simp only [Unfolds, first, Option.some.injEq, Node.constFetch.injEq] at second
          rw [ConstantName.ext_value second]
      | _ => simp [Unfolds, first] at second
  | classConst owner name =>
      simp only [Unfolds] at first
      obtain ⟨ownerId, found, named⟩ := first
      cases other with
      | classConst owner' name' =>
          simp only [Unfolds, found, Option.some.injEq, Node.classConstFetch.injEq] at second
          obtain ⟨_, ⟨rfl, sameName⟩, sameOwner⟩ := second
          simp only [named, Option.some.injEq, Node.nameRef.injEq] at sameOwner
          rw [MemberName.ext_value sameName, ClassName.ext_value sameOwner]
      | _ => simp [Unfolds, found] at second
  | unary op operand =>
      simp only [Unfolds] at first
      obtain ⟨operandId, found, inner⟩ := first
      cases other with
      | unary op' operand' =>
          simp only [Unfolds, found, Option.some.injEq, Node.unary.injEq] at second
          obtain ⟨_, ⟨same, rfl⟩, inner'⟩ := second
          rw [UnaryOp.ext_kind same, inner.unique inner']
      | _ => simp [Unfolds, found] at second
  | binary op left right =>
      simp only [Unfolds] at first
      obtain ⟨leftId, rightId, found, one, two⟩ := first
      cases other with
      | binary op' left' right' =>
          simp only [Unfolds, found, Option.some.injEq, Node.binary.injEq] at second
          obtain ⟨_, _, ⟨same, rfl, rfl⟩, one', two'⟩ := second
          rw [BinaryOp.ext_kind same, one.unique one', two.unique two']
      | _ => simp [Unfolds, found] at second
  | ternary condition whenTrue whenFalse =>
      simp only [Unfolds] at first
      obtain ⟨conditionId, trueId, falseId, found, one, two, three⟩ := first
      cases other with
      | ternary condition' whenTrue' whenFalse' =>
          simp only [Unfolds, found, Option.some.injEq, Node.ternary.injEq] at second
          obtain ⟨_, _, _, ⟨rfl, rfl, rfl⟩, one', two', three'⟩ := second
          rw [one.unique one', two.unique two', three.unique three']
      | _ => simp [Unfolds, found] at second
  | shortTernary condition whenFalse =>
      simp only [Unfolds] at first
      obtain ⟨conditionId, falseId, found, one, two⟩ := first
      cases other with
      | shortTernary condition' whenFalse' =>
          simp only [Unfolds, found, Option.some.injEq, Node.ternary.injEq] at second
          obtain ⟨_, _, ⟨rfl, -, rfl⟩, one', two'⟩ := second
          rw [one.unique one', two.unique two']
      | _ => simp [Unfolds, found] at second
  | array bracketed items =>
      simp only [Unfolds] at first
      obtain ⟨slots, found, inner⟩ := first
      cases other with
      | array bracketed' items' =>
          simp only [Unfolds, found, Option.some.injEq, Node.arrayLiteral.injEq] at second
          obtain ⟨_, ⟨rfl, rfl⟩, inner'⟩ := second
          rw [inner.unique inner']
      | _ => simp [Unfolds, found] at second
  | dim base index =>
      simp only [Unfolds] at first
      obtain ⟨baseId, indexId, found, one, two⟩ := first
      cases other with
      | dim base' index' =>
          simp only [Unfolds, found, Option.some.injEq, Node.dimFetch.injEq] at second
          obtain ⟨_, _, ⟨rfl, rfl⟩, one', two'⟩ := second
          rw [one.unique one', two.unique two']
      | _ => simp [Unfolds, found] at second

theorem Arena.UnfoldsItem.unique {arena : Arena} {item other : Item} {found : ArrayElement}
    (first : arena.UnfoldsItem item found) (second : arena.UnfoldsItem other found) :
    item = other := by
  cases item with
  | plain value =>
      simp only [UnfoldsItem] at first
      obtain ⟨valueId, rfl, inner⟩ := first
      cases other with
      | plain value' =>
          simp only [UnfoldsItem, ArrayElement.mk.injEq] at second
          obtain ⟨_, ⟨-, rfl, -⟩, inner'⟩ := second
          rw [inner.unique inner']
      | _ => simp [UnfoldsItem] at second
  | keyed key value =>
      simp only [UnfoldsItem] at first
      obtain ⟨keyId, valueId, rfl, one, two⟩ := first
      cases other with
      | keyed key' value' =>
          simp only [UnfoldsItem, ArrayElement.mk.injEq, Option.some.injEq] at second
          obtain ⟨_, _, ⟨rfl, rfl, -⟩, one', two'⟩ := second
          rw [one.unique one', two.unique two']
      | _ => simp [UnfoldsItem] at second
  | spread value =>
      simp only [UnfoldsItem] at first
      obtain ⟨valueId, rfl, inner⟩ := first
      cases other with
      | spread value' =>
          simp only [UnfoldsItem, ArrayElement.mk.injEq] at second
          obtain ⟨_, ⟨-, rfl, -⟩, inner'⟩ := second
          rw [inner.unique inner']
      | _ => simp [UnfoldsItem] at second

theorem Arena.UnfoldsItems.unique {arena : Arena} {items others : Items}
    {slots : List (Option NodeId)} (first : arena.UnfoldsItems items slots)
    (second : arena.UnfoldsItems others slots) : items = others := by
  cases items with
  | nil =>
      simp only [UnfoldsItems] at first
      cases others with
      | nil => rfl
      | cons item rest => simp [UnfoldsItems, first] at second
  | cons item rest =>
      simp only [UnfoldsItems] at first
      obtain ⟨id, found, more, rfl, there, one, two⟩ := first
      cases others with
      | nil => simp [UnfoldsItems] at second
      | cons item' rest' =>
          simp only [UnfoldsItems, List.cons.injEq, Option.some.injEq] at second
          obtain ⟨_, _, _, ⟨rfl, rfl⟩, there', one', two'⟩ := second
          simp only [there, Option.some.injEq, Node.arrayItem.injEq] at there'
          cases there'
          rw [one.unique one', two.unique two']

end

end StaticReflection
