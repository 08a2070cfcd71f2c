import Mathlib.Data.List.Perm.Subperm
import StaticReflection.Proofs.Evaluation.NormalizedAnswers
import StaticReflection.Proofs.Values.Doubles

namespace StaticReflection

/-! Loose comparison answers the same from both sides: what converts one operand for the other
does not look at which of them is on the left. Arrays are compared key by key, so that for them
this is a matter of their keys, each of which stands once. -/

/-! The numbers that strings hold are never NaN. -/

theorem toLower_digit {c : Char} (digit : c.isDigit = true) : c.toLower ∉ ['n', 'a', 'n'] := by
  obtain ⟨least, most⟩ := Char.isDigit_iff_toNat.mp digit
  change 48 ≤ c.toNat at least
  change c.toNat ≤ 57 at most
  have spelled : ∀ n < 10, (Char.ofNat (48 + n)).toLower ∉ ['n', 'a', 'n'] := by decide
  have written : c = Char.ofNat (48 + (c.toNat - 48)) := by
    rw [Nat.add_sub_cancel' least, Char.ofNat_toNat]
  rw [written]
  exact spelled _ (by omega)

theorem mem_takeSign {text : List Char} {c : Char} (among : c ∈ text) (digit : c.isDigit = true) :
    c ∈ (takeSign text).2 := by
  unfold takeSign
  split
  · obtain rfl | later := List.mem_cons.mp among
    · cases digit
    · exact later
  · obtain rfl | later := List.mem_cons.mp among
    · cases digit
    · exact later
  · exact among

theorem isNaN_of_readFloat? {text : List Char} {x : Float} (digit : ∃ c ∈ text, c.isDigit = true)
    (read : readFloat? text = some x) : x.isNaN = false := by
  obtain ⟨c, among, digit⟩ := digit
  have inside := mem_takeSign among digit
  unfold readFloat? at read
  generalize takeSign text = signed at read inside
  obtain ⟨negative, body⟩ := signed
  dsimp only at read inside
  split at read
  · obtain rfl := Option.some.inj read
    cases negative <;> decide
  · obtain rfl := Option.some.inj read
    cases negative <;> decide
  · rename_i nan
    have letters : body.map Char.toLower = ['n', 'a', 'n'] := by
      rw [← String.toList_ofList (l := body.map Char.toLower), nan]
      rfl
    exact absurd (letters ▸ List.mem_map_of_mem inside) (toLower_digit digit)
  · obtain ⟨decimal, -, rfl⟩ := Option.map_eq_some_iff.mp read
    exact Binary64.isNaN_ofDecimal _ _ _

theorem exists_digit_of_takeWhile {text digits : List Char} {before count : Nat}
    (run : digits = (text.drop before).takeWhile Char.isDigit) (nonempty : digits ≠ [])
    (enough : before + digits.length ≤ count) : ∃ c ∈ text.take count, c.isDigit = true := by
  obtain ⟨c, among⟩ := List.exists_mem_of_ne_nil digits nonempty
  have digit : c.isDigit = true := List.all_eq_true.mp List.all_takeWhile c (run ▸ among)
  refine ⟨c, ?_, digit⟩
  have front : digits = (text.drop before).take digits.length :=
    List.prefix_iff_eq_take.mp (run ▸ List.takeWhile_prefix _)
  rw [front, List.take_drop] at among
  exact List.take_subset_take_left text enough (List.mem_of_mem_drop among)

theorem eq_takeWhile_of_fractionDigits? {text digits : List Char}
    (read : fractionDigits? text = some digits) :
    digits = (text.drop 1).takeWhile Char.isDigit := by
  unfold fractionDigits? at read
  split at read
  · exact (Option.some.inj read).symm
  · cases read

/-- A number is not read without a digit. -/
theorem exists_digit_of_read? {text : List Char} {extent : NumberExtent}
    (read : NumberExtent.read? text = some extent) :
    ∃ c ∈ text.take extent.length, c.isDigit = true := by
  unfold NumberExtent.read? at read
  extract_lets sign whole fraction point mantissa exponent at read
  split at read
  · cases read
  rename_i nowhere
  obtain rfl := Option.some.inj read
  by_cases empty : whole = []
  · cases written : fraction with
    | none => exact absurd ⟨empty, congrArg (Option.getD · []) written⟩ nowhere
    | some digits =>
        have measured : point = digits.length + 1 := by
          change (fraction.map _).getD 0 = _
          rw [written]
          rfl
        have there := eq_takeWhile_of_fractionDigits? written
        rw [List.drop_drop] at there
        refine exists_digit_of_takeWhile there ?_ ?_
        · exact fun same => nowhere ⟨empty, by rw [written]; exact same⟩
        · change _ ≤ sign + whole.length + point + exponent
          omega
  · refine exists_digit_of_takeWhile rfl empty ?_
    change sign + whole.length ≤ sign + whole.length + point + exponent
    omega

theorem isNaN_of_readNumber {text : List Char} {isFloat : Bool} {x : Float}
    (digit : ∃ c ∈ text, c.isDigit = true) (read : readNumber text isFloat = .float x) :
    x.isNaN = false := by
  have proper : ((readFloat? text).getD 0.0).isNaN = false := by
    cases found : readFloat? text with
    | none => decide
    | some y => exact isNaN_of_readFloat? digit found
  unfold readNumber at read
  dsimp only at read
  split at read
  · exact Number.float.inj read ▸ proper
  · cases found : readInt64? 10 text with
    | none =>
        rw [found] at read
        exact Number.float.inj read ▸ proper
    | some i =>
        rw [found] at read
        cases read

theorem isNaN_of_wholeNumber? {bytes : Bytes} {x : Float}
    (read : wholeNumber? bytes = some (.float x)) : x.isNaN = false := by
  unfold wholeNumber? NumericString.classify at read
  split at read
  · rename_i number whole
    dsimp only at whole
    split at whole
    · cases whole
    · rename_i extent found
      have digit := exists_digit_of_read? found
      split at whole
      · obtain rfl := NumericString.whole.inj whole
        exact isNaN_of_readNumber digit (Option.some.inj read)
      · cases whole
  · cases read

/-! Operands that change sides. -/

theorem compareBytes_swap (a b : Bytes) : compareBytes b a = (compareBytes a b).swap := by
  induction a, b using compareBytes.induct with
  | case1 => rfl
  | case2 => rfl
  | case3 => rfl
  | case4 x xs y ys ih =>
      have bytes : compare y x = (compare x y).swap := Std.OrientedOrd.eq_swap
      rw [compareBytes, compareBytes, ih, bytes, Ordering.swap_then]

theorem compareTruth_swap (a b : Value) : compareTruth b a = (compareTruth a b).swap :=
  Std.OrientedOrd.eq_swap

theorem Number.compare?_swap (a b : Number) :
    b.compare? a = (a.compare? b).map Ordering.swap := by
  cases a <;> cases b
  · exact congrArg some Std.OrientedOrd.eq_swap
  · exact compareFloats?_swap _ _
  · exact compareFloats?_swap _ _
  · exact compareFloats?_swap _ _

theorem compareTexts?_swap (a b : Bytes) :
    compareTexts? b a = (compareTexts? a b).map Ordering.swap := by
  unfold compareTexts?
  cases wholeNumber? a <;> cases wholeNumber? b
  · exact congrArg some (compareBytes_swap a b)
  · exact congrArg some (compareBytes_swap a b)
  · exact congrArg some (compareBytes_swap a b)
  · exact Number.compare?_swap _ _

theorem map_swap_swap (order : Option Ordering) :
    (order.map Ordering.swap).map Ordering.swap = order := by
  cases order with
  | none => rfl
  | some order => exact congrArg some (Ordering.swap_swap)

theorem Value.looseCompare?_swap {a b : Value}
    (flat : (∀ items, a ≠ .array items) ∨ ∀ items, b ≠ .array items) :
    b.looseCompare? a = (a.looseCompare? b).map Ordering.swap := by
  cases a <;> cases b
  all_goals simp only [Value.looseCompare?]
  case array.array left right =>
    exact (flat.elim (· left rfl) (· right rfl)).elim
  case enumCase.enumCase owner name other named =>
    by_cases same : owner = other ∧ name = named
    · obtain ⟨rfl, rfl⟩ := same
      rw [if_pos ⟨rfl, rfl⟩]
      rfl
    · rw [if_neg same, if_neg fun ⟨owners, names⟩ => same ⟨owners.symm, names.symm⟩]
      rfl
  -- Each other pair of kinds calls one comparison, and so does the pair turned round. A string
  -- before a number is compared as the number before the string and turned round.
  all_goals first
    | rfl
    | exact congrArg some (compareTruth_swap _ _)
    | exact congrArg some (compareBytes_swap _ _)
    | exact Number.compare?_swap _ _
    | exact compareTexts?_swap _ _
    | exact (map_swap_swap _).symm

/-! Arrays. -/

namespace KeyedArray

variable {α : Type} {a b : KeyedArray α} {R : α → α → Prop}

/-- The second array has each key of the first, and the values under it are related. -/
def Relates (R : α → α → Prop) (a b : KeyedArray α) : Prop :=
  ∀ entry ∈ a.entries, ∃ other, b.get? entry.1 = some other ∧ R entry.2 other

/-- Among arrays of one size, in which every key stands once, neither has keys of its own. -/
theorem Relates.flip (relates : Relates R a b) (left : (a.entries.map (·.1)).Nodup)
    (right : (b.entries.map (·.1)).Nodup) (size : b.size ≤ a.size) :
    Relates (fun x y => R y x) b a := by
  have shared : a.entries.map (·.1) ⊆ b.entries.map (·.1) := fun key among => by
    obtain ⟨entry, there, rfl⟩ := List.mem_map.mp among
    obtain ⟨other, found, -⟩ := relates entry there
    exact List.mem_map.mpr ⟨_, mem_of_get? found, rfl⟩
  have rearranged : (a.entries.map (·.1)).Perm (b.entries.map (·.1)) :=
    (List.subperm_of_subset left shared).perm_of_length_le (by simpa [KeyedArray.size] using size)
  intro entry among
  obtain ⟨⟨_, value⟩, there, rfl⟩ :=
    List.mem_map.mp (rearranged.mem_iff.mpr (List.mem_map_of_mem among))
  obtain ⟨other, found, related⟩ := relates _ there
  obtain rfl := Option.some.inj (found.symm.trans (get?_of_mem right among))
  exact ⟨value, get?_of_mem left there, related⟩

end KeyedArray

theorem compareEntries?_eq_iff {left : List (ArrayKey × Value)} {right : KeyedArray Value} :
    compareEntries? left right = some .eq ↔ ∀ entry ∈ left, ∃ other,
      right.get? entry.1 = some other ∧ entry.2.looseCompare? other = some .eq := by
  induction left with
  | nil => simp [compareEntries?]
  | cons entry rest ih =>
      obtain ⟨key, value⟩ := entry
      rw [List.forall_mem_cons, ← ih, compareEntries?]
      cases found : right.get? key with
      | none => simp
      | some other =>
          rcases compared : value.looseCompare? other with _ | _ | _ | _ <;> simp [compared]

theorem Value.looseCompare?_array {a b : KeyedArray Value} :
    (Value.array a).looseCompare? (.array b) = some .eq ↔
      a.size = b.size ∧ a.Relates (fun x y => x.looseCompare? y = some .eq) b := by
  obtain ⟨entries, next⟩ := a
  rw [Value.looseCompare?]
  change _ ↔ entries.length = b.size ∧ _
  split
  · rename_i differ
    simp [differ]
  · rename_i same
    exact compareEntries?_eq_iff.trans ⟨fun equal => ⟨Decidable.not_not.mp same, equal⟩, (·.2)⟩

/-- In all arrays of which a value is made every key stands once, as insertion leaves it. -/
inductive Value.Keyed : Value → Prop
  | flat {value : Value} (noArray : ∀ items, value ≠ .array items) : Keyed value
  | array {items : KeyedArray Value} (distinct : (items.entries.map (·.1)).Nodup)
      (values : ∀ entry ∈ items.entries, Keyed entry.2) : Keyed (.array items)

theorem Value.Normalized.keyed {value : Value} (normalized : value.Normalized) :
    value.Keyed := by
  induction normalized with
  | flat noArray => exact .flat noArray
  | array distinct _ _ ih => exact .array distinct ih

/-- Whatever a reflector comes to can be compared. -/
theorem Reflector.ComesTo.keyed (options : Options) (locator : Locator) (sources : SourceCache)
    (operations : List Operation) {value : Value}
    (comes : ((Reflector.new options locator sources).undergoAll operations).ComesTo value) :
    value.Keyed :=
  have tidy := (Reflector.tidy_new options locator sources).undergoAll operations
  (tidy.normalized comes).keyed

theorem Value.Keyed.equal_swap {a b : Value} (first : a.Keyed) (second : b.Keyed)
    (equal : a.looseCompare? b = some .eq) : b.looseCompare? a = some .eq := by
  -- By induction on the left value; equal keys lead to values inside it.
  induction first generalizing b with
  | flat noArray => rw [looseCompare?_swap (.inl noArray), equal]; rfl
  | @array items distinct values ih =>
      cases second with
      | flat noArray => rw [looseCompare?_swap (.inr noArray), equal]; rfl
      | @array others distinct' values' =>
          obtain ⟨size, relates⟩ := looseCompare?_array.mp equal
          refine looseCompare?_array.mpr ⟨size.symm, ?_⟩
          intro entry among
          have back := relates.flip distinct distinct' (Nat.le_of_eq size.symm)
          obtain ⟨value, found, related⟩ := back entry among
          exact ⟨value, found, ih _ (KeyedArray.mem_of_get? found) (values' entry among) related⟩

/-! Values that are the same are equal. -/

theorem compareBytes_self (bytes : Bytes) : compareBytes bytes bytes = .eq := by
  induction bytes with
  | nil => rfl
  | cons byte rest ih => rw [compareBytes, ih, Std.ReflOrd.compare_self]; rfl

theorem compareTexts?_self (bytes : Bytes) : compareTexts? bytes bytes = some .eq := by
  unfold compareTexts?
  cases read : wholeNumber? bytes with
  | none => exact congrArg some (compareBytes_self bytes)
  | some number =>
      cases number with
      | int i => exact congrArg some Std.ReflOrd.compare_self
      | float x => exact compareFloats?_self (isNaN_of_wholeNumber? read)

theorem entries_of_strictEqualEntries {left right : List (ArrayKey × Value)}
    (same : strictEqualEntries left right = true) :
    left.length = right.length ∧ ∀ entry ∈ left, ∃ other, (entry.1, other) ∈ right ∧
      entry.2.strictEquals other = true := by
  induction left generalizing right with
  | nil =>
      cases right with
      | nil => exact ⟨rfl, nofun⟩
      | cons => cases same
  | cons entry rest ih =>
      cases right with
      | nil => cases same
      | cons other others =>
          simp only [strictEqualEntries, Bool.and_eq_true, beq_iff_eq] at same
          obtain ⟨⟨key, value⟩, later⟩ := same
          obtain ⟨length, found⟩ := ih later
          refine ⟨congrArg (· + 1) length, List.forall_mem_cons.mpr ⟨?_, fun entry among => ?_⟩⟩
          · exact ⟨other.2, by rw [key]; exact List.mem_cons_self, value⟩
          · obtain ⟨twin, there, same⟩ := found entry among
            exact ⟨twin, List.mem_cons_of_mem _ there, same⟩

theorem Value.looseCompare?_of_strict {a b : Value} (flat : ∀ items, a ≠ .array items)
    (same : a.strictEquals b = true) : a.looseCompare? b = some .eq := by
  cases a <;> cases b
  case null.null => rfl
  case bool.bool a b =>
    obtain rfl := beq_iff_eq.mp same
    exact congrArg some Std.ReflOrd.compare_self
  case int.int a b =>
    obtain rfl := beq_iff_eq.mp same
    exact congrArg some Std.ReflOrd.compare_self
  case float.float a b => exact compareFloats?_of_beq same
  case string.string a b =>
    obtain rfl := beq_iff_eq.mp same
    exact compareTexts?_self a
  case array.array items others => exact absurd rfl (flat items)
  case enumCase.enumCase =>
    simp only [strictEquals, Bool.and_eq_true, beq_iff_eq] at same
    exact if_pos same
  all_goals cases same

theorem Value.Keyed.equal_of_strict {a b : Value} (first : a.Keyed) (second : b.Keyed)
    (same : a.strictEquals b = true) : a.looseCompare? b = some .eq := by
  induction first generalizing b with
  | flat noArray => exact looseCompare?_of_strict noArray same
  | @array items distinct values ih =>
      cases b with
      | array others =>
          cases second with
          | flat noArray => exact absurd rfl (noArray others)
          | array distinct' values' =>
              obtain ⟨size, found⟩ := entries_of_strictEqualEntries same
              refine looseCompare?_array.mpr ⟨size, fun entry among => ?_⟩
              obtain ⟨other, there, same⟩ := found entry among
              exact ⟨other, KeyedArray.get?_of_mem distinct' there,
                ih entry among (values' _ there) same⟩
      | _ => cases same

/-- Comparison is coherent: `==` does not depend on the order of its operands, whatever is
`===` is also `==`, and unless both are arrays the order turns round with the operands. -/
theorem comparison_coherent {a b : Value} (first : a.Keyed) (second : b.Keyed) :
    a.looseEquals b = b.looseEquals a ∧
      (a.strictEquals b = true → a.looseEquals b = true) ∧
      ((∀ items, a ≠ .array items) ∨ (∀ items, b ≠ .array items) →
        b.looseCompare? a = (a.looseCompare? b).map Ordering.swap) := by
  refine ⟨?_, fun same => beq_iff_eq.mpr (first.equal_of_strict second same),
    Value.looseCompare?_swap⟩
  rw [Bool.eq_iff_iff]
  unfold Value.looseEquals
  rw [beq_iff_eq, beq_iff_eq]
  exact ⟨first.equal_swap second, second.equal_swap first⟩

theorem comparison_coherent_nested :
    let inner (key : ArrayKey) : Value := .array ⟨[(key, .string [0x31])], none⟩
    let left : Value := .array ⟨[(.int 0, .null), (.string [0x61], inner (.int 7))], some 1⟩
    let right : Value := .array ⟨[(.string [0x61], inner (.int 7)), (.int 0, .int 0)], some 1⟩
    (left.Keyed ∧ right.Keyed ∧ left.looseEquals right = true ∧ right.looseEquals left = true) ∧
      (left.strictEquals left = true ∧ left.looseEquals left = true) ∧
      (Value.int 1).looseCompare? left = (left.looseCompare? (.int 1)).map Ordering.swap := by
  intro inner left right
  have innerKeyed : (inner (.int 7)).Keyed :=
    .array (by decide) (List.forall_mem_singleton.mpr (.flat nofun))
  have leftKeyed : left.Keyed := .array (by decide)
    (List.forall_mem_cons.mpr ⟨.flat nofun, List.forall_mem_singleton.mpr innerKeyed⟩)
  have rightKeyed : right.Keyed := .array (by decide)
    (List.forall_mem_cons.mpr ⟨innerKeyed, List.forall_mem_singleton.mpr (.flat nofun)⟩)
  have number : (Value.int 1).Keyed := .flat nofun
  have equal : left.looseEquals right = true := by decide
  refine ⟨⟨leftKeyed, rightKeyed, equal, ?_⟩, ⟨by decide, ?_⟩, ?_⟩
  · exact (comparison_coherent leftKeyed rightKeyed).1.symm.trans equal
  · exact (comparison_coherent leftKeyed leftKeyed).2.1 (by decide)
  · exact (comparison_coherent leftKeyed number).2.2 (.inr nofun)

end StaticReflection
