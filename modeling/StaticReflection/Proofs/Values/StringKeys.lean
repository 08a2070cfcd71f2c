import StaticReflection.Proofs.Values.NormalizedArrays
import StaticReflection.Proofs.Values.NumericStrings

namespace StaticReflection

/-! Keys of strings. A string counts as an integer key in one spelling only, which is the
decimal form of the integer. -/

/-- Digits with none at the front that could be left out. -/
structure DigitRun.Minimal (digits : DigitRun) : Prop where
  written : digits.text ≠ []
  unpadded : digits.text = ['0'] ∨ digits.text.head? ≠ some '0'

/-- The decimal form of an integer: the digits of its magnitude, after a minus if it is less
than zero. -/
def IsDecimalForm (bytes : Bytes) (i : Int) : Prop :=
  ∃ digits : DigitRun, digits.Minimal ∧ digits.value = i.natAbs ∧
    byteChars bytes = (if i < 0 then ['-'] else []) ++ digits.text

section Digits

variable {digits : List Char} {c : Char}

theorem digitChar_of_isDigit (digit : c.isDigit = true) : Nat.digitChar (c.toNat - 48) = c := by
  have least : 48 ≤ c.toNat := (Char.isDigit_iff_toNat.mp digit).1
  have most : c.toNat ≤ 57 := (Char.isDigit_iff_toNat.mp digit).2
  have small : c.toNat - 48 < 10 := by omega
  apply Char.toNat_inj.mp
  rw [Nat.toNat_digitChar_of_lt_ten small]
  omega

/-- The induction is on the digits from the last one on, as their number is read. -/
theorem toDigits_numberOf (decimal : ∀ c ∈ digits, c.isDigit = true) (written : digits ≠ [])
    (unpadded : digits = ['0'] ∨ digits.head? ≠ some '0') :
    Nat.toDigits 10 (numberOf 10 digits) = digits := by
  induction digits using List.reverseRecOn with
  | nil => exact absurd rfl written
  | append_singleton digits c ih =>
      have digit : c.isDigit = true := decimal c (by simp)
      have most : c.toNat ≤ 57 := (Char.isDigit_iff_toNat.mp digit).2
      have small : c.toNat - 48 < 10 := by omega
      have value : digitValue? c = some (c.toNat - 48) := by simp [digitValue?, digit]
      have last : Nat.toDigits 10 (c.toNat - 48) = [c] := by
        rw [Nat.toDigits_of_lt_base small, digitChar_of_isDigit digit]
      rw [numberOf_concat value]
      by_cases alone : digits = []
      · subst alone
        change Nat.toDigits 10 (0 * 10 + (c.toNat - 48)) = [c]
        rw [Nat.zero_mul, Nat.zero_add, last]
      · have leading : digits.head? ≠ some '0' := by
          obtain ⟨first, rest, rfl⟩ := List.exists_cons_of_ne_nil alone
          simpa using unpadded
        have earlier := ih (fun d among => decimal d (by simp [among])) alone (.inr leading)
        have positive : 0 < numberOf 10 digits := by
          rw [Nat.pos_iff_ne_zero]
          intro zero
          rw [zero] at earlier
          exact leading (by rw [← earlier]; rfl)
        rw [Nat.mul_comm, ← Nat.toDigits_append_toDigits (by decide) positive small, earlier, last]

end Digits

namespace DigitRun

theorem toDigits_value {digits : DigitRun} (minimal : digits.Minimal) :
    Nat.toDigits 10 digits.value = digits.text :=
  toDigits_numberOf digits.decimal minimal.written minimal.unpadded

/-- The digits of a number as they are written. -/
def ofNat (value : Nat) : DigitRun :=
  ⟨Nat.toDigits 10 value, isDigit_of_mem_toDigits⟩

theorem value_ofNat (value : Nat) : (ofNat value).value = value :=
  Option.some.inj ((ofNat value).readDigits?_text.symm.trans (readDigits?_toDigits value))

theorem minimal_ofNat (value : Nat) : (ofNat value).Minimal := by
  refine ⟨Nat.toDigits_ne_nil, ?_⟩
  cases value with
  | zero => exact .inl rfl
  | succ value => exact .inr (head?_toDigits (Nat.succ_pos value))

end DigitRun

/-! The spelling of a key. -/

section Spelling

variable {bytes : Bytes} {i : Int64}

/-- An integer has one decimal form. -/
theorem isDecimalForm_iff {i : Int} :
    IsDecimalForm bytes i ↔ bytes = Utf8.ofString (intText i) := by
  constructor
  · rintro ⟨digits, minimal, value, whole⟩
    apply byteChars_injective
    rw [whole, byteChars_intText, toList_intText, ← value, DigitRun.toDigits_value minimal]
  · rintro rfl
    refine ⟨.ofNat i.natAbs, DigitRun.minimal_ofNat _, DigitRun.value_ofNat _, ?_⟩
    rw [byteChars_intText, toList_intText]
    rfl

theorem readInt64?_minus (digits : DigitRun) (written : digits.text ≠ []) :
    readInt64? 10 ('-' :: digits.text) = toInt64? (-digits.value) := by
  simp [readInt64?, takeSign, written, digits.readDigits?_text]

theorem readInt64?_text (digits : DigitRun) (written : digits.text ≠ []) :
    readInt64? 10 digits.text = toInt64? digits.value := by
  have unsigned : takeSign digits.text = (false, digits.text) := by
    have absent := digits.unsigned written []
    rw [List.append_nil] at absent
    exact (SignMark.mk [] (.inl rfl)).takeSign_append absent
  simp [readInt64?, unsigned, written, digits.readDigits?_text]

theorem isDecimalForm_of_canonicalInt? (spells : canonicalInt? bytes = some i) :
    IsDecimalForm bytes i.toInt := by
  simp only [canonicalInt?, Option.ite_none_right_eq_some] at spells
  obtain ⟨⟨written, decimal, unpadded, nonzero⟩, spells⟩ := spells
  by_cases signed : (byteChars bytes).head? = some '-'
  · rw [if_pos signed] at written decimal unpadded
    obtain ⟨rest, whole⟩ := List.head?_eq_some_iff.mp signed
    rw [whole, List.tail_cons] at written decimal unpadded
    let digits : DigitRun := ⟨rest, List.all_eq_true.mp decimal⟩
    have minimal : digits.Minimal := ⟨written, unpadded⟩
    rw [whole, readInt64?_minus digits written, toInt64?_eq_some_iff] at spells
    have positive : digits.value ≠ 0 := by
      intro zero
      have text := DigitRun.toDigits_value minimal
      rw [zero] at text
      exact nonzero (by rw [whole, show rest = ['0'] from text.symm])
    refine ⟨digits, minimal, by omega, ?_⟩
    rw [whole, if_pos (by omega)]
    rfl
  · rw [if_neg signed] at written decimal unpadded
    let digits : DigitRun := ⟨byteChars bytes, List.all_eq_true.mp decimal⟩
    rw [readInt64?_text digits written, toInt64?_eq_some_iff] at spells
    refine ⟨digits, ⟨written, unpadded⟩, by omega, ?_⟩
    rw [if_neg (by omega)]
    rfl

theorem canonicalInt?_eq_some_iff : canonicalInt? bytes = some i ↔ IsDecimalForm bytes i.toInt :=
  ⟨isDecimalForm_of_canonicalInt?, fun form =>
    isDecimalForm_iff.mp form ▸ canonicalInt?_intText i⟩

theorem ofBytes_eq_int_iff : ArrayKey.ofBytes bytes = .int i ↔ IsDecimalForm bytes i.toInt := by
  rw [← canonicalInt?_eq_some_iff, ArrayKey.ofBytes]
  cases canonicalInt? bytes <;> simp

theorem ofBytes_eq_string_iff {other : Bytes} : ArrayKey.ofBytes bytes = .string other ↔
    other = bytes ∧ ∀ i : Int64, ¬ IsDecimalForm bytes i.toInt := by
  simp only [← canonicalInt?_eq_some_iff, ArrayKey.ofBytes]
  cases canonicalInt? bytes with
  | none => simp [eq_comm]
  | some index => simp

end Spelling

/-- The key of a string is an integer exactly if the string is the decimal form of it, which is
the text that the integer is written as; every other string is a key by itself. The value of a
key, from whatever value the key comes, stands for the same key. -/
theorem keys_in_one_spelling :
    (∀ (bytes : Bytes) (i : Int64),
      (ArrayKey.ofBytes bytes = .int i ↔ IsDecimalForm bytes i.toInt) ∧
      (IsDecimalForm bytes i.toInt ↔ bytes = Utf8.ofString (intText i.toInt))) ∧
    (∀ bytes other : Bytes, ArrayKey.ofBytes bytes = .string other ↔
      other = bytes ∧ ∀ i : Int64, ¬ IsDecimalForm bytes i.toInt) ∧
    ∀ (value : Value) (key : ArrayKey), value.toKey? = some key → key.toValue.toKey? = some key :=
  ⟨fun _ _ => ⟨ofBytes_eq_int_iff, isDecimalForm_iff⟩, fun _ _ => ofBytes_eq_string_iff,
    fun _ _ stands => Value.canonical_of_toKey? stands⟩

/-- The text of the least integer is the key of that integer. The number before it and a
negative zero are keys by themselves, and the first of them stays so. -/
theorem keys_at_least_integer :
    let before : Bytes := Utf8.ofString "-9223372036854775809"
    ArrayKey.ofBytes (Utf8.ofString "-9223372036854775808") = .int Int64.minValue ∧
    (Value.string before).toKey? = some (.string before) ∧
    (ArrayKey.string before).toValue.toKey? = some (.string before) ∧
    ∀ i : Int64, ¬ IsDecimalForm (Utf8.ofString "-0") i.toInt := by
  intro before
  obtain ⟨integers, strings, stable⟩ := keys_in_one_spelling
  have least : Utf8.ofString "-9223372036854775808" =
      Utf8.ofString (intText Int64.minValue.toInt) := by decide +kernel
  have stands : (Value.string before).toKey? = some (.string before) := by decide +kernel
  have itself : ArrayKey.ofBytes (Utf8.ofString "-0") = .string (Utf8.ofString "-0") := by
    decide +kernel
  exact ⟨(integers _ _).1.mpr ((integers _ _).2.mpr least), stands, stable _ _ stands,
    ((strings _ _).mp itself).2⟩

end StaticReflection
