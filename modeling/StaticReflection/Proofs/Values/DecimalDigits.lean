import StaticReflection.Value.KeyedArray

namespace StaticReflection

/-! The decimal text of an integer, read back. -/

theorem isDigit_of_mem_toDigits {value : Nat} : ∀ c ∈ Nat.toDigits 10 value, c.isDigit = true :=
  fun _ among => Nat.isDigit_of_mem_toDigits (by decide) (by decide) among

theorem head?_toDigits {value : Nat} (positive : 0 < value) :
    (Nat.toDigits 10 value).head? ≠ some '0' := by
  induction value using Nat.strongRecOn with
  | ind value ih =>
      by_cases small : value < 10
      · rw [Nat.toDigits_of_lt_base small]
        have checked : ∀ d < 10, 0 < d → Nat.digitChar d ≠ '0' := by decide
        simpa using checked value small positive
      · have fewer := ih (value / 10) (by omega) (by omega)
        rw [Nat.toDigits_of_base_le (by decide) (by omega), List.head?_append]
        cases head : (Nat.toDigits 10 (value / 10)).head? with
        | none => simp at head
        | some c => simpa [head] using fewer

theorem readDigits?_toDigits (value : Nat) :
    readDigits? 10 (Nat.toDigits 10 value) = some value := by
  have single : ∀ d < 10, digitOf? 10 (Nat.digitChar d) = some d := by decide
  induction value using Nat.strongRecOn with
  | ind value ih =>
      by_cases small : value < 10
      · rw [Nat.toDigits_of_lt_base small]
        simp [readDigits?, single value small]
      · have fewer := ih (value / 10) (by omega)
        rw [Nat.toDigits_of_base_le (by decide) (by omega)]
        unfold readDigits? at fewer ⊢
        rw [List.foldlM_append, fewer]
        simp [single (value % 10) (Nat.mod_lt _ (by decide))]
        omega

theorem head?_toDigits_ne (value : Nat) {c : Char} (other : c.isDigit = false) :
    (Nat.toDigits 10 value).head? ≠ some c := by
  intro leading
  rw [isDigit_of_mem_toDigits c (List.mem_of_mem_head? leading)] at other
  cases other

theorem takeSign_toDigits (value : Nat) :
    takeSign (Nat.toDigits 10 value) = (false, Nat.toDigits 10 value) := by
  unfold takeSign
  split
  · rename_i written
    exact absurd (by rw [written]; rfl) (head?_toDigits_ne value (c := '-') rfl)
  · rename_i written
    exact absurd (by rw [written]; rfl) (head?_toDigits_ne value (c := '+') rfl)
  · rfl

theorem toInt64?_eq (value : Int) : toInt64? value =
    if -9223372036854775808 ≤ value ∧ value < 9223372036854775808 then some (.ofInt value)
    else none := by
  have power : Int.pow 2 63 = 9223372036854775808 := by decide
  unfold toInt64? int64Min int64Max
  simp only [power, Int.le_sub_one_iff]

theorem toInt64?_eq_some_iff {value : Int} {i : Int64} :
    toInt64? value = some i ↔ i.toInt = value := by
  rw [toInt64?_eq]
  constructor
  · intro fits
    split at fits
    · rename_i inside
      obtain rfl := Option.some.inj fits
      exact Int64.toInt_ofInt_of_le inside.1 inside.2
    · cases fits
  · rintro rfl
    rw [if_pos ⟨i.le_toInt, i.toInt_lt⟩, Int64.ofInt_toInt]

theorem toInt64?_toInt (i : Int64) : toInt64? i.toInt = some i :=
  toInt64?_eq_some_iff.mpr rfl

/-- The characters of an integer's text. -/
theorem toList_intText (i : Int) :
    (intText i).toList = (if i < 0 then ['-'] else []) ++ Nat.toDigits 10 i.natAbs :=
  String.toList_ofList

theorem readInt64?_intText (i : Int64) : readInt64? 10 (intText i.toInt).toList = some i := by
  have digits : Nat.toDigits 10 i.toInt.natAbs ≠ [] := Nat.toDigits_ne_nil
  rw [toList_intText]
  unfold readInt64?
  by_cases negative : i.toInt < 0
  · have magnitude : -(i.toInt.natAbs : Int) = i.toInt := by omega
    have sign : takeSign ('-' :: Nat.toDigits 10 i.toInt.natAbs) =
        (true, Nat.toDigits 10 i.toInt.natAbs) := rfl
    simp only [negative, if_true, List.singleton_append, sign, digits, if_false,
      readDigits?_toDigits, Option.bind_eq_bind, Option.bind_some, magnitude, toInt64?_toInt]
  · have magnitude : (i.toInt.natAbs : Int) = i.toInt := by omega
    simp only [negative, if_false, List.nil_append, takeSign_toDigits, digits,
      readDigits?_toDigits, Option.bind_eq_bind, Option.bind_some, Bool.false_eq_true, magnitude,
      toInt64?_toInt]

/-! The bytes of a string. -/

private theorem toList_loop (bytes : ByteArray) (position : Nat) (read : List UInt8) :
    ByteArray.toList.loop bytes position read =
      read.reverse ++ bytes.data.toList.drop position := by
  induction position, read using ByteArray.toList.loop.induct bytes with
  | case1 position read more ih =>
      have next : bytes.data.toList.drop position =
          bytes.get! position :: bytes.data.toList.drop (position + 1) := by
        rw [List.drop_eq_getElem_cons (by simpa using more)]
        simp [ByteArray.get!, more]
      rw [ByteArray.toList.loop, if_pos more, ih, next]
      simp
  | case2 position read done =>
      rw [ByteArray.toList.loop, if_neg done, List.drop_of_length_le (by simpa using done),
        List.append_nil]

theorem Utf8.ofString_eq (text : String) : Utf8.ofString text = text.toByteArray.data.toList := by
  unfold Utf8.ofString ByteArray.toList
  rw [toList_loop]
  rfl

theorem Utf8.ofString_ofList (text : List Char) :
    Utf8.ofString (String.ofList text) = Utf8.encode text := by
  rw [Utf8.ofString_eq, String.toByteArray_ofList, List.utf8Encode]
  exact List.toList_data_toByteArray

/-- ASCII characters are bytes of the same numbers. -/
theorem byteChars_encode {text : List Char} (ascii : ∀ c ∈ text, c.toNat < 128) :
    byteChars (Utf8.encode text) = text := by
  induction text with
  | nil => rfl
  | cons c rest ih =>
      have small : c.toNat < 128 := ascii c (by simp)
      have single : String.utf8EncodeChar c = [c.val.toUInt8] := by
        apply String.utf8EncodeChar_eq_singleton
        rw [Char.utf8Size_eq_one_iff]
        exact UInt32.le_iff_toNat_le.mpr (Nat.le_of_lt_succ small)
      have same : Char.ofNat c.val.toUInt8.toNat = c := by
        have number : c.val.toUInt8.toNat = c.toNat := by
          rw [UInt32.toNat_toUInt8]
          exact Nat.mod_eq_of_lt (Nat.lt_trans small (by decide))
        rw [number, Char.ofNat_toNat]
      have others := ih fun other among => ascii other (by simp [among])
      unfold byteChars Utf8.encode at others ⊢
      rw [List.flatMap_cons, single, List.map_append, others, List.map_singleton, same]
      rfl

theorem byteChars_intText (i : Int) :
    byteChars (Utf8.ofString (intText i)) = (intText i).toList := by
  rw [toList_intText, intText, Utf8.ofString_ofList]
  refine byteChars_encode fun c among => ?_
  rcases List.mem_append.mp among with sign | digit
  · split at sign
    · cases List.mem_singleton.mp sign
      decide
    · cases sign
  · have bounds := isDigit_of_mem_toDigits c digit
    simp only [Char.isDigit, Bool.and_eq_true, decide_eq_true_eq] at bounds
    have greatest : c.toNat ≤ 57 := UInt32.le_iff_toNat_le.mp bounds.2
    omega

theorem canonicalInt?_intText (i : Int64) :
    canonicalInt? (Utf8.ofString (intText i.toInt)) = some i := by
  have digits : Nat.toDigits 10 i.toInt.natAbs ≠ [] := Nat.toDigits_ne_nil
  have numeric : (Nat.toDigits 10 i.toInt.natAbs).all Char.isDigit = true :=
    List.all_eq_true.mpr isDigit_of_mem_toDigits
  have read := readInt64?_intText i
  unfold canonicalInt?
  rw [byteChars_intText]
  rw [toList_intText] at read ⊢
  by_cases negative : i.toInt < 0
  · have leading : (Nat.toDigits 10 i.toInt.natAbs).head? ≠ some '0' :=
      head?_toDigits (by omega)
    have nonzero : Nat.toDigits 10 i.toInt.natAbs ≠ ['0'] := fun zero => leading (by rw [zero]; rfl)
    simp only [negative, if_true, List.singleton_append] at read ⊢
    simp [digits, leading, numeric, nonzero, read]
  · have leading : Nat.toDigits 10 i.toInt.natAbs = ['0'] ∨
        (Nat.toDigits 10 i.toInt.natAbs).head? ≠ some '0' := by
      cases i.toInt.natAbs with
      | zero => exact .inl rfl
      | succ value => exact .inr (head?_toDigits (Nat.succ_pos value))
    have unsigned := head?_toDigits_ne i.toInt.natAbs (c := '-') rfl
    have nonnegative : Nat.toDigits 10 i.toInt.natAbs ≠ ['-', '0'] :=
      fun zero => unsigned (by rw [zero]; rfl)
    simp only [negative, if_false, List.nil_append] at read ⊢
    rw [if_neg unsigned, if_pos ⟨digits, numeric, leading, nonnegative⟩, read]

end StaticReflection
