import Mathlib.Data.List.Basic
import Mathlib.Tactic.SplitIfs
import StaticReflection.Proofs.Values.DecimalDigits

namespace StaticReflection.Utf8

/-! What is decoded is what was encoded. The other way, bytes are encoded again from what
they are decoded to, unless a replacement stands in it. -/

def IsContinuation (byte : UInt8) : Prop :=
  128 ≤ byte.toNat ∧ byte.toNat ≤ 191

theorem isContinuation_iff {byte : UInt8} :
    IsContinuation byte ↔ 0x80 ≤ byte ∧ byte ≤ 0xbf := by
  rw [UInt8.le_iff_toNat_le, UInt8.le_iff_toNat_le]
  rfl

/-- The bytes of one character, and its code. A character has no longer form than it needs,
and surrogates have none. -/
inductive Sequence : List UInt8 → Nat → Prop
  | one {a : UInt8} : a.toNat < 128 → Sequence [a] a.toNat
  | two {a b : UInt8} : 194 ≤ a.toNat → a.toNat ≤ 223 → IsContinuation b →
      Sequence [a, b] (a.toNat % 32 * 64 + b.toNat % 64)
  | three {a b c : UInt8} : 224 ≤ a.toNat → a.toNat ≤ 239 → IsContinuation b →
      (a.toNat = 224 → 160 ≤ b.toNat) → (a.toNat = 237 → b.toNat ≤ 159) → IsContinuation c →
      Sequence [a, b, c] ((a.toNat % 16 * 64 + b.toNat % 64) * 64 + c.toNat % 64)
  | four {a b c d : UInt8} : 240 ≤ a.toNat → a.toNat ≤ 244 → IsContinuation b →
      (a.toNat = 240 → 144 ≤ b.toNat) → (a.toNat = 244 → b.toNat ≤ 143) → IsContinuation c →
      IsContinuation d →
      Sequence [a, b, c, d]
        (((a.toNat % 8 * 64 + b.toNat % 64) * 64 + c.toNat % 64) * 64 + d.toNat % 64)

theorem Sequence.valid {bytes : List UInt8} {code : Nat} (sequence : Sequence bytes code) :
    code.isValidChar := by
  unfold Nat.isValidChar
  cases sequence with
  | one => omega
  | two | three | four =>
      simp only [IsContinuation] at *
      omega

theorem Sequence.encode {bytes : List UInt8} {code : Nat} (sequence : Sequence bytes code) :
    String.utf8EncodeChar (Char.ofNat code) = bytes := by
  have number : (Char.ofNat code).val.toNat = code := by
    rw [Char.ofNat, dif_pos sequence.valid]
    rfl
  unfold String.utf8EncodeChar
  simp only [number]
  cases sequence with
  | one small =>
    rw [if_pos (by omega)]
    simp
  | two least greatest second =>
    simp only [IsContinuation] at *
    rw [if_neg (by omega), if_pos (by omega)]
    simp only [List.cons.injEq, ← UInt8.toNat_inj, UInt8.toNat_ofNat', and_true]
    omega
  | three =>
    simp only [IsContinuation] at *
    rw [if_neg (by omega), if_neg (by omega), if_pos (by omega)]
    simp only [List.cons.injEq, ← UInt8.toNat_inj, UInt8.toNat_ofNat', and_true]
    omega
  | four =>
    simp only [IsContinuation] at *
    rw [if_neg (by omega), if_neg (by omega), if_neg (by omega)]
    simp only [List.cons.injEq, ← UInt8.toNat_inj, UInt8.toNat_ofNat', and_true]
    omega

theorem sequence_utf8EncodeChar (c : Char) : Sequence (String.utf8EncodeChar c) c.toNat := by
  have valid : c.val.toNat < 55296 ∨ 57343 < c.val.toNat ∧ c.val.toNat < 1114112 := c.valid
  have byte : ∀ value < 256, (UInt8.ofNat value).toNat = value :=
    fun _ small => UInt8.toNat_ofNat_of_lt' small
  unfold String.utf8EncodeChar Char.toNat
  dsimp only
  generalize c.val.toNat = code at valid ⊢
  split
  · have first := byte code (by omega)
    refine (congrArg (Sequence _) first).mp (.one ?_)
    omega
  have last := byte (code % 64 + 128) (by omega)
  split
  · have first := byte (code / 64 % 32 + 192) (by omega)
    refine (congrArg (Sequence _) ?_).mp (.two ?_ ?_ ⟨?_, ?_⟩) <;> omega
  have third := byte (code / 64 % 64 + 128) (by omega)
  split
  · have first := byte (code / 4096 % 16 + 224) (by omega)
    refine (congrArg (Sequence _) ?_).mp (.three ?_ ?_ ⟨?_, ?_⟩ ?_ ?_ ⟨?_, ?_⟩) <;> omega
  · have first := byte (code / 262144 % 8 + 240) (by omega)
    have second := byte (code / 4096 % 64 + 128) (by omega)
    refine (congrArg (Sequence _) ?_).mp
      (.four ?_ ?_ ⟨?_, ?_⟩ ?_ ?_ ⟨?_, ?_⟩ ⟨?_, ?_⟩) <;> omega

/-- What the bounds of the second byte are, by the length of the sequence. -/
theorem secondByte_spec {lead low high : UInt8} {more : Nat}
    (begins : secondByte lead = some (low, high, more)) :
    more = 0 ∧ 194 ≤ lead.toNat ∧ lead.toNat ≤ 223 ∧ low.toNat = 128 ∧ high.toNat = 191 ∨
    more = 1 ∧ 224 ≤ lead.toNat ∧ lead.toNat ≤ 239 ∧
      (lead.toNat = 224 ∧ low.toNat = 160 ∨ lead.toNat ≠ 224 ∧ low.toNat = 128) ∧
      (lead.toNat = 237 ∧ high.toNat = 159 ∨ lead.toNat ≠ 237 ∧ high.toNat = 191) ∨
    more = 2 ∧ 240 ≤ lead.toNat ∧ lead.toNat ≤ 244 ∧
      (lead.toNat = 240 ∧ low.toNat = 144 ∨ lead.toNat ≠ 240 ∧ low.toNat = 128) ∧
      (lead.toNat = 244 ∧ high.toNat = 143 ∨ lead.toNat ≠ 244 ∧ high.toNat = 191) := by
  unfold secondByte at begins
  simp only [UInt8.le_iff_toNat_le, ← UInt8.toNat_inj, UInt8.reduceToNat] at begins
  split_ifs at begins <;> cases begins <;>
    simp only [UInt8.reduceToNat, true_and, and_true] <;> omega

theorem exists_secondByte {lead : UInt8} (least : 194 ≤ lead.toNat)
    (greatest : lead.toNat ≤ 244) : ∃ low high more, secondByte lead = some (low, high, more) := by
  have begun : (secondByte lead).isSome = true := by
    unfold secondByte
    simp only [UInt8.le_iff_toNat_le, ← UInt8.toNat_inj, UInt8.reduceToNat]
    grind
  obtain ⟨⟨low, high, more⟩, begins⟩ := Option.isSome_iff_exists.mp begun
  exact ⟨low, high, more, begins⟩

theorem readTail_cons {byte : UInt8} (continues : IsContinuation byte) (code read more : Nat)
    (bytes : List UInt8) : readTail code read (more + 1) (byte :: bytes) =
      readTail (code * 64 + byte.toNat % 64) (read + 1) more bytes :=
  if_pos (isContinuation_iff.mp continues)

theorem firstChar_of_second {lead second low high : UInt8} {more : Nat}
    (begins : secondByte lead = some (low, high, more)) (least : low.toNat ≤ second.toNat)
    (greatest : second.toNat ≤ high.toNat) (bytes : List UInt8) :
    firstChar lead (second :: bytes) =
      readTail (leadBits lead more * 64 + second.toNat % 64) 1 more bytes := by
  have notAscii : ¬ lead < 0x80 := by
    rw [UInt8.lt_iff_toNat_lt]
    rcases secondByte_spec begins with bounds | bounds | bounds <;>
      simp only [UInt8.reduceToNat] <;> omega
  unfold firstChar
  simp only [if_neg notAscii, begins]
  exact if_pos ⟨UInt8.le_iff_toNat_le.mpr least, UInt8.le_iff_toNat_le.mpr greatest⟩

theorem Sequence.firstChar_append {lead : UInt8} {others : List UInt8} {code : Nat}
    (sequence : Sequence (lead :: others) code) (rest : List UInt8) :
    firstChar lead (others ++ rest) = (Char.ofNat code, others.length) := by
  cases sequence with
  | one small =>
      exact if_pos (UInt8.lt_iff_toNat_lt.mpr small)
  | two least greatest second =>
      obtain ⟨low, high, more, begins⟩ := exists_secondByte least (by omega)
      unfold IsContinuation at second
      obtain ⟨rfl, bounds⟩ | bounds | bounds := secondByte_spec begins
      · exact firstChar_of_second begins (by omega) (by omega) _
      · omega
      · omega
  | three least greatest second shortest scalar third =>
      have starts : 194 ≤ lead.toNat := by omega
      obtain ⟨low, high, more, begins⟩ := exists_secondByte starts (by omega)
      unfold IsContinuation at second
      obtain bounds | ⟨rfl, bounds⟩ | bounds := secondByte_spec begins
      · omega
      · exact (firstChar_of_second begins (by omega) (by omega) _).trans
          (readTail_cons third _ _ _ _)
      · omega
  | four least greatest second shortest valid third fourth =>
      have starts : 194 ≤ lead.toNat := by omega
      obtain ⟨low, high, more, begins⟩ := exists_secondByte starts (by omega)
      unfold IsContinuation at second
      obtain bounds | bounds | ⟨rfl, bounds⟩ := secondByte_spec begins
      · omega
      · omega
      · exact (firstChar_of_second begins (by omega) (by omega) _).trans
          ((readTail_cons third _ _ _ _).trans (readTail_cons fourth _ _ _ _))

theorem readTail_spec (code read more : Nat) (bytes : List UInt8) :
    (readTail code read more bytes).1 = replacement ∨
      ∃ tail rest, bytes = tail ++ rest ∧ tail.length = more ∧
        ∀ byte ∈ tail, IsContinuation byte := by
  induction more generalizing code read bytes with
  | zero => exact .inr ⟨[], bytes, rfl, rfl, nofun⟩
  | succ more ih =>
      cases bytes with
      | nil => exact .inl rfl
      | cons byte bytes =>
          rw [readTail]
          split
          · rename_i continues
            refine (ih _ _ bytes).imp_right ?_
            rintro ⟨tail, rest, rfl, rfl, others⟩
            exact ⟨byte :: tail, rest, rfl, rfl, List.forall_mem_cons.mpr
              ⟨isContinuation_iff.mpr continues, others⟩⟩
          · exact .inl rfl

theorem firstChar_spec (lead : UInt8) (rest : List UInt8) :
    (firstChar lead rest).1 = replacement ∨ ∃ others more code,
      rest = others ++ more ∧ Sequence (lead :: others) code := by
  by_cases small : lead.toNat < 128
  · exact .inr ⟨[], rest, _, rfl, .one small⟩
  have notAscii : ¬ lead < 0x80 := UInt8.lt_iff_toNat_lt.not.mpr small
  match begins : secondByte lead, rest with
  | none, rest =>
      unfold firstChar
      simp [notAscii, begins]
  | some (low, high, more), [] =>
      unfold firstChar
      simp [notAscii]
  | some (low, high, more), second :: bytes =>
      by_cases within : low ≤ second ∧ second ≤ high
      · have bounds := within
        rw [UInt8.le_iff_toNat_le, UInt8.le_iff_toNat_le] at bounds
        rw [firstChar_of_second begins bounds.1 bounds.2]
        refine (readTail_spec _ _ _ bytes).imp_right ?_
        rintro ⟨tail, after, rfl, length, continues⟩
        refine ⟨second :: tail, after, ?_⟩
        rcases secondByte_spec begins with
          ⟨rfl, least, greatest, _⟩ | ⟨rfl, least, greatest, _⟩ | ⟨rfl, least, greatest, _⟩
        · obtain rfl := List.length_eq_zero_iff.mp length
          exact ⟨_, rfl, .two least greatest ⟨by omega, by omega⟩⟩
        · obtain ⟨third, rfl⟩ := List.length_eq_one_iff.mp length
          exact ⟨_, rfl, .three least greatest ⟨by omega, by omega⟩ (by omega) (by omega)
            (continues third (by simp))⟩
        · obtain ⟨third, fourth, rfl⟩ := List.length_eq_two.mp length
          exact ⟨_, rfl, .four least greatest ⟨by omega, by omega⟩ (by omega) (by omega)
            (continues third (by simp)) (continues fourth (by simp))⟩
      · unfold firstChar
        simp [notAscii, begins, within]

theorem decodeOnto_eq (decoded : List Char) (skip : Nat) (bytes : List UInt8) :
    decodeOnto decoded skip bytes = decoded.reverse ++ decodeOnto [] skip bytes := by
  induction bytes generalizing decoded skip with
  | nil => simp [decodeOnto]
  | cons byte bytes ih =>
      cases skip with
      | zero =>
          rw [decodeOnto, decodeOnto]
          dsimp only
          rw [ih, ih [_]]
          simp
      | succ skip => exact ih decoded skip

theorem decodeOnto_skip (decoded : List Char) (skipped bytes : List UInt8) :
    decodeOnto decoded skipped.length (skipped ++ bytes) = decodeOnto decoded 0 bytes := by
  induction skipped with
  | nil => rfl
  | cons byte skipped ih => exact ih

theorem decode_cons (lead : UInt8) (bytes : List UInt8) :
    decode (lead :: bytes) = (firstChar lead bytes).1 ::
      decodeOnto [] (firstChar lead bytes).2 bytes :=
  decodeOnto_eq [_] _ bytes

theorem decode_sequence {lead : UInt8} {others : List UInt8} {code : Nat}
    (sequence : Sequence (lead :: others) code) (bytes : List UInt8) :
    decode (lead :: (others ++ bytes)) = Char.ofNat code :: decode bytes := by
  rw [decode_cons, sequence.firstChar_append, decodeOnto_skip]
  rfl

theorem decode_encode (text : List Char) : decode (encode text) = text := by
  induction text with
  | nil => rfl
  | cons c text ih =>
      have sequence := sequence_utf8EncodeChar c
      unfold encode at ih ⊢
      rw [List.flatMap_cons]
      cases bytes : String.utf8EncodeChar c with
      | nil => exact absurd bytes String.utf8EncodeChar_ne_nil
      | cons lead others =>
          rw [bytes] at sequence
          rw [List.cons_append, decode_sequence sequence, Char.ofNat_toNat, ih]

/-- A text without replacements is decoded from its own bytes only. -/
theorem encode_decode {bytes : List UInt8} (whole : replacement ∉ decode bytes) :
    encode (decode bytes) = bytes := by
  induction size : bytes.length using Nat.strongRecOn generalizing bytes with
  | ind length ih =>
      cases bytes with
      | nil => rfl
      | cons lead rest =>
          rcases firstChar_spec lead rest with replaced | ⟨others, more, code, rfl, sequence⟩
          · rw [decode_cons, replaced] at whole
            exact absurd List.mem_cons_self whole
          · rw [decode_sequence sequence] at whole ⊢
            have shorter : more.length < length := by
              rw [← size, List.length_cons, List.length_append]
              omega
            have restored := ih _ shorter (fun among => whole (List.mem_cons_of_mem _ among)) rfl
            unfold encode at restored ⊢
            rw [List.flatMap_cons, restored, sequence.encode]
            rfl

theorem decodeString_ofString (text : String) : decodeString (ofString text) = text := by
  obtain ⟨characters, rfl⟩ : ∃ characters, text = String.ofList characters :=
    ⟨text.toList, String.ofList_toList.symm⟩
  rw [ofString_ofList, decodeString, decode_encode]

theorem ofString_decodeString {bytes : List UInt8}
    (whole : replacement ∉ (decodeString bytes).toList) :
    ofString (decodeString bytes) = bytes := by
  unfold decodeString at whole ⊢
  rw [String.toList_ofList] at whole
  rw [ofString_ofList, encode_decode whole]

end StaticReflection.Utf8
