import Mathlib.Data.Int.ModEq
import StaticReflection.Proofs.Values.DecimalDigits
import StaticReflection.Proofs.Values.Doubles
import StaticReflection.Value.Operator

namespace StaticReflection

/-! Operators on integers are exact as long as 64 bits hold the result. Beyond them sums,
products, quotients and powers go on with doubles; remainders and shifts never leave them. The
powers of minus one, zero and one always fit, but exponents of more than 32 bits give doubles
for them too. -/

/-- The outcome of an operator that gives an integer with a property if 64 bits hold one, and
a double if they hold none. -/
inductive GivesIfFits (P : Int64 → Prop) : Except Fault Value → Prop
  | int {i : Int64} (meets : P i) : GivesIfFits P (.ok (.int i))
  | float {x : Float} (outside : ∀ i, ¬ P i) : GivesIfFits P (.ok (.float x))

namespace GivesIfFits

variable {P Q : Int64 → Prop} {outcome : Except Fault Value}

theorem of_iff (gives : GivesIfFits P outcome) (same : ∀ i, P i ↔ Q i) :
    GivesIfFits Q outcome := by
  obtain rfl : P = Q := funext fun i => propext (same i)
  exact gives

theorem ofOption {found : Option Int64} {rounded : Float} {exact : Int}
    (fits : ∀ i, found = some i ↔ i.toInt = exact) :
    GivesIfFits (·.toInt = exact)
      (.ok ((found.map Number.int).getD (.float rounded)).toValue) := by
  cases found with
  | none => exact .float fun i same => nomatch (fits i).mpr same
  | some i => exact .int ((fits i).mp rfl)

theorem ofExact (exact : Int) (rounded : Float) :
    GivesIfFits (·.toInt = exact) (.ok (Number.ofExact exact rounded).toValue) :=
  ofOption fun _ => toInt64?_eq_some_iff

end GivesIfFits

section Operators

variable (a b : Int64)

theorem gives_sum :
    GivesIfFits (·.toInt = a.toInt + b.toInt) (Value.binary .plus (.int a) (.int b)) :=
  .ofExact _ _

theorem gives_difference :
    GivesIfFits (·.toInt = a.toInt - b.toInt) (Value.binary .minus (.int a) (.int b)) :=
  .ofExact _ _

theorem gives_product :
    GivesIfFits (·.toInt = a.toInt * b.toInt) (Value.binary .asterisk (.int a) (.int b)) :=
  .ofExact _ _

/-! Division. -/

theorem toInt_eq_zero_iff {i : Int64} : i.toInt = 0 ↔ i = 0 :=
  Int64.toInt_inj (y := 0)

theorem divide_int : Value.binary .slash (.int a) (.int b) =
    if b = 0 then .error .divisionByZero
    else .ok ((Number.int a).div (.int b)).toValue := by
  have zero : ((Number.int b).toFloat == 0.0) = decide (b = 0) :=
    (Binary64.ofInt_beq_zero b.toInt).trans (decide_eq_decide.mpr toInt_eq_zero_iff)
  change (if ((Number.int b).toFloat == 0.0) = true then _ else _) = _
  rw [zero]
  by_cases zero : b = 0
  · rw [if_pos zero, if_pos (decide_eq_true zero)]
    rfl
  · rw [if_neg zero, if_neg (by simpa using zero)]
    rfl

theorem gives_quotient (nonzero : b ≠ 0) :
    GivesIfFits (fun q => a.toInt = q.toInt * b.toInt) (Value.binary .slash (.int a) (.int b)) := by
  have divisor : b.toInt ≠ 0 := mt toInt_eq_zero_iff.mp nonzero
  rw [divide_int, if_neg nonzero]
  unfold Number.div
  dsimp only
  split
  · rename_i even
    refine (GivesIfFits.ofExact _ _).of_iff fun q => ?_
    have dvd := Int.dvd_of_tmod_eq_zero even
    rw [eq_comm, Int.tdiv_eq_iff_eq_mul_left divisor dvd]
  · rename_i odd
    refine .float fun q exact => odd ?_
    rw [exact, Int.mul_tmod_left]

theorem modulo_int : Value.binary .percent (.int a) (.int b) =
    if b = 0 then .error .moduloByZero
    else .ok (.int (Int64.ofInt (a.toInt.tmod b.toInt))) := by
  change (if b = 0 then _ else _) = _
  split <;> rfl

theorem toInt_remainder (nonzero : b ≠ 0) :
    (Int64.ofInt (a.toInt.tmod b.toInt)).toInt = a.toInt.tmod b.toInt := by
  have divisor : b.toInt ≠ 0 := mt toInt_eq_zero_iff.mp nonzero
  have small : (a.toInt.tmod b.toInt).natAbs < b.toInt.natAbs := by
    rw [Int.natAbs_tmod]
    exact Nat.mod_lt _ (by omega)
  have least := b.le_toInt
  have most := b.toInt_lt
  exact Int64.toInt_ofInt_of_le (by omega) (by omega)

/-! Shifts. -/

theorem shift_int (op : TokenKind) : Value.shift op (.int a) (.int b) =
    if b < 0 then .error .negativeShift
    else .ok (.int (Value.shiftInt op a b.toInt.toNat)) := by
  change (if b < 0 then _ else _) = _
  split <;> rfl

theorem shiftLeft_modEq (value : Int64) (amount : Nat) :
    (Value.shiftInt .lessThanLessThan value amount).toInt ≡ value.toInt * 2 ^ amount
      [ZMOD 2 ^ 64] := by
  unfold Value.shiftInt
  rw [if_pos rfl]
  split
  · rename_i far
    have factor : (2 : Int) ^ 64 ∣ 2 ^ amount := pow_dvd_pow 2 far
    exact (Int.modEq_zero_iff_dvd.mpr (Dvd.dvd.mul_left factor _)).symm
  · rw [Int64.toInt_ofInt]
    exact Int.bmod_emod

theorem toInt_shiftRight (value : Int64) (amount : Nat) :
    (Value.shiftInt .greaterThanGreaterThan value amount).toInt =
      value.toInt.fdiv (2 ^ amount) := by
  have least := value.le_toInt
  have most := value.toInt_lt
  have positive : (0 : Int) < 2 ^ amount := Int.pow_pos (by decide)
  have power : Int.pow 2 amount = 2 ^ amount := rfl
  rw [Int.fdiv_eq_ediv_of_nonneg _ (Int.le_of_lt positive)]
  unfold Value.shiftInt
  rw [if_neg (by decide), power]
  split
  · rename_i far
    have beyond : (2 : Int) ^ 64 ≤ 2 ^ amount := Int.le_of_dvd positive (pow_dvd_pow 2 far)
    split
    · rename_i negative
      rw [Int64.lt_iff_toInt_lt] at negative
      exact (Int.ediv_eq_neg_one_of_neg_of_le negative (by omega)).symm
    · rename_i natural
      rw [Int64.lt_iff_toInt_lt] at natural
      exact (Int.ediv_eq_zero_of_lt (Int.not_lt.mp natural) (by omega)).symm
  · refine Int64.toInt_ofInt_of_le ?_ ?_
    · exact Int.le_ediv_of_mul_le positive (by omega)
    · exact Int.ediv_lt_of_lt_mul positive (by omega)

/-- Operators on integers are exact up to the limits of 64 bits, and there is an outcome for all
operands. -/
theorem integer_operators_exact :
    GivesIfFits (·.toInt = a.toInt + b.toInt) (Value.binary .plus (.int a) (.int b)) ∧
    GivesIfFits (·.toInt = a.toInt - b.toInt) (Value.binary .minus (.int a) (.int b)) ∧
    GivesIfFits (·.toInt = a.toInt * b.toInt) (Value.binary .asterisk (.int a) (.int b)) ∧
    (if b = 0 then
      Value.binary .slash (.int a) (.int b) = .error .divisionByZero ∧
      Value.binary .percent (.int a) (.int b) = .error .moduloByZero
    else
      GivesIfFits (fun q => a.toInt = q.toInt * b.toInt) (Value.binary .slash (.int a) (.int b)) ∧
      ∃ r, Value.binary .percent (.int a) (.int b) = .ok (.int r) ∧
        r.toInt = a.toInt.tmod b.toInt) ∧
    (if b < 0 then
      Value.binary .lessThanLessThan (.int a) (.int b) = .error .negativeShift ∧
      Value.binary .greaterThanGreaterThan (.int a) (.int b) = .error .negativeShift
    else
      (∃ i, Value.binary .lessThanLessThan (.int a) (.int b) = .ok (.int i) ∧
        i.toInt ≡ a.toInt * 2 ^ b.toInt.toNat [ZMOD 2 ^ 64]) ∧
      ∃ i, Value.binary .greaterThanGreaterThan (.int a) (.int b) = .ok (.int i) ∧
        i.toInt = a.toInt.fdiv (2 ^ b.toInt.toNat)) := by
  refine ⟨gives_sum a b, gives_difference a b, gives_product a b, ?_, ?_⟩
  · split
    · rename_i zero
      rw [divide_int, modulo_int, if_pos zero, if_pos zero]
      exact ⟨rfl, rfl⟩
    · rename_i nonzero
      rw [modulo_int, if_neg nonzero]
      exact ⟨gives_quotient a b nonzero, _, rfl, toInt_remainder a b nonzero⟩
  · simp only [Value.binary, shift_int]
    split
    · exact ⟨rfl, rfl⟩
    · exact ⟨⟨_, rfl, shiftLeft_modEq _ _⟩, _, rfl, toInt_shiftRight _ _⟩

example : Value.binary .percent (.int Int64.minValue) (.int (-1)) = .ok (.int 0) := by rfl

/-! Powers. -/

/-- For a base of at most one only the parity of an exponent that is not zero counts. -/
theorem pow_unit {base : Int} (unit : base.natAbs ≤ 1) (exponent : Nat) :
    base ^ (if exponent = 0 then 0 else 2 - exponent % 2) = base ^ exponent := by
  split
  · rename_i zero
    rw [zero]
  · rename_i nonzero
    obtain rfl | rfl | rfl : base = 0 ∨ base = 1 ∨ base = -1 := by omega
    · rw [zero_pow (by omega), zero_pow nonzero]
    · rw [one_pow, one_pow]
    · rw [neg_one_pow_eq_pow_mod_two, neg_one_pow_eq_pow_mod_two exponent]
      congr 1
      omega

theorem natAbs_pow_unit {base : Int} (unit : base.natAbs ≤ 1) (exponent : Nat) :
    (base ^ exponent).natAbs ≤ 1 := by
  rw [Int.natAbs_pow]
  exact (Nat.pow_le_pow_left unit exponent).trans_eq (Nat.one_pow exponent)

theorem natAbs_pow_beyond {base : Int} (large : ¬ base.natAbs ≤ 1) {exponent : Nat}
    (far : 63 < exponent) : 2 ^ 64 ≤ (base ^ exponent).natAbs := by
  rw [Int.natAbs_pow]
  calc 2 ^ 64 ≤ 2 ^ exponent := Nat.pow_le_pow_right (by decide) far
    _ ≤ base.natAbs ^ exponent := Nat.pow_le_pow_left (by omega) exponent

theorem pow_ne_of_beyond {base : Int} (large : ¬ base.natAbs ≤ 1) {exponent : Nat}
    (far : 63 < exponent) (i : Int64) : i.toInt ≠ base ^ exponent := by
  intro same
  have beyond := natAbs_pow_beyond large far
  have least := i.le_toInt
  have most := i.toInt_lt
  omega

/-- The power is found whenever it fits. -/
theorem intPower?_eq_some_iff {base : Int} {exponent : Nat} {i : Int64} :
    intPower? base exponent = some i ↔ i.toInt = base ^ exponent := by
  unfold intPower?
  split
  · rename_i unit
    rw [← pow_unit unit]
    exact toInt64?_eq_some_iff
  split
  · rename_i large far
    exact iff_of_false nofun (pow_ne_of_beyond large far i)
  · exact toInt64?_eq_some_iff

theorem power_int (natural : 0 ≤ b) : Value.binary .asteriskAsterisk (.int a) (.int b) =
    let rounded := Float.pow (Binary64.ofInt a.toInt) (Binary64.ofInt b.toInt)
    if b.toInt < 2 ^ 32 then
      .ok (((intPower? a.toInt b.toInt.toNat).map Number.int).getD (.float rounded)).toValue
    else .ok (.float rounded) := by
  have least : 0 ≤ b.toInt := Int64.le_iff_toInt_le.mp natural
  change Except.ok (Number.toValue (if 0 ≤ b.toInt ∧ b.toInt < 2 ^ 32 then _ else _)) = _
  dsimp only
  by_cases small : b.toInt < 2 ^ 32
  · rw [if_pos ⟨least, small⟩, if_pos small]
    rfl
  · rw [if_neg (mt And.right small), if_neg small]
    rfl

/-- A power is exact below the exponent 2³², and for the bases that have no small powers from
there on; whatever the base, the power is a double from there on. -/
theorem integer_power (natural : 0 ≤ b) :
    (GivesIfFits (·.toInt = a.toInt ^ b.toInt.toNat)
        (Value.binary .asteriskAsterisk (.int a) (.int b)) ↔
      b.toInt < 2 ^ 32 ∨ 2 ≤ a.toInt.natAbs) ∧
    (2 ^ 32 ≤ b.toInt →
      ∃ x, Value.binary .asteriskAsterisk (.int a) (.int b) = .ok (.float x)) := by
  rw [power_int a b natural]
  dsimp only
  split
  · rename_i small
    refine ⟨iff_of_true ?_ (.inl small), fun far => absurd small (Int.not_lt.mpr far)⟩
    exact .ofOption fun _ => intPower?_eq_some_iff
  · rename_i far
    refine ⟨?_, fun _ => ⟨_, rfl⟩⟩
    by_cases unit : a.toInt.natAbs ≤ 1
    · have small := natAbs_pow_unit unit b.toInt.toNat
      refine iff_of_false (fun gives => ?_) (by omega)
      cases gives with
      | float outside =>
          exact outside (Int64.ofInt _) (Int64.toInt_ofInt_of_le (by omega) (by omega))
    · exact iff_of_true (.float (pow_ne_of_beyond unit (by omega))) (.inr (by omega))

/-- The powers of one fit, but not all are found. -/
theorem one_to_the_power_is_double :
    (0 : Int64) ≤ 4294967296 ∧
    (1 : Int64).toInt = (1 : Int64).toInt ^ (4294967296 : Int64).toInt.toNat ∧
    ∃ x, Value.binary .asteriskAsterisk (.int 1) (.int 4294967296) = .ok (.float x) :=
  ⟨by decide, (one_pow _).symm, (integer_power 1 4294967296 (by decide)).2 (by decide)⟩

end Operators

end StaticReflection
