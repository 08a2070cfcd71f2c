import Mathlib.Data.List.Range
import StaticReflection.Proofs.Values.ArrayUnion

namespace StaticReflection

/-! Values added to an array without a key. The next free key is one past the greatest integer
key, so such a value never takes the place of another one. -/

def ArrayKey.index? : ArrayKey → Option Int
  | .int index => some index.toInt
  | .string _ => none

namespace KeyedArray

variable {α : Type} {array grown : KeyedArray α} {value : α} {next : Int64}

def keys (array : KeyedArray α) : List ArrayKey :=
  array.entries.map (·.1)

/-- The integer keys. -/
def indices (array : KeyedArray α) : List Int :=
  array.keys.filterMap ArrayKey.index?

/-- The least number past all integer keys that is not negative. -/
def pastIndices (array : KeyedArray α) : Int :=
  array.indices.max?.elim 0 fun largest => max 0 (1 + largest)

theorem mem_indices {index : Int} :
    index ∈ array.indices ↔ ∃ key : Int64, .int key ∈ array.keys ∧ key.toInt = index := by
  unfold indices
  rw [List.mem_filterMap]
  constructor
  · rintro ⟨key | bytes, among, same⟩
    · exact ⟨key, among, Option.some.inj same⟩
    · cases same
  · rintro ⟨key, among, rfl⟩
    exact ⟨.int key, among, rfl⟩

/-! The counter. -/

theorem Counted.freeFrom_eq (counted : array.Counted) :
    freeFrom array.nextFree = array.pastIndices := by
  have nonneg := counted.nonneg
  unfold pastIndices
  cases greatest : array.indices.max? with
  | none =>
      have empty := List.max?_eq_none_iff.mp greatest
      rcases counted.least with zero | ⟨index | bytes, among, reached⟩
      · exact zero
      · have listed : index.toInt ∈ array.indices := mem_indices.mpr ⟨index, among, rfl⟩
        rw [empty] at listed
        cases listed
      · exact reached.symm
  | some largest =>
      obtain ⟨listed, bound⟩ := List.max?_eq_some_iff.mp greatest
      obtain ⟨key, among, rfl⟩ := mem_indices.mp listed
      have above : key.toInt + 1 ≤ freeFrom array.nextFree := counted.above (.int key) among
      have below : freeFrom array.nextFree ≤ max 0 (1 + key.toInt) := by
        rcases counted.least with zero | ⟨index | bytes, other, reached⟩
        · omega
        · have order : index.toInt ≤ key.toInt := bound _ (mem_indices.mpr ⟨index, other, rfl⟩)
          rw [← reached, ArrayKey.successor]
          omega
        · rw [← reached, ArrayKey.successor]
          omega
      rw [Option.elim_some]
      omega

theorem Counted.toInt_next (counted : array.Counted) (free : array.nextFree = some next) :
    next.toInt = array.pastIndices := by
  rw [← counted.freeFrom_eq, free]
  rfl

theorem Counted.nextFree_eq_none_iff (counted : array.Counted) :
    array.nextFree = none ↔ array.contains (.int Int64.maxValue) = true := by
  have greatest : Int64.maxValue.toInt = 9223372036854775807 := rfl
  rw [contains_iff]
  constructor
  · intro used
    have least := counted.least
    rw [used] at least
    rcases least with zero | ⟨index | bytes, among, reached⟩
    · cases zero
    · change index.toInt + 1 = 9223372036854775808 at reached
      obtain rfl : index = Int64.maxValue := Int64.toInt_inj.mp (by omega)
      exact among
    · cases reached
  · intro among
    have above := counted.above _ among
    cases free : array.nextFree with
    | none => rfl
    | some next =>
        have below := next.toInt_lt
        rw [free, ArrayKey.successor, greatest] at above
        change _ ≤ next.toInt at above
        omega

/-- The next free key is past all keys that there are. -/
theorem Counted.next_absent (counted : array.Counted) (free : array.nextFree = some next) :
    array.contains (.int next) = false := by
  rw [← Bool.not_eq_true, contains_iff]
  intro among
  have above := counted.above _ among
  rw [free] at above
  change next.toInt + 1 ≤ next.toInt at above
  omega

/-! Adding a value. -/

theorem push?_eq_none_iff : array.push? value = none ↔ array.nextFree = none :=
  Option.map_eq_none_iff

theorem Counted.entries_push (counted : array.Counted) (free : array.nextFree = some next)
    (pushed : array.push? value = some grown) :
    grown.entries = array.entries ++ [(.int next, value)] := by
  rw [push?, free] at pushed
  obtain rfl := Option.some.inj pushed
  exact entries_insert_of_absent (counted.next_absent free)

/-! Lists. -/

theorem isListFrom_iff (position : Nat) (entries : List (ArrayKey × α)) :
    isListFrom position entries = true ↔
      entries.map (·.1) =
        (List.range' position entries.length).map fun place => .int (Int64.ofNat place) := by
  induction entries generalizing position with
  | nil => simp [isListFrom]
  | cons entry rest ih =>
      rw [isListFrom, Bool.and_eq_true, beq_iff_eq, ih, List.length_cons, List.range'_succ,
        List.map_cons, List.map_cons, List.cons.injEq]

theorem isList_iff : array.isList = true ↔
    array.keys = (List.range array.size).map fun place => .int (Int64.ofNat place) := by
  rw [List.range_eq_range']
  exact isListFrom_iff 0 array.entries

/-- A list that has a free key has fewer values than there are keys. -/
theorem Counted.size_lt_of_isList (counted : array.Counted) (list : array.isList = true)
    (free : array.nextFree = some next) : array.size < 9223372036854775808 := by
  by_contra large
  have among : .int Int64.maxValue ∈ array.keys := by
    rw [isList_iff.mp list, List.mem_map]
    exact ⟨9223372036854775807, List.mem_range.mpr (by omega), rfl⟩
  have used := counted.nextFree_eq_none_iff.mpr (contains_iff.mpr among)
  rw [free] at used
  cases used

theorem Counted.next_of_isList (counted : array.Counted) (list : array.isList = true)
    (free : array.nextFree = some next) : next = Int64.ofNat array.size := by
  have few := counted.size_lt_of_isList list free
  have keys := isList_iff.mp list
  have value : freeFrom array.nextFree = next.toInt := by rw [free]; rfl
  have above : (array.size : Int) ≤ next.toInt := by
    cases size : array.size with
    | zero => exact value ▸ counted.nonneg
    | succ last =>
        have among : .int (Int64.ofNat last) ∈ array.keys := by
          rw [keys, List.mem_map]
          exact ⟨last, List.mem_range.mpr (by omega), rfl⟩
        have reached := counted.above _ among
        rw [value, ArrayKey.successor, Int64.toInt_ofNat_of_lt (by omega)] at reached
        omega
  have below : next.toInt ≤ (array.size : Int) := by
    rcases counted.least with zero | ⟨key, among, reached⟩
    · omega
    · change key ∈ array.keys at among
      rw [keys, List.mem_map] at among
      obtain ⟨place, inside, rfl⟩ := among
      have small := List.mem_range.mp inside
      rw [ArrayKey.successor, Int64.toInt_ofNat_of_lt (by omega)] at reached
      omega
  apply Int64.toInt_inj.mp
  rw [Int64.toInt_ofNat_of_lt few]
  omega

theorem Counted.isList_push (counted : array.Counted) (list : array.isList = true)
    (free : array.nextFree = some next)
    (entries : grown.entries = array.entries ++ [(.int next, value)]) :
    grown.isList = true := by
  have size : grown.size = array.size + 1 := by simp [KeyedArray.size, entries]
  have keys : grown.keys = array.keys ++ [.int next] := by simp [KeyedArray.keys, entries]
  rw [isList_iff, keys, size, List.range_succ, List.map_append, ← isList_iff.mp list,
    counted.next_of_isList list free]
  rfl

/-- The next free key of an array is one past its greatest integer key, or zero where this would
be negative; there is none exactly when the greatest of all keys is in use. So a value without a
key is refused exactly then, and otherwise comes last under a key that was not there: what was
there stays, and a list stays a list. -/
theorem next_key_free (built : array.Built) (value : α) :
    (array.nextFree = none ↔ array.contains (.int Int64.maxValue) = true) ∧
    (∀ next, array.nextFree = some next → next.toInt = array.pastIndices) ∧
    (array.push? value = none ↔ array.contains (.int Int64.maxValue) = true) ∧
    ∀ grown, array.push? value = some grown → ∃ next, array.nextFree = some next ∧
      array.contains (.int next) = false ∧
      grown.entries = array.entries ++ [(.int next, value)] ∧
      (array.isList = true → grown.isList = true) := by
  have counted := built.counted
  refine ⟨counted.nextFree_eq_none_iff, fun next free => counted.toInt_next free,
    push?_eq_none_iff.trans counted.nextFree_eq_none_iff, fun grown pushed => ?_⟩
  obtain ⟨next, free, -⟩ := Option.map_eq_some_iff.mp pushed
  have entries := counted.entries_push free pushed
  exact ⟨next, free, counted.next_absent free, entries,
    fun list => counted.isList_push list free entries⟩

/-- A list takes a third value, and takes no more once the greatest key has been used. -/
theorem list_until_greatest_key :
    let list : KeyedArray Nat := .ofList [5, 6]
    let full := (list.insert (.int (-3)) 7).insert (.int 9223372036854775807) 8
    list.Built ∧ full.Built ∧
      (∃ grown, list.push? 9 = some grown ∧
        grown.entries = list.entries ++ [(.int 2, 9)] ∧ grown.isList = true) ∧
      full.nextFree = none ∧ full.push? 9 = none := by
  intro list full
  have built : list.Built := .ofList _
  have builtFull : full.Built := .insert _ _ (.insert _ _ built)
  have used : full.contains (.int Int64.maxValue) = true := rfl
  obtain ⟨-, -, -, grows⟩ := next_key_free built 9
  obtain ⟨none_iff, -, refused, -⟩ := next_key_free builtFull 9
  obtain ⟨next, free, -, entries, keeps⟩ := grows _ rfl
  obtain rfl : 2 = next := Option.some.inj free
  exact ⟨built, builtFull, ⟨_, rfl, entries, keeps rfl⟩, none_iff.mpr used, refused.mpr used⟩

end KeyedArray

end StaticReflection
