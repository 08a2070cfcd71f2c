import StaticReflection.Proofs.Values.NormalizedArrays

namespace StaticReflection

/-! Unions of arrays. The key of the next value without one follows from the keys that are
there, so arrays with the same entries are the same array, however they came about. -/

/-- Where the keys of values without one may start because of a key. A string does not
count. -/
def ArrayKey.successor : ArrayKey → Int
  | .int index => index.toInt + 1
  | .string _ => 0

namespace KeyedArray

variable {α : Type} {array other : KeyedArray α} {key : ArrayKey} {value : α}

/-- Arrays as the operations build them. -/
inductive Built : KeyedArray α → Prop
  | empty : Built .empty
  | ofList (values : List α) : Built (.ofList values)
  | ofEntries (entries : List (ArrayKey × α)) : Built (.ofEntries entries)
  | insert {array : KeyedArray α} (key : ArrayKey) (value : α) :
      Built array → Built (array.insert key value)
  | push {array grown : KeyedArray α} {value : α} :
      Built array → array.push? value = some grown → Built grown
  | union {array other : KeyedArray α} : Built array → Built other → Built (array.union other)

/-! The next free key. -/

/-- The next free key as an integer, past all keys if there is none. -/
def freeFrom : Option Int64 → Int
  | some next => next.toInt
  | none => 9223372036854775808

theorem freeFrom_some_lt (next : Int64) : freeFrom (some next) < freeFrom none :=
  next.toInt_lt

theorem freeFrom_injective {first second : Option Int64} (same : freeFrom first = freeFrom second) :
    first = second := by
  cases first with
  | none =>
      cases second with
      | none => rfl
      | some next => exact absurd same.symm (Int.ne_of_lt (freeFrom_some_lt next))
  | some next =>
      cases second with
      | none => exact absurd same (Int.ne_of_lt (freeFrom_some_lt next))
      | some other => exact congrArg some (Int64.toInt_inj.mp same)

/-- A key moves the next free one past itself, and never back. -/
theorem freeFrom_nextAfter {next : Option Int64} (nonneg : 0 ≤ freeFrom next) :
    freeFrom (nextAfter next key) = max (freeFrom next) key.successor := by
  cases key with
  | string bytes =>
      change freeFrom next = max (freeFrom next) 0
      omega
  | int index =>
      have below := index.toInt_lt
      cases next with
      | none =>
          simp only [nextAfter, Option.bind_none, freeFrom, ArrayKey.successor]
          omega
      | some next =>
          simp only [nextAfter, Option.bind_some, ArrayKey.successor, Int64.le_iff_toInt_le]
          split
          · rw [toInt64?_eq]
            split
            · rename_i fits
              simp only [freeFrom, Int64.toInt_ofInt_of_le fits.1 fits.2]
              omega
            · have lowest := index.le_toInt
              simp only [freeFrom]
              omega
          · simp only [freeFrom]
            omega

/-- Every key stands once, and the next free key is the least one past all of them that is
not negative. -/
structure Counted (array : KeyedArray α) : Prop where
  distinct : (array.entries.map (·.1)).Nodup
  nonneg : 0 ≤ freeFrom array.nextFree
  above : ∀ key ∈ array.entries.map (·.1), key.successor ≤ freeFrom array.nextFree
  least : freeFrom array.nextFree = 0 ∨
    ∃ key ∈ array.entries.map (·.1), key.successor = freeFrom array.nextFree

theorem counted_empty : (empty : KeyedArray α).Counted where
  distinct := List.nodup_nil
  nonneg := Int.le_refl 0
  above _ among := absurd among List.not_mem_nil
  least := .inl rfl

theorem mem_keys_insert {found : ArrayKey} :
    found ∈ (array.insert key value).entries.map (·.1) ↔
      found ∈ array.entries.map (·.1) ∨ found = key := by
  rw [keys_insert]
  split
  · rename_i contained
    obtain ⟨there, known⟩ := Option.isSome_iff_exists.mp contained
    have among : key ∈ array.entries.map (·.1) := List.mem_map_of_mem (mem_of_get? known)
    exact ⟨.inl, fun either => either.elim id fun same => same ▸ among⟩
  · rw [List.mem_append, List.mem_singleton]

theorem Counted.insert (counted : array.Counted) : (array.insert key value).Counted := by
  have free : freeFrom (array.insert key value).nextFree =
      max (freeFrom array.nextFree) key.successor := freeFrom_nextAfter counted.nonneg
  refine ⟨nodup_insert counted.distinct, ?_, fun found among => ?_, ?_⟩
  · have nonneg := counted.nonneg
    omega
  · rw [free]
    rcases mem_keys_insert.mp among with earlier | rfl
    · exact Int.le_trans (counted.above found earlier) (Int.le_max_left _ _)
    · exact Int.le_max_right _ _
  · rw [free]
    by_cases moved : freeFrom array.nextFree ≤ key.successor
    · exact .inr ⟨key, mem_keys_insert.mpr (.inr rfl), (Int.max_eq_right moved).symm⟩
    · rw [Int.max_eq_left (by omega)]
      exact counted.least.imp_right fun ⟨found, among, same⟩ =>
        ⟨found, mem_keys_insert.mpr (.inl among), same⟩

theorem Counted.push {grown : KeyedArray α} (counted : array.Counted)
    (pushed : array.push? value = some grown) : grown.Counted := by
  obtain ⟨index, _, rfl⟩ := Option.map_eq_some_iff.mp pushed
  exact counted.insert

theorem Counted.union (counted : array.Counted) : (array.union other).Counted := by
  refine List.foldlRecOn (motive := Counted) other.entries _ counted fun result kept entry _ => ?_
  split
  · exact kept
  · exact kept.insert

theorem counted_ofEntries (entries : List (ArrayKey × α)) : (ofEntries entries).Counted :=
  List.foldlRecOn (motive := Counted) entries _ counted_empty fun _ kept _ _ => kept.insert

theorem counted_ofList (values : List α) : (ofList values).Counted := by
  refine List.foldlRecOn (motive := Counted) values _ counted_empty fun result kept value _ => ?_
  cases pushed : result.push? value with
  | none => exact kept
  | some grown => exact kept.push pushed

theorem Built.counted (built : array.Built) : array.Counted := by
  induction built with
  | empty => exact counted_empty
  | ofList values => exact counted_ofList values
  | ofEntries entries => exact counted_ofEntries entries
  | insert _ _ _ ih => exact ih.insert
  | push _ pushed ih => exact ih.push pushed
  | union _ _ ih _ => exact ih.union

/-- More keys move the next free one on. -/
theorem Counted.freeFrom_le (counted : array.Counted) (counted' : other.Counted)
    (more : array.entries.map (·.1) ⊆ other.entries.map (·.1)) :
    freeFrom array.nextFree ≤ freeFrom other.nextFree := by
  rcases counted.least with zero | ⟨key, among, reached⟩
  · rw [zero]
    exact counted'.nonneg
  · rw [← reached]
    exact counted'.above key (more among)

/-- The entries say which key is free next. -/
theorem Counted.ext (counted : array.Counted) (counted' : other.Counted)
    (same : array.entries = other.entries) : array = other := by
  have free : freeFrom array.nextFree = freeFrom other.nextFree :=
    Int.le_antisymm (counted.freeFrom_le counted' (by rw [same]; exact List.Subset.refl _))
      (counted'.freeFrom_le counted (by rw [same]; exact List.Subset.refl _))
  cases array
  cases other
  rw [mk.injEq]
  exact ⟨same, freeFrom_injective free⟩

/-! Entries of a union. -/

theorem contains_iff : array.contains key = true ↔ key ∈ array.entries.map (·.1) := by
  rw [contains, ← not_iff_not, ← get?_eq_none_iff, Bool.not_eq_true, Option.isSome_eq_false_iff,
    Option.isNone_iff_eq_none]

theorem entries_insert_of_absent (absent : array.contains key = false) :
    (array.insert key value).entries = array.entries ++ [(key, value)] := by
  simp [insert, absent]

theorem entries_union (distinct : (other.entries.map (·.1)).Nodup) :
    (array.union other).entries =
      array.entries ++ other.entries.filter fun entry => !array.contains entry.1 := by
  unfold union
  -- The array that the loop has reached plays the part of the first one for what is left.
  generalize other.entries = entries at distinct
  induction entries generalizing array with
  | nil => simp
  | cons entry rest ih =>
      obtain ⟨fresh, distinct⟩ := List.nodup_cons.mp distinct
      rw [List.foldl_cons, List.filter_cons]
      cases known : array.contains entry.1 with
      | true => simpa using ih distinct
      | false =>
          have others : ∀ later ∈ rest,
              (array.insert entry.1 entry.2).contains later.1 = array.contains later.1 := by
            intro later among
            have apart : later.1 ≠ entry.1 := by
              intro same
              exact fresh (List.mem_map.mpr ⟨later, among, same⟩)
            rw [Bool.eq_iff_iff, contains_iff, contains_iff, mem_keys_insert]
            simp [apart]
          have same : rest.filter (fun later => !(array.insert entry.1 entry.2).contains later.1) =
              rest.filter fun later => !array.contains later.1 :=
            List.filter_congr fun later among => by rw [others later among]
          simp only [Bool.false_eq_true, if_false, Bool.not_false, if_true]
          rw [ih distinct, same, entries_insert_of_absent known, List.append_assoc,
            List.singleton_append]

theorem contains_union (distinct : (other.entries.map (·.1)).Nodup) :
    (array.union other).contains key = (array.contains key || other.contains key) := by
  have keys : (array.union other).entries.map (·.1) = array.entries.map (·.1) ++
      (other.entries.map (·.1)).filter fun key => !array.contains key := by
    rw [entries_union distinct, List.map_append, List.filter_map]
    rfl
  rw [Bool.eq_iff_iff, Bool.or_eq_true, contains_iff, keys, List.mem_append, List.mem_filter,
    ← contains_iff, ← contains_iff]
  cases array.contains key <;> simp

/-- Nothing is added of an array all of whose keys are there. -/
theorem union_of_contains (contains : ∀ entry ∈ other.entries, array.contains entry.1 = true) :
    array.union other = array := by
  refine List.foldlRecOn (motive := (· = array)) other.entries _ rfl
    fun result same entry among => ?_
  rw [same, if_pos (contains entry among)]

/-- Arrays form a monoid under union, in which the first array counts: of the second one
those entries follow, in their order, whose keys it lacks. The next free keys agree as well. -/
theorem union_monoid {a b c : KeyedArray α} (builtA : a.Built) (builtB : b.Built)
    (builtC : c.Built) :
    (a.union b).entries = a.entries ++ b.entries.filter (fun entry => !a.contains entry.1) ∧
    (a.union b).union c = a.union (b.union c) ∧
    a.union a = a ∧ KeyedArray.empty.union a = a ∧ a.union .empty = a := by
  have countedA := builtA.counted
  have countedB := builtB.counted
  have countedC := builtC.counted
  refine ⟨entries_union countedB.distinct, ?_, ?_, ?_, rfl⟩
  · refine countedA.union.union.ext countedA.union ?_
    have lacking : (fun entry : ArrayKey × α => !(a.union b).contains entry.1) =
        fun entry => !a.contains entry.1 && !b.contains entry.1 := by
      funext entry
      rw [contains_union countedB.distinct, Bool.not_or]
    calc ((a.union b).union c).entries
      _ = a.entries ++ b.entries.filter (fun entry => !a.contains entry.1) ++
          c.entries.filter (fun entry => !a.contains entry.1 && !b.contains entry.1) := by
        rw [entries_union countedC.distinct, entries_union countedB.distinct, lacking]
      _ = a.entries ++ (b.entries ++ c.entries.filter fun entry => !b.contains entry.1).filter
          (fun entry => !a.contains entry.1) := by
        rw [List.filter_append, List.filter_filter, List.append_assoc]
      _ = (a.union (b.union c)).entries := by
        rw [entries_union countedB.union.distinct, entries_union countedC.distinct]
  · exact union_of_contains fun entry among =>
      contains_iff.mpr (List.mem_map_of_mem among)
  · refine counted_empty.union.ext countedA ?_
    rw [entries_union countedA.distinct]
    exact List.filter_eq_self.mpr fun entry _ => rfl

/-- Arrays of which the first has used up the integer keys, and the others have a negative
one and one that the first has too. -/
theorem union_of_full_array :
    let a : KeyedArray Nat := (KeyedArray.ofList [1, 2]).insert (.int 9223372036854775807) 3
    let b : KeyedArray Nat := .ofEntries [(.int (-5), 4), (.int 1, 5), (.string [0x78], 6)]
    let c : KeyedArray Nat :=
      (KeyedArray.empty.insert (.string [0x78]) 7).union (.ofList [8, 9, 10])
    (a.union b).entries = a.entries ++ [(.int (-5), 4), (.string [0x78], 6)] ∧
      (a.union b).union c = a.union (b.union c) := by
  intro a b c
  have builtA : a.Built := .insert _ _ (.ofList _)
  have builtB : b.Built := .ofEntries _
  have builtC : c.Built := .union (.insert _ _ .empty) (.ofList _)
  have monoid := union_monoid builtA builtB builtC
  exact ⟨monoid.1, monoid.2.1⟩

end KeyedArray

end StaticReflection
