import Mathlib.Data.List.Nodup
import StaticReflection.Proofs.Values.DecimalDigits
import StaticReflection.Reflection.Expression

namespace StaticReflection

/-! Arrays in which every key stands once and in the form that a look-up gives it. The
operations on values make no others. -/

/-- The key is the one that its value stands for. -/
def ArrayKey.Canonical (key : ArrayKey) : Prop :=
  key.toValue.toKey? = some key

theorem ArrayKey.canonical_int (index : Int64) : (ArrayKey.int index).Canonical := rfl

theorem ArrayKey.canonical_string_iff {bytes : Bytes} :
    (ArrayKey.string bytes).Canonical ↔ canonicalInt? bytes = none := by
  simp only [Canonical, toValue, Value.toKey?, ofBytes]
  cases canonicalInt? bytes <;> simp

theorem ArrayKey.canonical_ofBytes (bytes : Bytes) : (ofBytes bytes).Canonical := by
  cases spelled : canonicalInt? bytes with
  | some index =>
      simp only [ofBytes, spelled]
      exact canonical_int index
  | none =>
      simp only [ofBytes, spelled]
      exact canonical_string_iff.mpr spelled

theorem Value.canonical_of_toKey? {value : Value} {key : ArrayKey}
    (stands : value.toKey? = some key) : key.Canonical := by
  cases value with
  | null =>
      cases stands
      exact ArrayKey.canonical_string_iff.mpr rfl
  | string bytes =>
      cases stands
      exact ArrayKey.canonical_ofBytes bytes
  | bool | int | float =>
      cases stands
      exact ArrayKey.canonical_int _
  | array | enumCase => cases stands

namespace KeyedArray

variable {α : Type} {array : KeyedArray α} {key : ArrayKey} {value : α}

theorem get?_eq_none_iff : array.get? key = none ↔ key ∉ array.entries.map (·.1) := by
  unfold get?
  rw [List.lookup_eq_none_iff]
  simp only [List.mem_map, not_exists, not_and]
  exact ⟨fun absent entry among same => by simpa [same] using absent entry among,
    fun absent entry among => by simpa using fun same => absent entry among (Eq.symm same)⟩

theorem mem_of_get? (found : array.get? key = some value) : (key, value) ∈ array.entries := by
  obtain ⟨before, after, split, _⟩ := List.lookup_eq_some_iff.mp found
  rw [split]
  simp

theorem get?_of_mem (distinct : (array.entries.map (·.1)).Nodup)
    (among : (key, value) ∈ array.entries) : array.get? key = some value := by
  cases found : array.get? key with
  | some other =>
      have same := List.inj_on_of_nodup_map distinct (mem_of_get? found) among rfl
      rw [(Prod.mk.inj same).2]
  | none => exact absurd (List.mem_map_of_mem among) (get?_eq_none_iff.mp found)

theorem keys_insert : (array.insert key value).entries.map (·.1) =
    if array.contains key then array.entries.map (·.1)
    else array.entries.map (·.1) ++ [key] := by
  unfold insert
  dsimp only
  split
  · rw [List.map_map]
    refine List.map_congr_left fun entry _ => ?_
    by_cases same : entry.1 = key <;> simp [same]
  · simp

theorem nodup_insert (distinct : (array.entries.map (·.1)).Nodup) :
    ((array.insert key value).entries.map (·.1)).Nodup := by
  rw [keys_insert]
  split
  · exact distinct
  · rename_i absent
    have fresh : key ∉ array.entries.map (·.1) :=
      get?_eq_none_iff.mp (by simpa [contains] using absent)
    refine List.nodup_append.mpr ⟨distinct, by simp, ?_⟩
    rintro other member _ (_ | ⟨_, ⟨⟩⟩) rfl
    exact fresh member

theorem mem_insert {entry : ArrayKey × α} (among : entry ∈ (array.insert key value).entries) :
    entry = (key, value) ∨ entry ∈ array.entries := by
  unfold insert at among
  dsimp only at among
  split at among
  · obtain ⟨earlier, there, same⟩ := List.mem_map.mp among
    split at same
    · exact .inl same.symm
    · exact .inr (same ▸ there)
  · rcases List.mem_append.mp among with earlier | last
    · exact .inr earlier
    · exact .inl (List.mem_singleton.mp last)

/-- Every key stands once and is canonical, and the values have a property. -/
structure Keeps (P : α → Prop) (array : KeyedArray α) : Prop where
  distinct : (array.entries.map (·.1)).Nodup
  canonical : ∀ entry ∈ array.entries, entry.1.Canonical
  values : ∀ entry ∈ array.entries, P entry.2

variable {P : α → Prop}

theorem keeps_empty : ({} : KeyedArray α).Keeps P :=
  ⟨List.nodup_nil, nofun, nofun⟩

theorem Keeps.insert (keeps : array.Keeps P) (canonical : key.Canonical) (meets : P value) :
    (array.insert key value).Keeps P where
  distinct := nodup_insert keeps.distinct
  canonical entry among := by
    rcases mem_insert among with rfl | earlier
    · exact canonical
    · exact keeps.canonical entry earlier
  values entry among := by
    rcases mem_insert among with rfl | earlier
    · exact meets
    · exact keeps.values entry earlier

theorem Keeps.push? {grown : KeyedArray α} (keeps : array.Keeps P) (meets : P value)
    (pushed : array.push? value = some grown) : grown.Keeps P := by
  obtain ⟨index, _, rfl⟩ := Option.map_eq_some_iff.mp pushed
  exact keeps.insert (ArrayKey.canonical_int index) meets

theorem Keeps.union {other : KeyedArray α} (keeps : array.Keeps P) (others : other.Keeps P) :
    (array.union other).Keeps P := by
  refine List.foldlRecOn (motive := Keeps P) _ _ keeps fun result kept entry among => ?_
  split
  · exact kept
  · exact kept.insert (others.canonical entry among) (others.values entry among)

theorem Keeps.get? (keeps : array.Keeps P) (found : array.get? key = some value) : P value :=
  keeps.values (key, value) (mem_of_get? found)

end KeyedArray

/-- All arrays of which a value is made have canonical keys, each of them once. -/
inductive Value.Normalized : Value → Prop
  | flat {value : Value} (noArray : ∀ items, value ≠ .array items) : Normalized value
  | array {items : KeyedArray Value}
      (distinct : (items.entries.map (·.1)).Nodup)
      (canonical : ∀ entry ∈ items.entries, entry.1.Canonical)
      (values : ∀ entry ∈ items.entries, Normalized entry.2) : Normalized (.array items)

@[simp] theorem Value.normalized_array {items : KeyedArray Value} :
    (Value.array items).Normalized ↔ items.Keeps Normalized := by
  refine ⟨fun normalized => ?_, fun keeps => .array keeps.distinct keeps.canonical keeps.values⟩
  cases normalized with
  | flat noArray => exact absurd rfl (noArray items)
  | array distinct canonical values => exact ⟨distinct, canonical, values⟩

/-- An array that a value is, or that stands somewhere inside it. -/
inductive Value.Contains : Value → KeyedArray Value → Prop
  | self (items : KeyedArray Value) : Contains (.array items) items
  | inside {items inner : KeyedArray Value} {key : ArrayKey} {value : Value} :
      (key, value) ∈ items.entries → Contains value inner → Contains (.array items) inner

theorem Value.Contains.keeps {value : Value} {items : KeyedArray Value}
    (contains : value.Contains items) (normalized : value.Normalized) :
    items.Keeps Normalized := by
  induction contains with
  | self => exact normalized_array.mp normalized
  | inside among _ ih => exact ih ((normalized_array.mp normalized).values _ among)

/-! Results of operations. -/

/-- If there is an answer it has a property. -/
def GivesOnly {ε α : Type} (P : α → Prop) (result : Except ε α) : Prop :=
  ∀ value, result = .ok value → P value

namespace GivesOnly

variable {ε α β : Type} {P : α → Prop} {Q : β → Prop}

theorem ok {value : α} (meets : P value) : GivesOnly P (.ok value : Except ε α) := by
  rintro _ ⟨⟩
  exact meets

theorem error {error : ε} : GivesOnly P (.error error : Except ε α) := nofun

theorem bind {first : Except ε α} {next : α → Except ε β} (given : GivesOnly P first)
    (second : ∀ value, P value → GivesOnly Q (next value)) : GivesOnly Q (first >>= next) := by
  cases first with
  | ok value => exact second value (given value rfl)
  | error => exact error

theorem trivial {result : Except ε α} : GivesOnly (fun _ => True) result :=
  fun _ _ => True.intro

/-- What comes before the last step does not matter. -/
theorem after {first : Except ε α} {next : α → Except ε β}
    (second : ∀ value, GivesOnly Q (next value)) : GivesOnly Q (first >>= next) :=
  trivial.bind fun value _ => second value

end GivesOnly

namespace Value

theorem normalized_of_number (number : Number) : number.toValue.Normalized := by
  cases number <;> exact .flat nofun

theorem arithmetic_normalized {op : TokenKind} {apply : Number → Number → Number}
    {left right : Value} : GivesOnly Normalized (arithmetic op apply left right) :=
  .after fun _ => .ok (normalized_of_number _)

theorem add_normalized {left right : Value} (first : left.Normalized)
    (second : right.Normalized) : GivesOnly Normalized (add left right) := by
  unfold add
  split
  · rw [normalized_array] at first second
    exact .ok (normalized_array.mpr (first.union second))
  · exact arithmetic_normalized

theorem divide_normalized {left right : Value} : GivesOnly Normalized (divide left right) := by
  refine .after fun (a, b) => ?_
  dsimp only
  split
  · exact .error
  · exact .ok (normalized_of_number _)

theorem modulo_normalized {left right : Value} : GivesOnly Normalized (modulo left right) := by
  refine .after fun (a, b) => ?_
  dsimp only
  split
  · exact .error
  · exact .ok (.flat nofun)

theorem concat_normalized {left right : Value} : GivesOnly Normalized (concat left right) :=
  .after fun _ => .after fun _ => .ok (.flat nofun)

theorem bitwise_normalized {op : TokenKind} {left right : Value} :
    GivesOnly Normalized (bitwise op left right) := by
  unfold bitwise
  split
  · exact .ok (.flat nofun)
  · exact .after fun _ => .ok (.flat nofun)

theorem shift_normalized {op : TokenKind} {left right : Value} :
    GivesOnly Normalized (shift op left right) := by
  refine .after fun (a, b) => ?_
  dsimp only
  split
  · exact .error
  · exact .ok (.flat nofun)

/-- Only a union of arrays is an array. -/
theorem binary_normalized {op : TokenKind} {left right : Value} (first : left.Normalized)
    (second : right.Normalized) : GivesOnly Normalized (binary op left right) := by
  cases op with
  | plus => exact add_normalized first second
  | minus | asterisk | asteriskAsterisk => exact arithmetic_normalized
  | slash => exact divide_normalized
  | percent => exact modulo_normalized
  | dot => exact concat_normalized
  | ampersand | bar | caret => exact bitwise_normalized
  | lessThanLessThan | greaterThanGreaterThan => exact shift_normalized
  | equalsEquals | exclamationEquals | equalsEqualsEquals | exclamationEqualsEquals
  | lessThan | lessThanEquals | greaterThan | greaterThanEquals | spaceship | xorKw
  | ampersandAmpersand | andKw | barBar | orKw => exact .ok (.flat nofun)
  | _ => exact .error

theorem bitwiseNot_normalized {value : Value} : GivesOnly Normalized (bitwiseNot value) := by
  unfold bitwiseNot
  split
  · exact .ok (.flat nofun)
  · exact .ok (.flat nofun)
  · exact .ok (.flat nofun)
  · exact .error

theorem offset_normalized {quiet : Bool} {container dim : Value}
    (normalized : container.Normalized) : GivesOnly Normalized (container.offset quiet dim) := by
  have missing {fault : Fault} :
      GivesOnly Normalized (if quiet then .ok .null else .error fault) := by
    split
    · exact .ok (.flat nofun)
    · exact .error
  unfold offset
  split
  · split
    · exact .error
    · split
      · rename_i found
        exact .ok ((normalized_array.mp normalized).get? found)
      · exact missing
  · split
    · split
      · exact .ok (.flat nofun)
      · exact missing
    · exact missing
    · exact .error
  · exact .error
  · exact .ok (.flat nofun)

end Value

theorem PureFunction.apply_normalized {separator : Char} {function : PureFunction}
    {first : Value} {second : Option Value} :
    GivesOnly Value.Normalized (function.apply separator first second) := by
  cases function with
  | dirname =>
      refine .after fun _ => .after fun _ => ?_
      dsimp only
      split
      · exact .error
      · exact .ok (.flat nofun)
  | strRepeat =>
      refine .after fun _ => .after fun _ => ?_
      dsimp only
      split
      · exact .error
      · exact .after fun _ => .ok (.flat nofun)
  | count =>
      refine .after fun _ => ?_
      split
      · exact .ok (.flat nofun)
      · exact .error
  | basename => exact .after fun _ => .after fun _ => .ok (.flat nofun)
  | strtolower | strtoupper | strlen => exact .after fun _ => .ok (.flat nofun)
  | implode => exact .after fun _ => .after fun _ => .ok (.flat nofun)
  | constant => exact .error

/-- No function that constant expressions may call has an array as its result. -/
theorem PureFunction.call_normalized {separator : Char} {function : PureFunction}
    {arguments : List Value} :
    GivesOnly Value.Normalized (function.call separator arguments) := by
  unfold call
  dsimp only
  split
  · exact .error
  · split
    · exact .error
    · split
      · exact .error
      · split
        · exact .error
        · exact apply_normalized

theorem Evaluation.unpackInto_keeps {items : KeyedArray Value}
    {entries : List (ArrayKey × Value)} (keeps : items.Keeps Value.Normalized)
    (canonical : ∀ entry ∈ entries, entry.1.Canonical)
    (values : ∀ entry ∈ entries, entry.2.Normalized) :
    GivesOnly (KeyedArray.Keeps Value.Normalized) (unpackInto items entries) := by
  induction entries generalizing items with
  | nil => exact .ok keeps
  | cons entry rest ih =>
      rw [List.forall_mem_cons] at canonical values
      obtain ⟨key, value⟩ := entry
      cases key with
      | int index =>
          rw [unpackInto]
          split
          · rename_i pushed
            exact ih (keeps.push? values.1 pushed) canonical.2 values.2
          · exact .error
      | string bytes =>
          exact ih (keeps.insert canonical.1 values.1) canonical.2 values.2

end StaticReflection
