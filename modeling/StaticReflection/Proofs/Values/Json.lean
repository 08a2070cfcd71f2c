import Mathlib.Data.List.Induction
import Mathlib.Data.List.Nodup
import Mathlib.Data.List.Perm.Subperm
import StaticReflection.Proofs.Evaluation.NormalizedAnswers
import StaticReflection.Proofs.Values.TextDecoding

namespace StaticReflection

/-! A value as JSON. An array is a list of as many elements as it has entries, or an object
with a field for every text that one of its keys has. -/

namespace OrderedMap

variable {κ α : Type} [DecidableEq κ]

/-- The map that entries make one after the other. -/
def ofEntries (entries : List (κ × α)) : OrderedMap κ α :=
  entries.foldl (fun map entry => map.insert entry.1 entry.2) {}

theorem ofEntries_append_single (entries : List (κ × α)) (entry : κ × α) :
    ofEntries (entries ++ [entry]) = (ofEntries entries).insert entry.1 entry.2 :=
  List.foldl_append

theorem keys_replace (key : κ) (value : α) (entries : List (κ × α)) :
    (replace key value entries).map (·.1) = entries.map (·.1) := by
  unfold replace
  rw [List.map_map]
  refine List.map_congr_left fun entry _ => ?_
  simp only [Function.comp_apply]
  split
  · rename_i same
    exact same.symm
  · rfl

theorem keys_insert (map : OrderedMap κ α) (key : κ) (value : α) :
    (map.insert key value).keys = if key ∈ map.keys then map.keys else map.keys ++ [key] := by
  unfold insert contains
  by_cases there : key ∈ map.keys
  · obtain ⟨earlier, found⟩ : ∃ earlier, map.find? key = some earlier := by
      rw [← Option.ne_none_iff_exists']
      exact find?_eq_none_iff.not_left.mpr there
    rw [if_pos there, found, Option.isSome_some, if_pos rfl]
    exact keys_replace key value map.entries
  · rw [if_neg there, find?_eq_none_iff.mpr there]
    exact List.map_append

theorem nodup_keys_insert {map : OrderedMap κ α} (distinct : map.keys.Nodup) (key : κ)
    (value : α) : (map.insert key value).keys.Nodup := by
  rw [keys_insert]
  split
  · exact distinct
  · rename_i absent
    refine List.nodup_append.mpr ⟨distinct, List.nodup_singleton key, ?_⟩
    rintro _ there _ last rfl
    exact absent (List.mem_singleton.mp last ▸ there)

theorem nodup_keys_ofEntries (entries : List (κ × α)) : (ofEntries entries).keys.Nodup :=
  List.foldlRecOn (motive := fun map : OrderedMap κ α => map.keys.Nodup) entries _ List.nodup_nil
    fun _ distinct entry _ => nodup_keys_insert distinct entry.1 entry.2

/-- The last of several values of a key stays. -/
theorem find?_ofEntries (entries : List (κ × α)) (key : κ) :
    (ofEntries entries).find? key = entries.reverse.lookup key := by
  induction entries using List.reverseRecOn with
  | nil => rfl
  | append_singleton entries entry ih =>
      obtain ⟨last, value⟩ := entry
      rw [ofEntries_append_single, find?_insert, ih, List.reverse_append,
        List.reverse_singleton, List.singleton_append, List.lookup_cons]
      by_cases same : key = last
      · simp [same]
      · have differs : (key == last) = false := by simpa using same
        simp [same, differs]

theorem mem_keys_ofEntries {entries : List (κ × α)} {key : κ} :
    key ∈ (ofEntries entries).keys ↔ key ∈ entries.map (·.1) := by
  induction entries using List.reverseRecOn with
  | nil => rfl
  | append_singleton entries entry ih =>
      rw [ofEntries_append_single, keys_insert, List.map_append, List.mem_append, ← ih,
        List.map_singleton, List.mem_singleton]
      split
      · rename_i there
        exact ⟨.inl, (·.elim id fun same => same ▸ there)⟩
      · rw [List.mem_append, List.mem_singleton]

theorem entries_ofEntries {entries : List (κ × α)} (distinct : (entries.map (·.1)).Nodup) :
    (ofEntries entries).entries = entries := by
  induction entries using List.reverseRecOn with
  | nil => rfl
  | append_singleton entries entry ih =>
      rw [List.map_append, List.nodup_append] at distinct
      have absent : (ofEntries entries).find? entry.1 = none := by
        rw [find?_eq_none_iff, mem_keys_ofEntries]
        exact fun there => distinct.2.2 _ there entry.1 (by simp) rfl
      rw [ofEntries_append_single, insert, contains, absent]
      exact congrArg (· ++ [entry]) (ih distinct.1)

theorem size_ofEntries_iff {entries : List (κ × α)} :
    (ofEntries entries).size = entries.length ↔ (entries.map (·.1)).Nodup := by
  refine ⟨fun all => ?_, fun distinct => congrArg List.length (entries_ofEntries distinct)⟩
  have within : (ofEntries entries).keys.Subperm (entries.map (·.1)) :=
    (nodup_keys_ofEntries entries).subperm fun _ => mem_keys_ofEntries.mp
  have same : (ofEntries entries).keys.Perm (entries.map (·.1)) := by
    refine within.perm_of_length_le ?_
    rw [List.length_map, ← all, keys, List.length_map]
    exact Nat.le_refl _
  exact same.nodup_iff.mp (nodup_keys_ofEntries entries)

end OrderedMap

theorem JsonValue.setField_eq (fields : List (String × JsonValue)) (name : String)
    (value : JsonValue) :
    setField fields name value = (OrderedMap.insert ⟨fields⟩ name value).entries := by
  have there : fields.any (·.1 == name) = (OrderedMap.mk fields).contains name := by
    rw [Bool.eq_iff_iff, OrderedMap.contains, Option.isSome_iff_ne_none, Ne,
      OrderedMap.find?_eq_none_iff, not_not]
    simp [OrderedMap.keys]
  unfold setField OrderedMap.insert
  rw [there]
  split
  · simp [OrderedMap.replace]
  · rfl

theorem JsonValue.foldl_setField (fields : List (String × JsonValue)) :
    fields.foldl (fun object field => setField object field.1 field.2) [] =
      (OrderedMap.ofEntries fields).entries := by
  induction fields using List.reverseRecOn with
  | nil => rfl
  | append_singleton fields field ih =>
      rw [List.foldl_append, ih, OrderedMap.ofEntries_append_single]
      exact setField_eq _ _ _

theorem entriesToJson_eq (entries : List (ArrayKey × Value)) :
    entriesToJson entries = entries.map fun entry => (entry.1.fieldName, entry.2.toJson) := by
  induction entries with
  | nil => rfl
  | cons entry rest ih =>
      rw [entriesToJson, ih]
      rfl

/-- The entries of an array as fields, each for itself. -/
def KeyedArray.fields (items : KeyedArray Value) : List (String × JsonValue) :=
  items.entries.map fun entry => (entry.1.fieldName, entry.2.toJson)

theorem Value.toJson_array (items : KeyedArray Value) :
    (Value.array items).toJson =
      if items.isList then .list (items.fields.map (·.2))
      else .object (OrderedMap.ofEntries items.fields).entries := by
  obtain ⟨entries, nextFree⟩ := items
  rw [toJson, entriesToJson_eq, JsonValue.foldl_setField]
  rfl

/-! The texts of keys. -/

theorem replacement_not_mem_intText (i : Int) : Utf8.replacement ∉ (intText i).toList := by
  rw [toList_intText, List.mem_append]
  rintro (sign | digit)
  · split at sign
    · cases List.mem_singleton.mp sign
    · cases sign
  · have plain := isDigit_of_mem_toDigits _ digit
    cases plain

theorem intText_injective {i j : Int64} (same : intText i.toInt = intText j.toInt) : i = j := by
  have read := canonicalInt?_intText i
  rw [same, canonicalInt?_intText] at read
  exact (Option.some.inj read).symm

/-- Only the texts of strings can meet. -/
theorem ArrayKey.eq_of_fieldName {key other : ArrayKey} (canonical : key.Canonical)
    (canonical' : other.Canonical) (same : key.fieldName = other.fieldName)
    (apart : ∀ bytes bytes', key = .string bytes → other = .string bytes' →
      Utf8.decodeString bytes = Utf8.decodeString bytes' → bytes = bytes') : key = other := by
  -- The text of an integer is decoded from that text only, which is no key.
  have different : ∀ (i : Int64) bytes, (ArrayKey.string bytes).Canonical →
      intText i.toInt ≠ Utf8.decodeString bytes := by
    intro i bytes canonical text
    have whole : Utf8.replacement ∉ (Utf8.decodeString bytes).toList :=
      text ▸ replacement_not_mem_intText i.toInt
    rw [canonical_string_iff, ← Utf8.ofString_decodeString whole, ← text,
      canonicalInt?_intText] at canonical
    cases canonical
  cases key with
  | int i =>
      cases other with
      | int j => exact congrArg _ (intText_injective same)
      | string bytes => exact absurd same (different i bytes canonical')
  | string bytes =>
      cases other with
      | int j => exact absurd same.symm (different j bytes canonical)
      | string bytes' => exact congrArg _ (apart bytes bytes' rfl rfl same)

namespace KeyedArray

/-- No two strings among the keys are decoded to the same text. -/
def Legible (items : KeyedArray Value) : Prop :=
  ∀ bytes bytes', ArrayKey.string bytes ∈ items.entries.map (·.1) →
    ArrayKey.string bytes' ∈ items.entries.map (·.1) →
    Utf8.decodeString bytes = Utf8.decodeString bytes' → bytes = bytes'

variable {items : KeyedArray Value}

theorem legible_of_texts (texts : ∀ bytes, ArrayKey.string bytes ∈ items.entries.map (·.1) →
    ∃ text, bytes = Utf8.ofString text) : items.Legible := by
  intro bytes bytes' among among' same
  obtain ⟨text, rfl⟩ := texts bytes among
  obtain ⟨text', rfl⟩ := texts bytes' among'
  rw [Utf8.decodeString_ofString, Utf8.decodeString_ofString] at same
  rw [same]

theorem names_fields (items : KeyedArray Value) :
    items.fields.map (·.1) = (items.entries.map (·.1)).map ArrayKey.fieldName := by
  unfold fields
  rw [List.map_map, List.map_map]
  rfl

theorem nodup_fields_iff (keeps : items.Keeps Value.Normalized) :
    (items.fields.map (·.1)).Nodup ↔ items.Legible := by
  rw [names_fields]
  constructor
  · intro distinct bytes bytes' among among' same
    cases List.inj_on_of_nodup_map distinct among among' same
    rfl
  · intro legible
    refine keeps.distinct.map_on fun key among other among' same => ?_
    obtain ⟨entry, there, rfl⟩ := List.mem_map.mp among
    obtain ⟨entry', there', rfl⟩ := List.mem_map.mp among'
    refine ArrayKey.eq_of_fieldName (keeps.canonical entry there)
      (keeps.canonical entry' there') same fun bytes bytes' key key' => ?_
    rw [key] at among
    rw [key'] at among'
    exact legible bytes bytes' among among'

end KeyedArray

/-- An array as JSON, at any depth of a value that a reflector comes to. It is a list of its
values, or an object with one field for each text of its keys, which has the value of the last
of them. The object has a field for every entry exactly if no two strings among the keys are
decoded to the same text, and so whenever all of them are well formed. -/
theorem entries_as_json (options : Options) (locator : Locator) (sources : SourceCache)
    (operations : List Operation) {value : Value}
    (comes : ((Reflector.new options locator sources).undergoAll operations).ComesTo value)
    {items : KeyedArray Value} (contains : value.Contains items) :
    (items.isList = true → ∃ elements, (Value.array items).toJson = .list elements ∧
      elements = items.values.map Value.toJson ∧ elements.length = items.size) ∧
    (items.isList = false → ∃ fields, (Value.array items).toJson = .object fields ∧
      (fields.map (·.1)).Nodup ∧
      (∀ name, fields.lookup name = items.fields.reverse.lookup name) ∧
      (fields.length = items.size ↔ items.Legible) ∧
      (items.Legible → fields = items.fields)) ∧
    ((∀ bytes, ArrayKey.string bytes ∈ items.entries.map (·.1) →
      ∃ text, bytes = Utf8.ofString text) → items.Legible) := by
  have keeps := contains.keeps
    (((Reflector.tidy_new options locator sources).undergoAll operations).normalized comes)
  have size : items.size = items.fields.length := (List.length_map _).symm
  refine ⟨fun isList => ?_, fun isObject => ?_, KeyedArray.legible_of_texts⟩
  · refine ⟨_, by rw [Value.toJson_array, if_pos isList], ?_, ?_⟩
    · simp [KeyedArray.fields, KeyedArray.values]
    · rw [size, List.length_map]
  · refine ⟨_, by rw [Value.toJson_array, isObject, if_neg Bool.false_ne_true],
      OrderedMap.nodup_keys_ofEntries _, OrderedMap.find?_ofEntries _, ?_, ?_⟩
    · rw [← KeyedArray.nodup_fields_iff keeps, size]
      exact OrderedMap.size_ofEntries_iff
    · intro legible
      exact OrderedMap.entries_ofEntries ((KeyedArray.nodup_fields_iff keeps).mpr legible)

theorem Reflector.comesTo_array {r : Reflector} {name : String} {keys : List ArrayKey}
    (known : (((Query.constantNamed name).result r).toOption.bind fun constant =>
      ((Query.constantValue constant).result r).toOption.bind Value.arrayKeys?) = some keys) :
    ∃ items, r.ComesTo (.array items) ∧ items.entries.map (·.1) = keys := by
  obtain ⟨constant, _, given⟩ := Option.bind_eq_some_iff.mp known
  obtain ⟨value, answered, same⟩ := Option.bind_eq_some_iff.mp given
  cases value with
  | array items =>
      exact ⟨items, .constant (Query.ok_of_toOption answered), Option.some.inj same⟩
  | _ => cases same

/-- A list under a key of two bytes and, under a key that is no text, a string that is none. -/
theorem fields_of_mixed_keys :
    let operations : List Operation := [.request (.loadText "/app/a.php"
      "<?php const A = [\"\\xc3\\xa9\" => [1, 2], 7 => 3, \"\\xff\" => \"\\xfe\"];".toList)]
    let r := (Reflector.new {} .nowhere {}).undergoAll operations
    ∃ items fields, r.ComesTo (.array items) ∧ (Value.array items).Contains items ∧
      (Value.array items).toJson = .object fields ∧ fields.length = items.size ∧
      fields.map (·.1) = ["é", "7", "\ufffd"] := by
  intro operations r
  have known : (((Query.constantNamed "A").result r).toOption.bind fun constant =>
      ((Query.constantValue constant).result r).toOption.bind Value.arrayKeys?) =
        some [.string [0xc3, 0xa9], .int 7, .string [0xff]] := by
    decide +kernel
  obtain ⟨items, comes, keys⟩ := Reflector.comesTo_array known
  have legible : items.Legible := by
    unfold KeyedArray.Legible
    rw [keys]
    have apart : Utf8.decodeString [0xc3, 0xa9] ≠ Utf8.decodeString [0xff] := by
      decide +kernel
    simp only [List.mem_cons, ArrayKey.string.injEq, reduceCtorEq, List.not_mem_nil, or_false,
      false_or]
    rintro _ _ (rfl | rfl) (rfl | rfl) same
    · rfl
    · exact absurd same apart
    · exact absurd same.symm apart
    · rfl
  have isObject : items.isList = false := by
    obtain ⟨entries, nextFree⟩ := items
    match entries, keys with
    | [(_, _), (_, _), (_, _)], rfl => rfl
  obtain ⟨-, asObject, -⟩ := entries_as_json {} .nowhere {} operations comes (.self items)
  obtain ⟨fields, json, -, -, all, same⟩ := asObject isObject
  refine ⟨items, fields, comes, .self items, json, all.mpr legible, ?_⟩
  rw [same legible, KeyedArray.names_fields, keys]
  decide +kernel

/-- Bytes that are no text are decoded to the same replacement, and the first of two entries
is lost. -/
theorem replaced_keys_share_field :
    let operations : List Operation := [.request (.loadText "/app/a.php"
      "<?php const A = [\"\\xff\" => 1, \"\\xfe\" => 2];".toList)]
    let r := (Reflector.new {} .nowhere {}).undergoAll operations
    ∃ items fields, r.ComesTo (.array items) ∧ items.size = 2 ∧
      (Value.array items).toJson = .object fields ∧ fields.length = 1 := by
  intro operations r
  have known : (((Query.constantNamed "A").result r).toOption.bind fun constant =>
      ((Query.constantValue constant).result r).toOption.bind Value.arrayKeys?) =
        some [.string [0xff], .string [0xfe]] := by
    decide +kernel
  obtain ⟨items, comes, keys⟩ := Reflector.comesTo_array known
  have same : Utf8.decodeString [0xff] = Utf8.decodeString [0xfe] := by decide +kernel
  obtain ⟨entries, nextFree⟩ := items
  match entries, keys with
  | [(_, value), (_, value')], rfl =>
      refine ⟨_, _, comes, rfl, by rw [Value.toJson_array]; exact if_neg nofun, ?_⟩
      simp [KeyedArray.fields, ArrayKey.fieldName, same, OrderedMap.ofEntries,
        OrderedMap.insert, OrderedMap.contains, OrderedMap.find?, OrderedMap.replace]

end StaticReflection
