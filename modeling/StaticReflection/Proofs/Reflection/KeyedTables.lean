import Mathlib.Data.List.Nodup
import StaticReflection.Proofs.Reflection.DeclarationIds
import StaticReflection.Proofs.Reflection.MemberLookUp

namespace StaticReflection

/-! Every table keeps its declarations under the keys of their names, and all that a
reflector knows comes from files. -/

namespace OrderedMap

variable {κ α : Type}

/-- Every value of a map stands under a key of its own, which the value gives. -/
structure KeyedBy (map : OrderedMap κ α) (keyOf : α → κ) : Prop where
  nodup : map.keys.Nodup
  keys : map.keys = map.values.map keyOf

theorem keyedBy_empty {keyOf : α → κ} : ({} : OrderedMap κ α).KeyedBy keyOf :=
  ⟨List.nodup_nil, rfl⟩

theorem KeyedBy.key_of_mem {map : OrderedMap κ α} {keyOf : α → κ} (keyed : map.KeyedBy keyOf)
    {entry : κ × α} (member : entry ∈ map.entries) : entry.1 = keyOf entry.2 := by
  have keys : map.entries.map (·.1) = map.entries.map fun entry => keyOf entry.2 := by
    simpa [OrderedMap.keys, values] using keyed.keys
  exact List.map_inj_left.mp keys entry member

variable [DecidableEq κ]

theorem find?_eq_none_iff {map : OrderedMap κ α} {key : κ} :
    map.find? key = none ↔ key ∉ map.keys := by
  unfold find? keys
  rw [List.lookup_eq_none_iff]
  simp only [List.mem_map, Prod.exists, exists_and_right, exists_eq_right, not_exists]
  constructor
  · intro absent value member
    simpa using absent (key, value) member
  · rintro absent ⟨other, value⟩ member
    simp only [bne_iff_ne, ne_eq]
    rintro rfl
    exact absent value member

theorem mem_of_find? {map : OrderedMap κ α} {key : κ} {value : α}
    (found : map.find? key = some value) : (key, value) ∈ map.entries := by
  obtain ⟨before, after, split, _⟩ := List.lookup_eq_some_iff.mp found
  simp [split]

theorem mem_insert {map : OrderedMap κ α} {key : κ} {value : α} {entry : κ × α}
    (member : entry ∈ (map.insert key value).entries) :
    entry = (key, value) ∨ entry ∈ map.entries ∧ entry.1 ≠ key := by
  unfold insert contains at member
  split at member
  · obtain ⟨earlier, earlierMember, same⟩ := List.mem_map.mp member
    split at same
    · exact .inl same.symm
    · cases same
      exact .inr ⟨earlierMember, ‹_›⟩
  · rename_i absent
    rcases List.mem_append.mp member with earlier | new
    · have fresh : key ∉ map.keys := find?_eq_none_iff.mp (by simpa using absent)
      refine .inr ⟨earlier, ?_⟩
      rintro rfl
      exact fresh (List.mem_map_of_mem earlier)
    · exact .inl (List.mem_singleton.mp new)

theorem KeyedBy.insertNew {map : OrderedMap κ α} {keyOf : α → κ} (keyed : map.KeyedBy keyOf)
    {key : κ} {value : α} (given : key = keyOf value) :
    (map.insertNew key value).KeyedBy keyOf := by
  unfold OrderedMap.insertNew contains
  split
  · exact keyed
  · rename_i absent
    have fresh : key ∉ map.keys := find?_eq_none_iff.mp (by simpa using absent)
    refine ⟨?_, ?_⟩
    · change (List.map (·.1) (map.entries ++ [(key, value)])).Nodup
      rw [List.map_append, List.map_singleton]
      refine List.nodup_append.mpr ⟨keyed.nodup, by simp, ?_⟩
      rintro other member _ (_ | ⟨_, ⟨⟩⟩) rfl
      exact fresh member
    · change List.map (·.1) (map.entries ++ [(key, value)]) =
        (List.map (·.2) (map.entries ++ [(key, value)])).map keyOf
      simp only [List.map_append, List.map_singleton, given]
      exact congrArg (· ++ [keyOf value]) keyed.keys

private theorem lookup_eq_find? {keyOf : α → κ} (entries : List (κ × α))
    (keys : entries.map (·.1) = (entries.map (·.2)).map keyOf) (key : κ) :
    entries.lookup key = (entries.map (·.2)).find? fun value => keyOf value = key := by
  induction entries with
  | nil => rfl
  | cons entry rest ih =>
      obtain ⟨entryKey, value⟩ := entry
      simp only [List.map_cons, List.cons.injEq] at keys
      obtain ⟨rfl, restKeys⟩ := keys
      rw [List.lookup_cons, List.map_cons, List.find?_cons, ih restKeys]
      by_cases same : key = keyOf value
      · simp [same]
      · have differs : (key == keyOf value) = false := by simpa using same
        simp [differs, Ne.symm same]

theorem KeyedBy.find?_eq {map : OrderedMap κ α} {keyOf : α → κ} (keyed : map.KeyedBy keyOf)
    (key : κ) : map.find? key = map.values.find? fun value => keyOf value = key :=
  lookup_eq_find? map.entries keyed.keys key

section Values

variable {map : OrderedMap κ α} {keyOf : α → κ}

theorem KeyedBy.key_of_find? (keyed : map.KeyedBy keyOf) {key : κ} {value : α}
    (found : map.find? key = some value) : key = keyOf value :=
  keyed.key_of_mem (mem_of_find? found)

theorem KeyedBy.mem_values_iff (keyed : map.KeyedBy keyOf) {value : α} :
    value ∈ map.values ↔ map.find? (keyOf value) = some value := by
  rw [keyed.find?_eq]
  refine ⟨fun among => ?_, List.mem_of_find?_eq_some⟩
  have distinct : (map.values.map keyOf).Nodup := keyed.keys ▸ keyed.nodup
  cases first : map.values.find? fun other => keyOf other = keyOf value with
  | none => simpa using List.find?_eq_none.mp first value among
  | some other =>
      have sameKey : keyOf other = keyOf value := by simpa using List.find?_some first
      rw [List.inj_on_of_nodup_map distinct (List.mem_of_find?_eq_some first) among sameKey]

theorem KeyedBy.insert (keyed : map.KeyedBy keyOf) {key : κ} {value : α}
    (given : key = keyOf value) : (map.insert key value).KeyedBy keyOf := by
  unfold OrderedMap.insert
  split
  · have keys : (replace key value map.entries).map (·.1) = map.entries.map (·.1) := by
      unfold replace
      rw [List.map_map]
      refine List.map_congr_left fun entry _ => ?_
      by_cases same : entry.1 = key <;> simp [same]
    refine ⟨?_, ?_⟩
    · change ((replace key value map.entries).map (·.1)).Nodup
      rw [keys]
      exact keyed.nodup
    · change (replace key value map.entries).map (·.1) =
        ((replace key value map.entries).map (·.2)).map keyOf
      rw [keys, replace, List.map_map, List.map_map]
      refine List.map_congr_left fun entry among => ?_
      by_cases same : entry.1 = key
      · simp [same, given]
      · simpa [same] using keyed.key_of_mem among
  · rename_i absent
    have grown := keyed.insertNew given
    unfold OrderedMap.insertNew at grown
    rwa [if_neg absent] at grown

end Values

theorem find?_foldl_insertNew (entries : List (κ × α)) (map : OrderedMap κ α) (key : κ) :
    (entries.foldl (fun map (key, value) => map.insertNew key value) map).find? key =
      (map.find? key <|> entries.lookup key) := by
  induction entries generalizing map with
  | nil => simp
  | cons entry rest ih =>
      obtain ⟨entryKey, value⟩ := entry
      rw [List.foldl_cons, ih, find?_insertNew, List.lookup_cons]
      by_cases same : key = entryKey
      · subst same
        cases map.find? key <;> simp
      · have differs : (key == entryKey) = false := by simpa using same
        simp [same, differs]

theorem KeyedBy.lookup_filter {map : OrderedMap κ α} {keyOf : α → κ}
    (keyed : map.KeyedBy keyOf) (wanted : α → Bool) (key : κ) :
    (map.entries.filter fun entry => wanted entry.2).lookup key =
      (map.find? key).filter wanted := by
  obtain ⟨entries⟩ := map
  have nodup : (entries.map (·.1)).Nodup := keyed.nodup
  unfold find?
  clear keyed
  induction entries with
  | nil => rfl
  | cons entry rest ih =>
      obtain ⟨entryKey, value⟩ := entry
      rw [List.map_cons, List.nodup_cons] at nodup
      rw [List.lookup_cons, List.filter_cons]
      by_cases same : key = entryKey
      · subst same
        have absent : (⟨rest⟩ : OrderedMap κ α).find? key = none :=
          find?_eq_none_iff.mpr nodup.1
        unfold find? at absent
        rw [absent] at ih
        cases kept : wanted value <;> simp [ih nodup.2, Option.filter, kept]
      · have differs : (key == entryKey) = false := by simpa using same
        cases kept : wanted value <;> simp [differs, ih nodup.2, List.lookup_cons]

end OrderedMap

/-! Classes keep their members under the keys of the members' names. -/

/-- The kinds of members, each with the name that a member has. -/
inductive MemberKind.Names : {α : Type} → MemberKind α → (α → String) → Prop
  | method : Names .method MethodInfo.name
  | property : Names .property PropertyInfo.name
  | constant : Names .constant ConstantInfo.name

structure Members.Named (members : Members) : Prop where
  methods : members.methods.KeyedBy fun method => .folded method.name
  properties : members.properties.KeyedBy fun property => .exact property.name
  constants : members.constants.KeyedBy fun constant => .exact constant.name

namespace Members

theorem named_empty : ({} : Members).Named :=
  ⟨OrderedMap.keyedBy_empty, OrderedMap.keyedBy_empty, OrderedMap.keyedBy_empty⟩

variable {members : Members}

theorem Named.addMethod (named : members.Named) (method : MethodInfo) :
    (members.addMethod method).Named :=
  ⟨named.methods.insertNew rfl, named.properties, named.constants⟩

theorem Named.addProperties (named : members.Named) (properties : List PropertyInfo) :
    (properties.foldl Members.addProperty members).Named :=
  List.foldlRecOn properties _ named fun _ named _ _ =>
    ⟨named.methods, named.properties.insertNew rfl, named.constants⟩

theorem Named.addConstants (named : members.Named) (constants : List ConstantInfo) :
    (constants.foldl Members.addConstant members).Named :=
  List.foldlRecOn constants _ named fun _ named _ _ =>
    ⟨named.methods, named.properties, named.constants.insertNew rfl⟩

theorem Named.addMember (named : members.Named) (site : MemberSite) (node : NodeId) :
    (site.addMember members node).Named := by
  unfold MemberSite.addMember
  split
  · exact (named.addProperties _).addMethod _
  · exact named.addProperties _
  · exact named.addConstants _
  · exact named.addConstants [_]
  · exact named

theorem Named.table {α : Type} {kind : MemberKind α} {nameOf : α → String}
    (named : members.Named) (names : kind.Names nameOf) :
    (kind.table members).KeyedBy fun member => kind.key (nameOf member) := by
  cases names with
  | method => exact named.methods
  | property => exact named.properties
  | constant => exact named.constants

end Members

/-- A class that some block declares. -/
def ClassInfo.IsDeclared (info : ClassInfo) : Prop :=
  ∃ id place entry, declaredAt? id place entry = some info

theorem ClassInfo.IsDeclared.named {info : ClassInfo} (declared : info.IsDeclared) :
    info.members.Named := by
  obtain ⟨id, place, entry, declared⟩ := declared
  unfold declaredAt? at declared
  split at declared
  · cases declared
    exact List.foldlRecOn _ _ Members.named_empty fun _ named node _ => named.addMember _ node
  · cases declared

theorem EntityIndex.isDeclared_of_class? {index : EntityIndex} {name : String}
    {info : ClassInfo} (known : index.class? name = some info) : info.IsDeclared := by
  obtain ⟨_, _, declared⟩ := Option.bind_eq_some_iff.mp known
  exact ⟨_, _, _, declared⟩

theorem Query.isDeclared_of_classNamed {name : String} {info : ClassInfo} {r : Reflector}
    (answered : (classNamed name).result r = .ok info) : info.IsDeclared :=
  EntityIndex.isDeclared_of_class? (known_after_classNamed answered)

end StaticReflection
