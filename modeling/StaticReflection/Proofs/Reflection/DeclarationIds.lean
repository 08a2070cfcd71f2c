import StaticReflection.Proofs.Reflection.QueryRuns

namespace StaticReflection

/-! Declarations and what tells them apart. A table keeps every declaration under the name
that its id gives, so no two known constants share an id. -/

namespace OrderedMap

variable {κ α β : Type} [DecidableEq κ]

/-- Every value of a map is found under its key, and fits it. -/
structure Fits (map : OrderedMap κ α) (P : κ → α → Prop) : Prop where
  keyed : ∀ entry ∈ map.entries, map.find? entry.1 = some entry.2
  found : ∀ key value, map.find? key = some value → P key value

theorem fits_empty {P : κ → α → Prop} : ({} : OrderedMap κ α).Fits P :=
  ⟨fun _ member => (nomatch member), fun _ _ found => nomatch found⟩

theorem mem_insertNew {map : OrderedMap κ α} {key : κ} {value : α} {entry : κ × α}
    (member : entry ∈ (map.insertNew key value).entries) :
    entry ∈ map.entries ∨ map.find? key = none ∧ entry = (key, value) := by
  unfold insertNew contains at member
  split at member
  · exact .inl member
  · rename_i absent
    rcases List.mem_append.mp member with earlier | new
    · exact .inl earlier
    · exact .inr ⟨by simpa using absent, List.mem_singleton.mp new⟩

theorem Fits.insertNew {map : OrderedMap κ α} {P : κ → α → Prop} (fits : map.Fits P)
    {key : κ} {value : α} (added : P key value) : (map.insertNew key value).Fits P where
  keyed entry member := by
    rw [find?_insertNew]
    rcases mem_insertNew member with earlier | ⟨absent, rfl⟩
    · have known := fits.keyed entry earlier
      rw [if_neg]
      · exact known
      · rintro ⟨same, absent⟩
        rw [same, absent] at known
        cases known
    · rw [if_pos ⟨rfl, absent⟩]
  found other found known := by
    rw [find?_insertNew] at known
    split at known
    · rename_i here
      cases known
      exact here.1 ▸ added
    · exact fits.found other found known

end OrderedMap

/-- The constants of a class have ids that name the class. -/
def ClassInfo.Coherent (info : ClassInfo) : Prop :=
  info.members.constants.Fits fun key constant => constant.id = .member info.id key

namespace MemberSite

variable (site : MemberSite)

def Owns (members : Members) : Prop :=
  members.constants.Fits fun key constant => constant.id = .member site.id key

variable {site}

theorem owns_addConstants {members : Members} (owns : site.Owns members)
    (constants : List ConstantInfo)
    (ids : ∀ constant ∈ constants, constant.id = .member site.id (.exact constant.name)) :
    site.Owns (constants.foldl Members.addConstant members) :=
  List.foldlRecOn constants _ owns fun _ owns constant member =>
    owns.insertNew (ids constant member)

theorem constants_addProperties (properties : List PropertyInfo) (members : Members) :
    (properties.foldl Members.addProperty members).constants = members.constants := by
  induction properties generalizing members with
  | nil => rfl
  | cons property rest ih => rw [List.foldl_cons, ih]; rfl

theorem constant?_id {group : MemberGroup} {node : NodeId} {constant : ConstantInfo}
    (declared : site.constant? group node = some constant) :
    constant.id = .member site.id (.exact constant.name) := by
  unfold constant? at declared
  split at declared
  · cases declared
    rfl
  · cases declared

theorem owns_addMember {members : Members} (owns : site.Owns members) (node : NodeId) :
    site.Owns (site.addMember members node) := by
  unfold addMember
  split
  · dsimp only [Owns, Members.addMethod]
    rw [constants_addProperties]
    exact owns
  · dsimp only [Owns]
    rw [constants_addProperties]
    exact owns
  · refine owns_addConstants owns _ fun constant member => ?_
    obtain ⟨_, _, declared⟩ := List.mem_filterMap.mp member
    exact constant?_id declared
  · exact owns.insertNew rfl
  · exact owns

theorem owns_addMembers (site : MemberSite) (nodes : List NodeId) :
    site.Owns (nodes.foldl site.addMember {}) :=
  List.foldlRecOn (motive := site.Owns) nodes _ OrderedMap.fits_empty
    fun _ owns node _ => owns_addMember owns node

end MemberSite

theorem ClassInfo.coherent_declaredAt {id : DeclarationId} {place : PlacedBlock}
    {entry : ClassEntry} {info : ClassInfo} (declared : declaredAt? id place entry = some info) :
    info.id = id ∧ info.Coherent := by
  unfold declaredAt? at declared
  split at declared
  · rename_i decl _
    cases declared
    exact ⟨rfl, MemberSite.owns_addMembers _ decl.members⟩
  · cases declared

namespace EntityIndex

variable {index : EntityIndex} {key : NameKey}

/-- The known declarations have ids that name them. -/
theorem coherent_class {info : ClassInfo} (known : index.info? .classLike key = some info) :
    info.id = .named key ∧ info.Coherent := by
  obtain ⟨_, _, declared⟩ := Option.bind_eq_some_iff.mp known
  exact ClassInfo.coherent_declaredAt declared

theorem id_of_constant {constant : ConstantInfo}
    (known : index.info? .constant key = some constant) :
    constant.id = .global (.named key) := by
  obtain ⟨_, _, declared⟩ := Option.bind_eq_some_iff.mp known
  cases declared
  rfl

def ofFiles (files : List SourceFile) : EntityIndex :=
  files.foldl addFile {}

/-- All that is known comes from files. -/
def IsBuilt (index : EntityIndex) : Prop :=
  ∃ files, index = ofFiles files

end EntityIndex

namespace Reflector

def classAt? (r : Reflector) : DeclarationId → Option ClassInfo
  | .named key => r.index.info? .classLike key
  | .hidden serial =>
      match r.hidden[serial]? with
      | some (.classLike place entry) => ClassInfo.declaredAt? (.hidden serial) place entry
      | _ => none

/-- The constant with an id that a reflector has given away. -/
def constantAt? (r : Reflector) : ConstantId → Option ConstantInfo
  | .global (.named key) => r.index.info? .constant key
  | .global (.hidden serial) =>
      match r.hidden[serial]? with
      | some (.constant place entry) => some (.declaredAt (.hidden serial) place entry)
      | _ => none
  | .member owner key => (r.classAt? owner).bind fun info => info.members.constants.find? key

def HoldsClass (r : Reflector) (info : ClassInfo) : Prop :=
  r.classAt? info.id = some info

/-- A constant is one that a reflector may be asked about. -/
def Holds (r : Reflector) (constant : ConstantInfo) : Prop :=
  r.constantAt? constant.id = some constant

theorem Holds.unique {r : Reflector} {constant other : ConstantInfo} (held : r.Holds constant)
    (heldToo : r.Holds other) (same : constant.id = other.id) : constant = other := by
  unfold Holds at held heldToo
  rw [same, heldToo] at held
  exact (Option.some.inj held).symm

/-- A reflector that knows the same files and has given away more of what they hide. -/
structure Keeps (r next : Reflector) : Prop where
  index : next.index = r.index
  hidden : r.hidden <+: next.hidden

namespace Keeps

variable {r next : Reflector} (keeps : r.Keeps next)

include keeps

private theorem hidden_getElem? {serial : Nat} {declaration : HiddenDeclaration}
    (given : r.hidden[serial]? = some declaration) :
    next.hidden[serial]? = some declaration := by
  obtain ⟨more, appended⟩ := keeps.hidden
  obtain ⟨bound, _⟩ := List.getElem?_eq_some_iff.mp given
  rw [← appended, List.getElem?_append_left bound]
  exact given

theorem classAt? {id : DeclarationId} {info : ClassInfo} (held : r.classAt? id = some info) :
    next.classAt? id = some info := by
  cases id with
  | named key =>
      unfold Reflector.classAt? at held ⊢
      rw [keeps.index]
      exact held
  | hidden serial =>
      unfold Reflector.classAt? at held ⊢
      dsimp only at held ⊢
      split at held
      · rename_i place entry given
        rw [keeps.hidden_getElem? given]
        exact held
      · cases held

theorem constantAt? {id : ConstantId} {constant : ConstantInfo}
    (held : r.constantAt? id = some constant) : next.constantAt? id = some constant := by
  cases id with
  | global id =>
      cases id with
      | named key =>
          unfold Reflector.constantAt? at held ⊢
          rw [keeps.index]
          exact held
      | hidden serial =>
          unfold Reflector.constantAt? at held ⊢
          dsimp only at held ⊢
          split at held
          · rename_i place entry given
            rw [keeps.hidden_getElem? given]
            exact held
          · cases held
  | member owner key =>
      unfold Reflector.constantAt? at held ⊢
      obtain ⟨info, heldClass, found⟩ := Option.bind_eq_some_iff.mp held
      exact Option.bind_eq_some_iff.mpr ⟨info, keeps.classAt? heldClass, found⟩

theorem holds {constant : ConstantInfo} (held : r.Holds constant) : next.Holds constant :=
  keeps.constantAt? held

end Keeps

section Holding

variable {r : Reflector} {key : NameKey} {constant : ConstantInfo} {info : ClassInfo}

theorem holds_of_global (known : r.index.info? .constant key = some constant) :
    r.Holds constant := by
  unfold Holds
  rw [EntityIndex.id_of_constant known]
  exact known

theorem holdsClass_of_known (known : r.index.info? .classLike key = some info) :
    r.HoldsClass info := by
  unfold HoldsClass
  rw [(EntityIndex.coherent_class known).1]
  exact known

theorem coherent_of_holdsClass (held : r.HoldsClass info) : info.Coherent := by
  unfold HoldsClass classAt? at held
  split at held
  · exact (EntityIndex.coherent_class held).2
  · split at held
    · exact (ClassInfo.coherent_declaredAt held).2
    · cases held

theorem holds_of_member (held : r.HoldsClass info)
    (declared : info.members.constants.find? key = some constant) : r.Holds constant := by
  unfold Holds
  rw [(coherent_of_holdsClass held).found key constant declared]
  exact Option.bind_eq_some_iff.mpr ⟨info, held, declared⟩

end Holding

end Reflector

end StaticReflection
