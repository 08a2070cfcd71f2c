import StaticReflection.Proofs.OrderedMap
import StaticReflection.Reflection.Class

namespace StaticReflection

/-! The declarations of all known files, and the descriptors that are built for them. -/

/-- What can be declared under a name. -/
inductive DeclarationKind where
  | classLike
  | function
  | constant
  deriving DecidableEq, Repr

/-- What a block lists of a declaration. -/
@[reducible] def DeclarationKind.Entry : DeclarationKind → Type
  | .classLike => ClassEntry
  | .function => FunctionEntry
  | .constant => ConstantEntry

/-- What reflection knows of a declaration. -/
@[reducible] def DeclarationKind.Info : DeclarationKind → Type
  | .classLike => ClassInfo
  | .function => FunctionInfo
  | .constant => ConstantInfo

/-- What is known of a declaration that has a name, read off the block that it stands in. -/
def DeclarationKind.infoAt? : (kind : DeclarationKind) → NameKey → PlacedBlock × kind.Entry →
    Option kind.Info
  | .classLike, key, (place, entry) => ClassInfo.declaredAt? (.named key) place entry
  | .function, _, (place, entry) => FunctionInfo.declaredAt? place entry
  | .constant, key, (place, entry) => some (.declaredAt (.named key) place entry)

/-- The declarations of all known files, and where they stand. The first declaration of a name
counts. -/
structure EntityIndex where
  files : List PathKey := []
  classes : OrderedMap NameKey (PlacedBlock × ClassEntry) := {}
  functions : OrderedMap NameKey (PlacedBlock × FunctionEntry) := {}
  constants : OrderedMap NameKey (PlacedBlock × ConstantEntry) := {}

namespace EntityIndex

/-- Adds what a block declares under names that are new. -/
def addEntries {α : Type} (place : PlacedBlock) (entries : OrderedMap NameKey α)
    (table : OrderedMap NameKey (PlacedBlock × α)) : OrderedMap NameKey (PlacedBlock × α) :=
  entries.entries.foldl (fun table (key, entry) => table.insertNew key (place, entry)) table

def addBlock (index : EntityIndex) (place : PlacedBlock) : EntityIndex :=
  let entities := place.block.entities
  { index with
    classes := addEntries place entities.classes index.classes
    functions := addEntries place entities.functions index.functions
    constants := addEntries place entities.constants index.constants }

/-- Adds the declarations of a file that is not known yet. -/
def addFile (index : EntityIndex) (file : SourceFile) : EntityIndex :=
  let key := PathKey.ofPath file.path
  if index.files.contains key then index
  else file.placedBlocks.foldl addBlock { index with files := index.files ++ [key] }

/-- The declarations of a kind. -/
def declared (index : EntityIndex) :
    (kind : DeclarationKind) → OrderedMap NameKey (PlacedBlock × kind.Entry)
  | .classLike => index.classes
  | .function => index.functions
  | .constant => index.constants

/-- What is known of the declaration that has a name. -/
def info? (index : EntityIndex) (kind : DeclarationKind) (key : NameKey) : Option kind.Info :=
  ((index.declared kind).find? key).bind (kind.infoAt? key)

def class? (index : EntityIndex) (name : String) : Option ClassInfo :=
  index.info? .classLike (.folded name)

def function? (index : EntityIndex) (name : String) : Option FunctionInfo :=
  index.info? .function (.folded name)

def constant? (index : EntityIndex) (name : String) : Option ConstantInfo :=
  index.info? .constant (.constant name)

/-- Whether a function is declared under a name. -/
def hasFunction (index : EntityIndex) (name : String) : Bool :=
  index.functions.contains (.folded name)

/-- The declarations of an index are those of a later one too. -/
structure Within (index later : EntityIndex) : Prop where
  classes : index.classes.Within later.classes
  functions : index.functions.Within later.functions
  constants : index.constants.Within later.constants

theorem within_refl (index : EntityIndex) : index.Within index :=
  ⟨OrderedMap.within_refl _, OrderedMap.within_refl _, OrderedMap.within_refl _⟩

theorem Within.trans {a b c : EntityIndex} (first : a.Within b) (second : b.Within c) :
    a.Within c :=
  ⟨first.classes.trans second.classes, first.functions.trans second.functions,
    first.constants.trans second.constants⟩

/-- The first declaration of a name stays when more are added. -/
theorem within_addEntries {α : Type} (place : PlacedBlock) (entries : OrderedMap NameKey α)
    (table : OrderedMap NameKey (PlacedBlock × α)) :
    table.Within (addEntries place entries table) :=
  List.foldlRecOn (motive := table.Within) _ _ (OrderedMap.within_refl _)
    fun later within _ _ => within.trans (later.within_insertNew _ _)

theorem within_addBlock (index : EntityIndex) (place : PlacedBlock) :
    index.Within (index.addBlock place) :=
  ⟨within_addEntries place _ _, within_addEntries place _ _, within_addEntries place _ _⟩

theorem within_addFile (index : EntityIndex) (file : SourceFile) :
    index.Within (index.addFile file) := by
  unfold addFile
  dsimp only
  split
  · exact index.within_refl
  · refine List.foldlRecOn (motive := index.Within) _ _ ?_ fun later within place _ =>
      within.trans (later.within_addBlock place)
    exact ⟨OrderedMap.within_refl _, OrderedMap.within_refl _, OrderedMap.within_refl _⟩

namespace Within

variable {index later : EntityIndex} (within : index.Within later)

include within

theorem declared (kind : DeclarationKind) :
    (index.declared kind).Within (later.declared kind) := by
  cases kind with
  | classLike => exact within.classes
  | function => exact within.functions
  | constant => exact within.constants

theorem info? {kind : DeclarationKind} {key : NameKey} {info : kind.Info}
    (known : index.info? kind key = some info) : later.info? kind key = some info := by
  obtain ⟨declaration, found, given⟩ := Option.bind_eq_some_iff.mp known
  exact Option.bind_eq_some_iff.mpr
    ⟨declaration, within.declared kind key declaration found, given⟩

end Within

end EntityIndex

/-- What is built for a declaration that is asked for. The number tells it from everything
else that is built, also from what is built for the same declaration again. -/
structure Descriptor (α : Type) where
  serial : Nat
  info : α

/-- The descriptors that are kept, under the names of their declarations. -/
structure Descriptors where
  classes : OrderedMap NameKey (Descriptor ClassInfo) := {}
  functions : OrderedMap NameKey (Descriptor FunctionInfo) := {}
  constants : OrderedMap NameKey (Descriptor ConstantInfo) := {}
  /-- How many were built. -/
  built : Nat := 0

namespace Descriptors

/-- The descriptors of the declarations of a kind. -/
def ofKind (descriptors : Descriptors) :
    (kind : DeclarationKind) → OrderedMap NameKey (Descriptor kind.Info)
  | .classLike => descriptors.classes
  | .function => descriptors.functions
  | .constant => descriptors.constants

/-- The descriptor that is built next, of some declaration. -/
def fresh {α : Type} (descriptors : Descriptors) (info : α) : Descriptor α :=
  ⟨descriptors.built, info⟩

/-- Counts a descriptor that was built for a declaration, and keeps it. -/
def keep (descriptors : Descriptors) :
    (kind : DeclarationKind) → NameKey → Descriptor kind.Info → Descriptors
  | .classLike, key, descriptor =>
      { descriptors with
        classes := descriptors.classes.insertNew key descriptor
        built := descriptors.built + 1 }
  | .function, key, descriptor =>
      { descriptors with
        functions := descriptors.functions.insertNew key descriptor
        built := descriptors.built + 1 }
  | .constant, key, descriptor =>
      { descriptors with
        constants := descriptors.constants.insertNew key descriptor
        built := descriptors.built + 1 }

/-- What is kept stays. -/
def Within (descriptors later : Descriptors) : Prop :=
  ∀ kind, (descriptors.ofKind kind).Within (later.ofKind kind)

/-- Every descriptor is that of the declaration that has its name, and no other one has its
number. -/
structure AgreeWith (descriptors : Descriptors) (index : EntityIndex) : Prop where
  declared : ∀ kind key descriptor, (descriptors.ofKind kind).find? key = some descriptor →
    index.info? kind key = some descriptor.info
  numbered : ∀ kind key descriptor, (descriptors.ofKind kind).find? key = some descriptor →
    descriptor.serial < descriptors.built
  apart : ∀ kind key descriptor other otherKey otherDescriptor,
    (descriptors.ofKind kind).find? key = some descriptor →
    (descriptors.ofKind other).find? otherKey = some otherDescriptor →
    descriptor.serial = otherDescriptor.serial → kind = other ∧ key = otherKey

theorem within_refl (descriptors : Descriptors) : descriptors.Within descriptors :=
  fun _ => OrderedMap.within_refl _

theorem Within.trans {a b c : Descriptors} (first : a.Within b) (second : b.Within c) :
    a.Within c :=
  fun kind => (first kind).trans (second kind)

theorem agreeWith_of_none (index : EntityIndex) : ({} : Descriptors).AgreeWith index where
  declared kind key descriptor found := by cases kind <;> cases found
  numbered kind key descriptor found := by cases kind <;> cases found
  apart kind key descriptor other otherKey otherDescriptor found := by
    cases kind <;> cases found

variable {descriptors : Descriptors} {index later : EntityIndex}

theorem AgreeWith.within (agree : descriptors.AgreeWith index) (within : index.Within later) :
    descriptors.AgreeWith later where
  declared kind key descriptor found := within.info? (agree.declared kind key descriptor found)
  numbered := agree.numbered
  apart := agree.apart

section Keeping

variable {kind : DeclarationKind} {key : NameKey} {descriptor : Descriptor kind.Info}

theorem built_keep : (descriptors.keep kind key descriptor).built = descriptors.built + 1 := by
  cases kind <;> rfl

theorem ofKind_keep : (descriptors.keep kind key descriptor).ofKind kind =
    (descriptors.ofKind kind).insertNew key descriptor := by
  cases kind <;> rfl

theorem ofKind_keep_of_ne {other : DeclarationKind} (apart : other ≠ kind) :
    (descriptors.keep kind key descriptor).ofKind other = descriptors.ofKind other := by
  cases kind <;> cases other <;> first | rfl | exact absurd rfl apart

theorem within_keep : descriptors.Within (descriptors.keep kind key descriptor) := by
  intro other
  by_cases same : other = kind
  · subst same
    rw [ofKind_keep]
    exact OrderedMap.within_insertNew _ key descriptor
  · rw [ofKind_keep_of_ne same]
    exact OrderedMap.within_refl _

/-- What is kept afterwards was kept before, or is the one that was added. -/
theorem kept_of_keep {other : DeclarationKind} {otherKey : NameKey}
    {found : Descriptor other.Info}
    (kept : ((descriptors.keep kind key descriptor).ofKind other).find? otherKey = some found) :
    (descriptors.ofKind other).find? otherKey = some found ∨
      ∃ same : other = kind, otherKey = key ∧ same ▸ found = descriptor := by
  by_cases same : other = kind
  · subst same
    rw [ofKind_keep, OrderedMap.find?_insertNew] at kept
    split at kept
    · rename_i new
      cases kept
      exact .inr ⟨rfl, new.1, rfl⟩
    · exact .inl kept
  · rw [ofKind_keep_of_ne same] at kept
    exact .inl kept

end Keeping

theorem AgreeWith.keep {kind : DeclarationKind} {key : NameKey} {info : kind.Info}
    (agree : descriptors.AgreeWith index)
    (known : index.info? kind key = some info) :
    (descriptors.keep kind key (descriptors.fresh info)).AgreeWith index where
  declared other otherKey found kept := by
    obtain earlier | ⟨rfl, rfl, rfl⟩ := kept_of_keep kept
    · exact agree.declared other otherKey found earlier
    · exact known
  numbered other otherKey found kept := by
    rw [built_keep]
    obtain earlier | ⟨rfl, rfl, rfl⟩ := kept_of_keep kept
    · exact Nat.lt_succ_of_lt (agree.numbered other otherKey found earlier)
    · exact Nat.lt_succ_self _
  apart first firstKey found other otherKey foundToo kept keptToo same := by
    obtain earlier | ⟨rfl, rfl, rfl⟩ := kept_of_keep kept <;>
      obtain earlierToo | ⟨rfl, rfl, rfl⟩ := kept_of_keep keptToo
    · exact agree.apart first firstKey found other otherKey foundToo earlier earlierToo same
    · exact absurd same (Nat.ne_of_lt (agree.numbered first firstKey found earlier))
    · exact absurd same.symm (Nat.ne_of_lt (agree.numbered other otherKey foundToo earlierToo))
    · exact ⟨rfl, rfl⟩

end Descriptors

end StaticReflection
