import StaticReflection.Proofs.Reflection.MemberLookUp
import StaticReflection.Proofs.Reflection.Quiescence

namespace StaticReflection

/-! The first answer stays. Whatever is asked of a reflector later, and whatever becomes of
the files, a path keeps its outcome and a name its declaration. -/

/-- What a parse reads: the file at a path, or a text that is offered under it. -/
inductive Source where
  | stored (path : String)
  | written (path : String) (text : Text)

namespace Source

def path : Source → String
  | .stored path | .written path _ => path

def parse (source : Source) (cache : SourceCache) :
    Except SourceError SourceFile × SourceCache :=
  match source with
  | .stored path => cache.loadFile path
  | .written path text => cache.loadText path text

/-- The query that makes the declarations of a source known. -/
def reflect : Source → Query SourceFile
  | .stored path => Query.file path
  | .written path text => Query.text path text

end Source

/-- What can happen to a reflector. Files are written and locators change their mind
without its doing. -/
inductive Operation where
  | request (request : Request)
  | parse (source : Source)
  | store (disk : Disk)
  | relocate (locator : Locator)

/-- The operation leaves alone which paths are spellings of which. -/
def Operation.Steady (canonical : String → String) : Operation → Prop
  | .store disk => disk.canonical = canonical
  | _ => True

def Reflector.undergo (r : Reflector) : Operation → Reflector
  | .request request => r.after request
  | .parse source => { r with sources := (source.parse r.sources).2 }
  | .store disk => { r with sources := { r.sources with disk } }
  | .relocate locator => { r with locator }

def Reflector.undergoAll (r : Reflector) (operations : List Operation) : Reflector :=
  operations.foldl Reflector.undergo r

/-- A reflector that still knows and keeps all that another one did. -/
structure Reflector.Remembers (later r : Reflector) : Prop where
  sources : r.sources.Within later.sources
  index : r.index.Within later.index
  descriptors : r.descriptors.Within later.descriptors

/-- Only what is remembered where nothing is known yet depends on the source. -/
theorem Source.parse_eq_remember (source : Source) (cache : SourceCache) :
    ∃ fresh, source.parse cache = cache.remember (cache.key source.path) fresh := by
  cases source with
  | stored path =>
      exact ⟨fun _ => SourceCache.parseStored cache.disk (cache.disk.canonical path), rfl⟩
  | written path text =>
      exact ⟨fun _ => SourceCache.checkSyntax (.parse (cache.disk.canonical path) text), rfl⟩

theorem Source.within_parse (source : Source) (cache : SourceCache) :
    cache.Within (source.parse cache).2 := by
  obtain ⟨fresh, same⟩ := source.parse_eq_remember cache
  rw [same]
  exact cache.within_remember _ fresh

theorem Reflector.remembers_undergo {r : Reflector} {operation : Operation}
    (steady : operation.Steady r.sources.disk.canonical) :
    (r.undergo operation).Remembers r := by
  cases operation with
  | request request =>
      have step := request.step r
      exact ⟨step.sources, step.declared, step.described⟩
  | parse source =>
      exact ⟨source.within_parse r.sources, r.index.within_refl, r.descriptors.within_refl⟩
  | store disk =>
      exact ⟨⟨steady, OrderedMap.within_refl _⟩, r.index.within_refl, r.descriptors.within_refl⟩
  | relocate locator =>
      exact ⟨r.sources.within_refl, r.index.within_refl, r.descriptors.within_refl⟩

theorem Reflector.remembers_undergoAll {r : Reflector} {operations : List Operation}
    (steady : ∀ operation ∈ operations, operation.Steady r.sources.disk.canonical) :
    (r.undergoAll operations).Remembers r := by
  induction operations generalizing r with
  | nil => exact ⟨r.sources.within_refl, r.index.within_refl, r.descriptors.within_refl⟩
  | cons operation rest ih =>
      have first := remembers_undergo (steady operation (by simp))
      have second : ((r.undergo operation).undergoAll rest).Remembers (r.undergo operation) := by
        apply ih
        intro other member
        rw [first.sources.canonical]
        exact steady other (List.mem_cons_of_mem _ member)
      exact ⟨first.sources.trans second.sources, first.index.trans second.index,
        first.descriptors.trans second.descriptors⟩

namespace SourceCache

variable {cache : SourceCache} {outcome : Except SourceError SourceFile}

theorem remember_of_known {key : PathKey} (known : cache.outcomes.find? key = some outcome)
    (fresh : Unit → Except SourceError SourceFile) :
    cache.remember key fresh = (outcome, cache) := by
  rw [remember, known]

theorem find?_remember (cache : SourceCache) (key : PathKey)
    (fresh : Unit → Except SourceError SourceFile) :
    (cache.remember key fresh).2.outcomes.find? key = some (cache.remember key fresh).1 := by
  unfold remember
  cases known : cache.outcomes.find? key with
  | some outcome => exact known
  | none => simp [OrderedMap.find?_insertNew, known]

theorem Within.key_eq {later : SourceCache} (within : cache.Within later) (path : String) :
    later.key path = cache.key path := by
  rw [key, key, within.canonical]

end SourceCache

namespace Source

variable {cache : SourceCache} {outcome : Except SourceError SourceFile}

theorem parse_of_known (source : Source)
    (known : cache.outcomes.find? (cache.key source.path) = some outcome) :
    source.parse cache = (outcome, cache) := by
  obtain ⟨fresh, same⟩ := source.parse_eq_remember cache
  rw [same, SourceCache.remember_of_known known]

theorem find?_parse (source : Source) (cache : SourceCache) :
    (source.parse cache).2.outcomes.find? (cache.key source.path) =
      some (source.parse cache).1 := by
  obtain ⟨fresh, same⟩ := source.parse_eq_remember cache
  rw [same]
  exact cache.find?_remember _ fresh

theorem result_reflect (source : Source) (r : Reflector) :
    source.reflect.result r = (source.parse r.sources).1.mapError .source := by
  have same : source.reflect = (do
      let file ← Query.withSources source.parse
      Query.addFile file
      return file) := by
    cases source <;> rfl
  rw [same, Query.result_bind]
  unfold Query.withSources
  rw [Query.result_get_bind, Query.result_modify_bind]
  cases (source.parse r.sources).1 <;> rfl

end Source

/-! Names. A leading separator and the case of letters do not count in the name of a class,
and a separator has no case. -/

theorem toLower_eq_separator {c : Char} : c.toLower = '\\' ↔ c = '\\' := by
  unfold Char.toLower
  split
  next upper =>
    have lowest : 65 ≤ c.val.toNat := upper.1
    have highest : c.val.toNat ≤ 90 := upper.2
    constructor
    · intro same
      have moved : (c.val.toNat + 32) % 2 ^ 32 = 92 := congrArg (·.val.toNat) same
      omega
    · rintro rfl
      exact absurd highest (by decide)
  next => rfl

theorem stripSeparator_foldCase (name : String) :
    stripSeparator (foldCase name) = foldCase (stripSeparator name) := by
  unfold stripSeparator foldCase
  rw [String.toList_ofList]
  cases chars : name.toList with
  | nil => simp [chars]
  | cons c rest =>
      by_cases separator : c = '\\'
      · have same : Char.toLower '\\' = '\\' := rfl
        simp [separator, same]
      · have apart : c.toLower ≠ '\\' := mt toLower_eq_separator.mp separator
        simp [chars, separator, apart]

theorem folded_stripSeparator_congr {again name : String}
    (same : NameKey.folded again = NameKey.folded name) :
    NameKey.folded (stripSeparator again) = NameKey.folded (stripSeparator name) := by
  have texts : foldCase (stripSeparator again) = foldCase (stripSeparator name) :=
    congrArg NameKey.text same
  unfold NameKey.folded
  rw [← stripSeparator_foldCase (stripSeparator again), texts, stripSeparator_foldCase]

/-- What a look-up found is there after any operations that follow it. -/
theorem Reflector.remembers_lookUp {α : Type} {query : Query α} (looks : query.Looks)
    {r : Reflector} {operations : List Operation}
    (steady : ∀ operation ∈ operations, operation.Steady r.sources.disk.canonical) :
    ((query.next r).undergoAll operations).Remembers (query.next r) := by
  apply remembers_undergoAll
  rw [(looks.next r).sources.canonical]
  exact steady

theorem first_answers_stay (r : Reflector) (operations : List Operation)
    (steady : ∀ operation ∈ operations, operation.Steady r.sources.disk.canonical) :
    (∀ source : Source, (source.parse r.sources).2.outcomes.find? (r.sources.key source.path) =
      some (source.parse r.sources).1) ∧
    (∀ key outcome, r.sources.outcomes.find? key = some outcome →
      ∀ source : Source, r.sources.key source.path = key →
        let later := r.undergoAll operations
        source.parse later.sources = (outcome, later.sources) ∧
          source.reflect.result later = outcome.mapError .source) ∧
    r.index.Within (r.undergoAll operations).index ∧
    (∀ name descriptor, (Query.describeClass name).result r = .ok descriptor →
      ∀ again, NameKey.folded (stripSeparator again) = NameKey.folded (stripSeparator name) →
        let later := ((Query.describeClass name).next r).undergoAll operations
        (Query.describeClass again).result later = .ok descriptor) ∧
    (∀ name descriptor, (Query.describeFunction name).result r = .ok descriptor →
      ∀ again, NameKey.folded again = NameKey.folded name →
        let later := ((Query.describeFunction name).next r).undergoAll operations
        (Query.describeFunction again).result later = .ok descriptor) ∧
    ∀ name descriptor, (Query.describeConstant name).result r = .ok descriptor →
      ∀ again, NameKey.constant again = NameKey.constant name →
        let later := ((Query.describeConstant name).next r).undergoAll operations
        (Query.describeConstant again).result later = .ok descriptor := by
  refine ⟨fun source => source.find?_parse r.sources, ?_,
    (Reflector.remembers_undergoAll steady).index, ?_, ?_, ?_⟩
  · rintro key outcome known source rfl later
    have within := (Reflector.remembers_undergoAll steady).sources
    have still : later.sources.outcomes.find? (later.sources.key source.path) = some outcome := by
      rw [within.key_eq]
      exact within.outcomes _ _ known
    have parsed := source.parse_of_known still
    rw [source.result_reflect, parsed]
    exact ⟨rfl, rfl⟩
  · intro name descriptor answered again same later
    have remembers := Reflector.remembers_lookUp (Query.describeClass_looks name) steady
    have kept := remembers.descriptors .classLike _ _ (Query.kept_after_describeClass answered)
    rw [← same] at kept
    exact congrArg Prod.fst (Query.describeClass_of_kept kept)
  · intro name descriptor answered again same later
    have remembers :=
      Reflector.remembers_lookUp (Query.describeFunction_notes name).looks steady
    have kept := remembers.descriptors .function _ _ (Query.kept_after_describeKnown answered)
    rw [← same] at kept
    exact Query.describeKnown_of_kept kept
  · intro name descriptor answered again same later
    have remembers :=
      Reflector.remembers_lookUp (Query.describeConstant_notes name).looks steady
    have kept := remembers.descriptors .constant _ _ (Query.kept_after_describeKnown answered)
    rw [← same] at kept
    exact Query.describeKnown_of_kept kept

/-! Which paths are spellings of which depends on the names of the files, not on what they
hold. -/

namespace Disk

variable {disk other : Disk}

theorem isDirectory_congr (same : other.files.map (·.1) = disk.files.map (·.1))
    (components : List String) : other.isDirectory components = disk.isDirectory components := by
  have anyName (files : List (List String × List UInt8)) :
      (files.any fun file => components.isPrefixOf file.1 && file.1 != components) =
        (files.map (·.1)).any fun name => components.isPrefixOf name && name != components := by
    rw [List.any_map]
    rfl
  rw [isDirectory, isDirectory, anyName, anyName, same]

theorem isSome_contents? (disk : Disk) (components : List String) :
    (disk.contents? components).isSome = (disk.files.map (·.1)).contains components := by
  unfold contents?
  induction disk.files with
  | nil => rfl
  | cons file rest ih =>
      rw [List.lookup_cons, List.map_cons, List.contains_cons, ← ih]
      cases components == file.1 <;> rfl

theorem descend?_congr (same : other.files.map (·.1) = disk.files.map (·.1)) :
    other.descend? = disk.descend? := by
  funext place part
  unfold descend? holds
  simp only [isDirectory_congr same, isSome_contents?, same]

theorem canonical_congr (same : other.files.map (·.1) = disk.files.map (·.1)) :
    other.canonical = disk.canonical := by
  funext path
  rw [canonical, canonical, resolve?, resolve?, descend?_congr same]

end Disk

/-- A class keeps its descriptor when its file is rewritten, when a text with an error is
offered under its path and when another file declares it too. -/
theorem user_stays_on_rewritten_disk :
    let user (text : String) : Disk := ⟨[(["app", "user.php"], text.toUTF8.toList)]⟩
    let locator : Locator := .byFunction fun _ => some "/app/user.php"
    let r := Reflector.new {} locator { disk := user "<?php namespace App; class User \x7b\x7d" }
    let operations : List Operation := [
      .store (user "<?php namespace App; interface User \x7b\x7d"),
      .relocate .nowhere,
      .parse (.written "/app/./user.php" "<?php class".toList),
      .request (.loadText "/user.php" "<?php namespace app; trait USER \x7b\x7d".toList)]
    let later := ((Query.describeClass "App\\User").next r).undergoAll operations
    ∃ descriptor, descriptor.info.name = "App\\User" ∧
      (Query.describeClass "App\\User").result r = .ok descriptor ∧
      (Query.describeClass "\\APP\\user").result later = .ok descriptor := by
  intro user locator r operations later
  have named : ((Query.describeClass "App\\User").result r).toOption.map (·.info.name) =
      some "App\\User" := by decide +kernel
  have steady : ∀ operation ∈ operations, operation.Steady r.sources.disk.canonical := by
    simp only [operations, List.forall_mem_cons]
    exact ⟨Disk.canonical_congr rfl, trivial, trivial, trivial,
      fun _ absent => absurd absent List.not_mem_nil⟩
  obtain ⟨descriptor, given, name⟩ := Option.map_eq_some_iff.mp named
  have answered := Query.ok_of_toOption given
  have stays := (first_answers_stay r operations steady).2.2.2.1
  exact ⟨descriptor, name, answered, stays _ descriptor answered "\\APP\\user"
    (folded_stripSeparator_congr (by decide))⟩

end StaticReflection
