import StaticReflection.Proofs.Reflection.FirstAnswers
import StaticReflection.Proofs.Scanner.Locality

namespace StaticReflection

/-! The spelling of names. What a name means in a namespace is the same whatever the case of
its letters, but for the last segment of the name of a constant. -/

/-! Folding. -/

@[simp] theorem toList_foldCase (text : String) :
    (foldCase text).toList = text.toList.map Char.toLower := by
  rw [foldCase, String.toList_ofList]

theorem toLower_toLower (c : Char) : c.toLower.toLower = c.toLower := by
  have stays : ∀ d : Char, ¬ (d.val ≥ 'A'.val ∧ d.val ≤ 'Z'.val) → d.toLower = d :=
    fun d notUpper => dif_neg notUpper
  by_cases upper : c.val ≥ 'A'.val ∧ c.val ≤ 'Z'.val
  · apply stays
    rintro ⟨_, highest⟩
    have lowestBefore : 65 ≤ c.val.toNat := upper.1
    have highestBefore : c.val.toNat ≤ 90 := upper.2
    have moved : c.toLower.val = c.val + 32 := by
      unfold Char.toLower
      rw [dif_pos upper]
      rfl
    rw [moved] at highest
    have highest : (c.val.toNat + 32) % 2 ^ 32 ≤ 90 := highest
    omega
  · rw [stays c upper, stays c upper]

@[simp] theorem foldCase_foldCase (text : String) : foldCase (foldCase text) = foldCase text := by
  apply String.toList_inj.mp
  simp only [toList_foldCase, List.map_map]
  exact List.map_congr_left fun c _ => toLower_toLower c

@[simp] theorem foldCase_append (a b : String) : foldCase (a ++ b) = foldCase a ++ foldCase b := by
  apply String.toList_inj.mp
  simp

theorem foldCase_eq_empty {text : String} : foldCase text = "" ↔ text = "" := by
  rw [← String.toList_eq_nil_iff, ← String.toList_eq_nil_iff, toList_foldCase,
    List.map_eq_nil_iff]

theorem foldCase_joinSegments (parts : List String) :
    foldCase (joinSegments parts) = joinSegments (parts.map foldCase) := by
  unfold joinSegments
  induction parts with
  | nil => rfl
  | cons part rest ih =>
      cases rest with
      | nil => simp
      | cons next rest =>
          rw [List.map_cons] at ih
          rw [List.map_cons, List.map_cons, String.intercalate_cons_cons,
            String.intercalate_cons_cons, foldCase_append, foldCase_append, ih]
          rfl

theorem foldCase_joinNamespace (space short : String) :
    foldCase (joinNamespace space short) = joinNamespace (foldCase space) (foldCase short) := by
  unfold joinNamespace
  simp only [foldCase_eq_empty]
  split
  · rfl
  · rw [foldCase_append, foldCase_append]
    rfl

theorem folded_congr {a b : String} (same : foldCase a = foldCase b) :
    NameKey.folded a = NameKey.folded b := by
  unfold NameKey.folded
  rw [← stripSeparator_foldCase, ← stripSeparator_foldCase, same]

theorem folded_foldCase (text : String) : NameKey.folded (foldCase text) = .folded text :=
  folded_congr (foldCase_foldCase text)

/-! A name keeps its form and its segments. -/

theorem splitOn_map_toLower (chars : List Char) :
    (chars.map Char.toLower).splitOn '\\' = (chars.splitOn '\\').map (·.map Char.toLower) := by
  induction chars with
  | nil => rfl
  | cons c rest ih =>
      have same : (c.toLower == '\\') = (c == '\\') := by
        rw [Bool.eq_iff_iff, beq_iff_eq, beq_iff_eq, toLower_eq_separator]
      rw [List.map_cons, List.splitOn_cons_eq_if_modifyHead,
        List.splitOn_cons_eq_if_modifyHead, same, ih]
      split
      · rfl
      · cases rest.splitOn '\\' <;> rfl

theorem nameSegments_map_toLower (chars : List Char) :
    nameSegments (chars.map Char.toLower) = (nameSegments chars).map foldCase := by
  unfold nameSegments
  rw [splitOn_map_toLower, List.filter_map, List.map_map, List.map_map]
  have kept : ((fun part : List Char => decide (part ≠ [])) ∘ fun part => part.map Char.toLower) =
      fun part => decide (part ≠ []) := by
    funext part
    simp
  rw [kept]
  exact List.map_congr_left fun part _ => by simp [foldCase]

/-- The name with all its segments in lower case. -/
def QualifiedName.fold (name : QualifiedName) : QualifiedName :=
  ⟨name.form, name.parts.map foldCase⟩

namespace QualifiedName

theorem parse_of_separator {text : String} {rest : List Char}
    (chars : text.toList = '\\' :: rest) :
    parse text = ⟨.fullyQualified, nameSegments rest⟩ := by
  unfold parse
  split
  · rename_i others split
    cases chars.symm.trans split
    rfl
  · rename_i noSeparator
    exact absurd chars (noSeparator rest)

theorem parse_of_head_ne {text : String} (other : text.toList.head? ≠ some '\\') :
    parse text =
      if (text.toList.take relativeMarker.length).map Char.toLower = relativeMarker then
        ⟨.relative, nameSegments (text.toList.drop relativeMarker.length)⟩
      else if text.toList.contains '\\' then ⟨.qualified, nameSegments text.toList⟩
      else ⟨.unqualified, nameSegments text.toList⟩ := by
  unfold parse
  split
  · rename_i chars
    exact absurd (by rw [chars]; rfl) other
  · rfl

theorem contains_separator_map_toLower (chars : List Char) :
    (chars.map Char.toLower).contains '\\' = chars.contains '\\' := by
  rw [Bool.eq_iff_iff, List.contains_iff_mem, List.contains_iff_mem, List.mem_map]
  simp only [toLower_eq_separator, exists_eq_right]

theorem parse_foldCase (text : String) : parse (foldCase text) = (parse text).fold := by
  by_cases separator : text.toList.head? = some '\\'
  · obtain ⟨rest, chars⟩ := List.head?_eq_some_iff.mp separator
    have folded : (foldCase text).toList = '\\' :: rest.map Char.toLower := by
      rw [toList_foldCase, chars]
      rfl
    rw [parse_of_separator chars, parse_of_separator folded, nameSegments_map_toLower]
    rfl
  · have folded : (foldCase text).toList.head? ≠ some '\\' := by
      rw [toList_foldCase, List.head?_map]
      cases first : text.toList.head? with
      | none => nofun
      | some c => simpa [first, toLower_eq_separator] using separator
    have marked : ((text.toList.map Char.toLower).take relativeMarker.length).map Char.toLower =
        (text.toList.take relativeMarker.length).map Char.toLower := by
      rw [← List.map_take, List.map_map]
      exact List.map_congr_left fun c _ => toLower_toLower c
    rw [parse_of_head_ne separator, parse_of_head_ne folded, toList_foldCase, marked,
      contains_separator_map_toLower, ← List.map_drop, nameSegments_map_toLower,
      nameSegments_map_toLower]
    split
    · rfl
    · split <;> rfl

theorem fold_congr {a b : String} (same : foldCase a = foldCase b) :
    (parse a).fold = (parse b).fold := by
  rw [← parse_foldCase, ← parse_foldCase, same]

section Folded

variable (name : QualifiedName)

theorem foldCase_joined : foldCase name.joined = name.fold.joined :=
  foldCase_joinSegments name.parts

theorem foldCase_tail : foldCase name.tail = name.fold.tail := by
  unfold tail fold
  rw [foldCase_joinSegments, List.map_tail]

theorem foldCase_first : foldCase name.first = name.fold.first := by
  unfold first fold
  rw [List.head?_map]
  cases name.parts.head? <;> rfl

end Folded

section Congr

variable {name other : QualifiedName} (same : name.fold = other.fold)

include same

theorem form_congr : name.form = other.form :=
  (congrArg form same :)

theorem joined_congr : foldCase name.joined = foldCase other.joined := by
  rw [foldCase_joined, foldCase_joined, same]

theorem tail_congr : foldCase name.tail = foldCase other.tail := by
  rw [foldCase_tail, foldCase_tail, same]

theorem first_congr : foldCase name.first = foldCase other.first := by
  rw [foldCase_first, foldCase_first, same]

theorem length_parts_congr : name.parts.length = other.parts.length := by
  have folded := congrArg (·.parts.length) same
  simpa [fold] using folded

end Congr

end QualifiedName

/-! Resolution commutes with folding. -/

theorem class?_congr (table : ImportTable) {a b : String} (same : foldCase a = foldCase b) :
    table.class? a = table.class? b := by
  unfold ImportTable.class?
  rw [folded_congr same]

theorem function?_congr (table : ImportTable) {a b : String} (same : foldCase a = foldCase b) :
    table.function? a = table.function? b := by
  unfold ImportTable.function?
  rw [folded_congr same]

namespace Resolver

variable (resolver : Resolver) {text again : String}

theorem foldCase_qualified {name other : QualifiedName} (same : name.fold = other.fold) :
    foldCase (resolver.qualified name) = foldCase (resolver.qualified other) := by
  unfold qualified
  rw [class?_congr _ (QualifiedName.first_congr same)]
  split
  · simp only [foldCase_append, QualifiedName.tail_congr same]
  · rw [foldCase_joinNamespace, foldCase_joinNamespace, QualifiedName.joined_congr same]

theorem foldCase_classNamed (same : foldCase text = foldCase again) :
    foldCase (resolver.classNamed text) = foldCase (resolver.classNamed again) := by
  have parsed := QualifiedName.fold_congr same
  have joined := QualifiedName.joined_congr parsed
  have special : isSpecialClass text = isSpecialClass again := by
    unfold isSpecialClass
    rw [same]
  unfold classNamed
  rw [special]
  split
  · exact same
  · dsimp only
    rw [QualifiedName.form_congr parsed]
    split
    · exact joined
    · rw [foldCase_joinNamespace, foldCase_joinNamespace, joined]
    · exact resolver.foldCase_qualified parsed
    · rw [class?_congr _ (QualifiedName.first_congr parsed)]
      cases resolver.imports.class? (QualifiedName.parse again).first with
      | some target => rfl
      | none =>
          simp only [Option.getD_none, foldCase_joinNamespace, joined]

theorem foldCase_candidates (same : foldCase text = foldCase again) (imported : Option String) :
    (resolver.candidates text imported).map foldCase =
      (resolver.candidates again imported).map foldCase := by
  have parsed := QualifiedName.fold_congr same
  have joined := QualifiedName.joined_congr parsed
  unfold candidates
  dsimp only
  rw [QualifiedName.form_congr parsed]
  split
  · simp only [List.map_singleton, joined]
  · simp only [List.map_singleton, foldCase_joinNamespace, joined]
  · simp only [List.map_singleton, resolver.foldCase_qualified parsed]
  · cases imported with
    | some target => rfl
    | none =>
        dsimp only
        split <;> simp only [List.map_cons, List.map_nil, foldCase_joinNamespace, same]

end Resolver

/-! Names of constants. The namespace is folded and the short name is not. -/

theorem splitNamespace_foldCase (name : String) :
    splitNamespace (foldCase name) =
      (foldCase (splitNamespace name).1, foldCase (splitNamespace name).2) := by
  have kept : ((fun c : Char => decide (c ≠ '\\')) ∘ Char.toLower) =
      fun c => decide (c ≠ '\\') := by
    funext c
    simp [toLower_eq_separator]
  unfold splitNamespace
  rw [stripSeparator_foldCase, toList_foldCase]
  simp only [← List.map_reverse, List.takeWhile_map, kept, List.length_map, List.length_reverse]
  split <;> simp [foldCase, List.map_take, List.map_reverse]

theorem takeWhile_append_separator (before after : List Char) :
    (before ++ '\\' :: after).takeWhile (· ≠ '\\') = before.takeWhile (· ≠ '\\') := by
  rw [List.takeWhile_append]
  split
  · rename_i whole
    rw [List.takeWhile_cons_of_neg (by simp), List.append_nil]
    exact ((List.takeWhile_prefix _).eq_of_length whole).symm
  · rfl

theorem splitNamespace_snd (name : String) : (splitNamespace name).2 = shortName name := by
  have stripped : (stripSeparator name).toList.reverse.takeWhile (· ≠ '\\') =
      name.toList.reverse.takeWhile (· ≠ '\\') := by
    unfold stripSeparator
    split
    · rename_i rest chars
      rw [String.toList_ofList, chars, List.reverse_cons, takeWhile_append_separator]
    · rfl
  unfold splitNamespace shortName
  dsimp only
  rw [stripped]
  split
  · rename_i whole
    have all : (stripSeparator name).toList.reverse.takeWhile (· ≠ '\\') =
        (stripSeparator name).toList.reverse := by
      refine (List.takeWhile_prefix _).eq_of_length ?_
      rw [stripped]
      simpa using whole
    rw [← stripped, all, List.reverse_reverse]
  · rfl

/-- The key of a constant depends on the short name and, up to case, on the whole name. -/
theorem constant_congr {a b : String} (same : foldCase a = foldCase b)
    (short : shortName a = shortName b) : NameKey.constant a = NameKey.constant b := by
  have split : splitNamespace (foldCase a) = splitNamespace (foldCase b) := by rw [same]
  rw [splitNamespace_foldCase, splitNamespace_foldCase] at split
  have space := (Prod.mk.injEq _ _ _ _ ▸ split).1
  have empty : (splitNamespace a).1 = "" ↔ (splitNamespace b).1 = "" := by
    rw [← foldCase_eq_empty, space, foldCase_eq_empty]
  unfold NameKey.constant
  rw [← splitNamespace_snd, ← splitNamespace_snd] at short
  dsimp only
  simp only [empty, space, short]

theorem shortName_append_separator (a b : String) : shortName (a ++ "\\" ++ b) = shortName b := by
  have separator : "\\".toList = ['\\'] := rfl
  unfold shortName
  rw [String.toList_append, String.toList_append, separator, List.reverse_append,
    List.reverse_append, List.reverse_singleton, List.singleton_append,
    takeWhile_append_separator]

/-- The segment has no separator in it. -/
def IsSegment (part : String) : Prop :=
  '\\' ∉ part.toList

theorem IsSegment.shortName_eq {part : String} (segment : IsSegment part) :
    shortName part = part := by
  unfold shortName
  have all : part.toList.reverse.takeWhile (· ≠ '\\') = part.toList.reverse := by
    rw [← List.append_nil (List.reverse _), List.takeWhile_append_of_pos]
    · simp
    · intro c member
      simp only [ne_eq, decide_eq_true_eq]
      rintro rfl
      exact segment (List.mem_reverse.mp member)
  rw [all, List.reverse_reverse, String.ofList_toList]

theorem shortName_joinSegments {parts : List String} (segments : ∀ part ∈ parts, IsSegment part) :
    shortName (joinSegments parts) = parts.getLast?.getD "" := by
  induction parts with
  | nil => rfl
  | cons part rest ih =>
      have later := ih fun other member => segments other (List.mem_cons_of_mem _ member)
      cases rest with
      | nil =>
          have same : joinSegments [part] = part := by simp [joinSegments]
          rw [same, (segments part (by simp)).shortName_eq]
          rfl
      | cons next rest =>
          have split : joinSegments (part :: next :: rest) =
              part ++ "\\" ++ joinSegments (next :: rest) :=
            String.intercalate_cons_cons
          rw [split, shortName_append_separator, later, List.getLast?_cons_cons]

theorem isSegment_of_mem_nameSegments {chars : List Char} {part : String}
    (member : part ∈ nameSegments chars) : IsSegment part := by
  obtain ⟨segment, kept, rfl⟩ := List.mem_map.mp member
  unfold IsSegment
  rw [String.toList_ofList]
  exact not_mem_of_mem_splitOn (List.mem_filter.mp kept).1

namespace QualifiedName

theorem isSegment_of_mem_parts {text part : String} (member : part ∈ (parse text).parts) :
    IsSegment part := by
  have parts : ∃ chars, (parse text).parts = nameSegments chars := by
    unfold parse
    split
    · exact ⟨_, rfl⟩
    · split
      · exact ⟨_, rfl⟩
      · split <;> exact ⟨_, rfl⟩
  obtain ⟨chars, parts⟩ := parts
  exact isSegment_of_mem_nameSegments (parts ▸ member)

theorem shortName_joined (text : String) :
    shortName (parse text).joined = (parse text).last :=
  shortName_joinSegments fun _ => isSegment_of_mem_parts

/-- A name without separators is its own last segment. -/
theorem last_of_unqualified {text : String} (form : (parse text).form = .unqualified) :
    (parse text).last = text := by
  by_cases separator : text.toList.head? = some '\\'
  · obtain ⟨rest, chars⟩ := List.head?_eq_some_iff.mp separator
    rw [parse_of_separator chars] at form
    cases form
  · rw [parse_of_head_ne separator] at form ⊢
    split at form
    · cases form
    · split at form
      · cases form
      · rename_i relative several
        rw [if_neg relative, if_neg several]
        have single : text.toList.splitOn '\\' = [text.toList] :=
          List.splitOn_eq_singleton (by simpa using several)
        unfold last nameSegments
        rw [single]
        by_cases empty : text.toList = []
        · simp [String.toList_eq_nil_iff.mp empty]
        · simp [empty]

end QualifiedName

namespace Resolver

variable (resolver : Resolver) {text again : String}

theorem shortName_joinNamespace (space short : String) :
    shortName (joinNamespace space short) = shortName short := by
  unfold joinNamespace
  split
  · rfl
  · exact shortName_append_separator space short

theorem shortName_qualified (same : foldCase text = foldCase again)
    (last : (QualifiedName.parse text).last = (QualifiedName.parse again).last) :
    shortName (resolver.qualified (.parse text)) =
      shortName (resolver.qualified (.parse again)) := by
  have parsed := QualifiedName.fold_congr same
  unfold qualified
  rw [class?_congr _ (QualifiedName.first_congr parsed)]
  split
  · have tail (name : String) : shortName (QualifiedName.parse name).tail =
        (QualifiedName.parse name).parts.tail.getLast?.getD "" :=
      shortName_joinSegments fun part member =>
        QualifiedName.isSegment_of_mem_parts (List.mem_of_mem_tail member)
    rw [shortName_append_separator, shortName_append_separator, tail, tail, List.getLast?_tail,
      List.getLast?_tail, QualifiedName.length_parts_congr parsed]
    split
    · rfl
    · exact last
  · rw [shortName_joinNamespace, shortName_joinNamespace, QualifiedName.shortName_joined,
      QualifiedName.shortName_joined, last]

theorem shortName_candidates (same : foldCase text = foldCase again)
    (last : (QualifiedName.parse text).last = (QualifiedName.parse again).last)
    (imported : Option String) :
    (resolver.candidates text imported).map shortName =
      (resolver.candidates again imported).map shortName := by
  have form := QualifiedName.form_congr (QualifiedName.fold_congr same)
  have joined : shortName (QualifiedName.parse text).joined =
      shortName (QualifiedName.parse again).joined := by
    rw [QualifiedName.shortName_joined, QualifiedName.shortName_joined, last]
  unfold candidates
  dsimp only
  rw [form]
  split
  · simp only [List.map_singleton, joined]
  · simp only [List.map_singleton, shortName_joinNamespace, joined]
  · simp only [List.map_singleton, resolver.shortName_qualified same last]
  · rename_i unqualified
    rw [← QualifiedName.last_of_unqualified unqualified, ← last,
      QualifiedName.last_of_unqualified (form.trans unqualified)]

/-- An import of constants distinguishes the case of names, and only names of one segment ask
for one. -/
theorem imported_congr (same : foldCase text = foldCase again)
    (last : (QualifiedName.parse text).last = (QualifiedName.parse again).last) :
    resolver.constantCandidates text =
      resolver.candidates text (resolver.imports.constant? again) := by
  by_cases form : (QualifiedName.parse text).form = .unqualified
  · have formAgain : (QualifiedName.parse again).form = .unqualified :=
      (QualifiedName.form_congr (QualifiedName.fold_congr same)).symm.trans form
    rw [← QualifiedName.last_of_unqualified formAgain, ← last,
      QualifiedName.last_of_unqualified form]
    rfl
  · unfold constantCandidates candidates
    dsimp only
    split
    · rfl
    · rfl
    · rfl
    · exact absurd ‹_› form

theorem functionKeys_congr (same : foldCase text = foldCase again) :
    (resolver.functionCandidates text).map NameKey.folded =
      (resolver.functionCandidates again).map NameKey.folded := by
  have folded : NameKey.folded = NameKey.folded ∘ foldCase := by
    funext name
    exact (folded_foldCase name).symm
  unfold functionCandidates
  rw [function?_congr _ same, folded, ← List.map_map, ← List.map_map,
    resolver.foldCase_candidates same]

theorem constantKeys_congr (same : foldCase text = foldCase again)
    (last : (QualifiedName.parse text).last = (QualifiedName.parse again).last) :
    (resolver.constantCandidates text).map NameKey.constant =
      (resolver.constantCandidates again).map NameKey.constant := by
  rw [resolver.imported_congr same last]
  unfold constantCandidates
  have folded := resolver.foldCase_candidates same (resolver.imports.constant? again)
  have short := resolver.shortName_candidates same last (resolver.imports.constant? again)
  generalize resolver.candidates text _ = names at folded short
  generalize resolver.candidates again _ = others at folded short
  induction names generalizing others with
  | nil =>
      cases others with
      | nil => rfl
      | cons other others => cases folded
  | cons name names ih =>
      cases others with
      | nil => cases folded
      | cons other others =>
          simp only [List.map_cons, List.cons.injEq] at folded short ⊢
          exact ⟨constant_congr folded.1 short.1, ih others folded.2 short.2⟩

end Resolver

/-- What is found first under the keys of some names depends on the keys alone. -/
theorem findSome?_congr_keys {α : Type} {key : String → NameKey} {names others : List String}
    (same : names.map key = others.map key) (find? : NameKey → Option α) :
    names.findSome? (fun name => find? (key name)) =
      others.findSome? fun name => find? (key name) := by
  have mapped := congrArg (List.findSome? find?) same
  rwa [List.findSome?_map, List.findSome?_map] at mapped

/-- Names that are the same up to the case of their letters mean the same: the keys of the
classes and functions that they may stand for are the same, and so are those of the constants
if the names have the same last segment. So what is found under these keys is the same. -/
theorem resolution_ignores_case (resolver : Resolver) {text again : String}
    (same : foldCase text = foldCase again) :
    NameKey.folded (resolver.classNamed text) = NameKey.folded (resolver.classNamed again) ∧
    (resolver.functionCandidates text).map NameKey.folded =
      (resolver.functionCandidates again).map NameKey.folded ∧
    ((QualifiedName.parse text).last = (QualifiedName.parse again).last →
      (resolver.constantCandidates text).map NameKey.constant =
        (resolver.constantCandidates again).map NameKey.constant) ∧
    ∀ index : EntityIndex,
      index.class? (resolver.classNamed text) = index.class? (resolver.classNamed again) ∧
      (resolver.functionCandidates text).findSome? index.function? =
        (resolver.functionCandidates again).findSome? index.function? ∧
      ((QualifiedName.parse text).last = (QualifiedName.parse again).last →
        (resolver.constantCandidates text).findSome? index.constant? =
          (resolver.constantCandidates again).findSome? index.constant?) := by
  have classes := folded_congr (resolver.foldCase_classNamed same)
  have functions := resolver.functionKeys_congr same
  have constants := fun last => resolver.constantKeys_congr same last
  refine ⟨classes, functions, constants, fun index => ⟨?_, ?_, fun last => ?_⟩⟩
  · exact congrArg (index.info? .classLike) classes
  · exact findSome?_congr_keys functions (index.info? .function)
  · exact findSome?_congr_keys (constants last) (index.info? .constant)

/-- Two spellings of a constant whose first segment is imported, which is declared under a
third one. -/
theorem resolution_ignores_case_of_import :
    let resolver : Resolver := ⟨"App", { classes := ⟨[(.folded "Core", "Lib\\Core")]⟩ }⟩
    foldCase "CORE\\Limit" = foldCase "core\\Limit" ∧
    (QualifiedName.parse "CORE\\Limit").last = (QualifiedName.parse "core\\Limit").last ∧
    (resolver.constantCandidates "CORE\\Limit").map NameKey.constant =
      [NameKey.constant "LIB\\Core\\Limit"] ∧
    (resolver.constantCandidates "CORE\\Limit").map NameKey.constant =
      (resolver.constantCandidates "core\\Limit").map NameKey.constant := by
  intro resolver
  have same : foldCase "CORE\\Limit" = foldCase "core\\Limit" := by decide
  have last : (QualifiedName.parse "CORE\\Limit").last =
      (QualifiedName.parse "core\\Limit").last := by decide
  have key : (resolver.constantCandidates "CORE\\Limit").map NameKey.constant =
      [NameKey.constant "LIB\\Core\\Limit"] := by decide +kernel
  have keys := (resolution_ignores_case resolver same).2.2.1 last
  exact ⟨same, last, key, keys⟩

end StaticReflection
