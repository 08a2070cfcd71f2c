import Mathlib.Data.List.Forall2
import StaticReflection.Proofs.Declarations.FileHeadings

namespace StaticReflection

/-! A group of imports means the statements that import each of its names alone. -/

/-- Names of a common prefix that one statement imports. A comma may stand after the last one. -/
structure ImportGroup where
  kind : Option ImportWord := none
  space : WrittenName
  first : GroupItem
  more : List GroupItem := []
  trailing : Bool := false

/-- The name of an item behind the prefix of its group. -/
def GroupItem.fullName (space : WrittenName) (item : GroupItem) : ImportedName where
  rooted := space.rooted
  first := space.first
  more := space.more ++ item.name.first :: item.name.more
  free := by
    right
    simp [WrittenName.kind, WrittenName.isQualified, nameKind]

namespace ImportGroup

def list (group : ImportGroup) : List GroupItem :=
  group.first :: group.more

/-- The one statement. -/
def statement (group : ImportGroup) : ImportStatement where
  kind := group.kind
  first := .group group.space group.list group.trailing

/-- A statement for each item, of its own kind or else that of the group. -/
def expansion (group : ImportGroup) : List ImportStatement :=
  group.list.map fun item =>
    { kind := item.kind.or group.kind, first := .single (item.fullName group.space) item.renamed }

end ImportGroup

theorem furtherText_append (more others : List Word) :
    furtherText (more ++ others) = furtherText more ++ furtherText others :=
  List.flatMap_append

theorem GroupItem.stem_fullName (space : WrittenName) (item : GroupItem) :
    (item.fullName space).stem = space.stem ++ "\\" ++ item.name.value := by
  have named : item.name.text = item.name.path := by
    rw [WrittenName.text, item.relative]
    rfl
  have path : (item.fullName space).path = space.path ++ '\\' :: item.name.path := by
    simp [fullName, WrittenName.path, furtherText_append]
  rw [WrittenName.stem, WrittenName.stem, WrittenName.value, path, named]
  apply String.toList_injective
  simp

theorem kindOr_or (kind other : Option ImportWord) (last : ImportKind) :
    kindOr (kind.or other) last = kindOr kind (kindOr other last) := by
  cases kind <;> rfl

theorem ImportGroup.items_expansion (group : ImportGroup) :
    group.expansion.flatMap ImportStatement.items = group.statement.items := by
  have each (item : GroupItem) : ImportStatement.items
      { kind := item.kind.or group.kind
        first := .single (item.fullName group.space) item.renamed } =
      [item.item (kindOr group.kind .classLike) group.space] := by
    simp [ImportStatement.items, ImportStatement.clauses, ImportClause.items, GroupItem.item,
      kindOr_or, item.stem_fullName]
  rw [expansion, List.flatMap_map]
  simp only [each]
  simp [statement, ImportStatement.items, ImportStatement.clauses, ImportClause.items,
    List.map_eq_flatMap]

/-- What the import statements of a block import, in order. -/
def SourceFile.importItems (file : SourceFile) (block : NamespaceBlock) : List ImportItem :=
  block.statements.flatMap fun id =>
    match file.arena.node? id with
    | some (.imports items) => items
    | _ => []

theorem Heading.importItems_eq (heading : Heading) {file : SourceFile} {space : String}
    {block : NamespaceBlock} (consists : file.Consists space heading.phrases block) :
    file.importItems block = heading.items := by
  obtain ⟨-, -, -, -, meant⟩ := consists
  rw [Heading.phrases, List.forall₂_map_left_iff] at meant
  unfold SourceFile.importItems Heading.items
  generalize heading.imports = imports, block.statements = ids at meant ⊢
  induction meant with
  | nil => rfl
  | @cons statement id _ _ found _ ih =>
      have one : file.arena.node? id = some (.imports statement.items) := found
      rw [List.flatMap_cons, List.flatMap_cons, one, ih]

theorem Heading.entities_imports (heading : Heading) {file : SourceFile} {space : String}
    {block : NamespaceBlock} (consists : file.Consists space heading.phrases block) :
    block.entities.Imports space heading.items := by
  obtain ⟨-, -, -, entities, meant⟩ := consists
  rw [Heading.phrases, List.forall₂_map_left_iff] at meant
  let site : Entities.Site := ⟨file.arena, file.lines⟩
  have found : List.Forall₂ (fun (statement : ImportStatement) id =>
    site.arena.node? id = some (.imports statement.items)) heading.imports block.statements := meant
  rw [entities]
  exact (Entities.imports_empty space).foldl_addStatement found

/-- A file with nothing but a heading. -/
theorem Heading.parse_alone (heading : Heading) (path : String) {text : Text}
    (nonempty : heading.symbols ≠ []) (spells : Spells heading.symbols text) :
    ∃ block, (SourceFile.parse path (openTag ++ text)).Consists (spaceName heading.space)
      heading.phrases block := by
  have front : frontOf text = .token := by
    obtain empty | ⟨name, rest, named⟩ := heading.symbols_eq
    · exact absurd empty nonempty
    · rw [named] at spells
      simpa using spells.frontOf []
  have reads := spells.reads ReadsAs.nil
  rw [List.append_nil, heading.symbolMarks_symbols] at reads
  exact parse_headed path heading.space heading.phrases_parse front spells.not_mem reads

/-- A group of imports and the statements that it stands for can replace each other. Among any
others, in any layout, both are parsed without a problem, to the same imports in the same order;
the same ones are in effect, and the same number of them is left out. -/
theorem group_means_expansion (path : String) (space : Option ImportedName)
    (before after : List ImportStatement) (group : ImportGroup) {grouped separate : Text}
    (spelled : Spells (Heading.symbols ⟨space, before ++ [group.statement] ++ after⟩) grouped)
    (expanded : Spells (Heading.symbols ⟨space, before ++ group.expansion ++ after⟩) separate) :
    let one := SourceFile.parse path (openTag ++ grouped)
    let two := SourceFile.parse path (openTag ++ separate)
    one.diagnostics = [] ∧ two.diagnostics = [] ∧
    ∃ first second, one.blocks = [first] ∧ two.blocks = [second] ∧
      first.name = spaceName space ∧ second.name = spaceName space ∧
      one.importItems first = before.flatMap ImportStatement.items ++
        group.list.map (GroupItem.item (kindOr group.kind .classLike) group.space) ++
        after.flatMap ImportStatement.items ∧
      two.importItems second = one.importItems first ∧
      second.entities.imports = first.entities.imports ∧
      second.entities.skipped.length = first.entities.skipped.length := by
  intro one two
  let whole : Heading := ⟨space, before ++ [group.statement] ++ after⟩
  let parts : Heading := ⟨space, before ++ group.expansion ++ after⟩
  have same : parts.items = whole.items := by
    simp [parts, whole, Heading.items, group.items_expansion]
  have written : whole.items = before.flatMap ImportStatement.items ++
      group.list.map (GroupItem.item (kindOr group.kind .classLike) group.space) ++
      after.flatMap ImportStatement.items := by
    simp [whole, Heading.items, ImportGroup.statement, ImportStatement.items,
      ImportStatement.clauses, ImportClause.items]
  have begun : whole.symbols ≠ [] := by
    simp [whole, Heading.symbols, ImportStatement.symbols]
  have begins : parts.symbols ≠ [] := by
    simp [parts, Heading.symbols, ImportGroup.expansion, ImportGroup.list, ImportStatement.symbols]
  obtain ⟨first, grouped⟩ := whole.parse_alone path begun spelled
  obtain ⟨second, separate⟩ := parts.parse_alone path begins expanded
  have one_registered := (whole.entities_imports grouped).registered
  have two_registered := (parts.entities_imports separate).registered
  rw [same, ← one_registered, Prod.mk.injEq] at two_registered
  have found := whole.importItems_eq grouped
  refine ⟨grouped.1, separate.1, first, second, grouped.2.1, separate.2.1, grouped.2.2.1,
    separate.2.2.1, found.trans written, ?_, two_registered⟩
  rw [parts.importItems_eq separate, found, same]

/-- A class, and a function whose name and new name have reserved words in them. -/
def ImportGroup.sample : ImportGroup :=
  let c : ImportedName := ⟨⟨false, ⟨['c'], by decide, by decide⟩, []⟩, .inl (by decide)⟩
  let f : ImportedName :=
    ⟨⟨false, ⟨['e', 'm', 'p', 't', 'y'], by decide, by decide⟩, [functionName]⟩, .inr (by decide)⟩
  { space := ⟨true, ⟨['A'], by decide, by decide⟩, [⟨['B'], by decide, by decide⟩]⟩
    first := ⟨none, c, rfl, none⟩
    more := [⟨some .function, f, rfl, some ⟨['e', 'c', 'h', 'o'], by decide, by decide⟩⟩]
    trailing := true }

theorem sample_group_means_expansion :
    let group := ImportGroup.sample
    let grouped := symbolText (Heading.symbols ⟨none, [] ++ [group.statement] ++ []⟩)
    let separate := symbolText (Heading.symbols ⟨none, [] ++ group.expansion ++ []⟩)
    let one := SourceFile.parse "a.php" (openTag ++ grouped)
    let two := SourceFile.parse "a.php" (openTag ++ separate)
    grouped = "use \\A\\B\\\x7b c , function empty\\f as echo , \x7d ; ".toList ∧
    separate = "use \\A\\B\\c ; use function \\A\\B\\empty\\f as echo ; ".toList ∧
    one.diagnostics = [] ∧ two.diagnostics = [] ∧
    ∃ first second, one.blocks = [first] ∧ two.blocks = [second] ∧
      first.name = spaceName none ∧ second.name = spaceName none ∧
      one.importItems first =
        [⟨.classLike, "A\\B\\c", none⟩, ⟨.function, "A\\B\\empty\\f", some "echo"⟩] ∧
      two.importItems second = one.importItems first ∧
      second.entities.imports = first.entities.imports ∧
      second.entities.skipped.length = first.entities.skipped.length :=
  ⟨by decide, by decide,
    group_means_expansion "a.php" none [] [] .sample (spells_symbolText _) (spells_symbolText _)⟩

end StaticReflection
