import Mathlib.Data.List.Forall2
import StaticReflection.Proofs.Declarations.FileHeadings
import StaticReflection.Proofs.Evaluation.RepeatedConstants
import StaticReflection.Proofs.Parser.Signatures

namespace StaticReflection

open Parse ParseState Grammar

/-! Files with a heading and one declaration after it, and what is found of that declaration. -/

/-! What a reflector knows of a file. -/

/-- The first text of a reflector, if nothing is wrong with it, is all that it knows. -/
theorem Query.text_alone (options : Options) (locator : Locator) (disk : Disk) (path : String)
    {text : Text} (clean : (SourceFile.parse (disk.canonical path) text).diagnostics = []) :
    let r := Reflector.new options locator { disk }
    let file := SourceFile.parse (disk.canonical path) text
    (Query.text path text).result r = .ok file ∧
      ((Query.text path text).next r).index = .ofFiles [file] := by
  intro r file
  have checked : SourceCache.checkSyntax file = .ok file := by
    rw [SourceCache.checkSyntax, if_pos (List.isEmpty_iff.mpr clean)]
  have loaded : (Query.text path text).result r = .ok file :=
    (Query.result_text options locator disk path text).trans
      (congrArg (Except.mapError ReflectionError.source) checked)
  exact ⟨loaded, Query.index_text loaded⟩

namespace EntityIndex

variable {file : SourceFile} {block : NamespaceBlock}

theorem ofFiles_eq_addBlock (only : file.blocks = [block]) :
    ofFiles [file] = addBlock { files := [PathKey.ofPath file.path] } ⟨file, 0, block⟩ := by
  have places : file.placedBlocks = [⟨file, 0, block⟩] := by simp [SourceFile.placedBlocks, only]
  have known : ofFiles [file] =
      file.placedBlocks.foldl addBlock { files := [PathKey.ofPath file.path] } := rfl
  rw [known, places]
  rfl

theorem find?_addEntries {α : Type} {place : PlacedBlock} {entries : OrderedMap NameKey α}
    {key : NameKey} {entry : α} (single : entries.entries = [(key, entry)]) :
    (addEntries place entries {}).find? key = some (place, entry) := by
  simp [addEntries, single, OrderedMap.find?_insertNew]

theorem function?_ofFiles {name : String} {entry : FunctionEntry} (only : file.blocks = [block])
    (entries : block.entities.functions.entries = [(.folded name, entry)]) :
    (ofFiles [file]).function? name = FunctionInfo.declaredAt? ⟨file, 0, block⟩ entry := by
  rw [ofFiles_eq_addBlock only]
  change ((addEntries _ _ {}).find? _).bind _ = _
  rw [find?_addEntries entries]
  rfl

theorem class?_ofFiles {name : String} {entry : ClassEntry} (only : file.blocks = [block])
    (entries : block.entities.classes.entries = [(.folded name, entry)]) :
    (ofFiles [file]).class? name =
      ClassInfo.declaredAt? (.named (.folded name)) ⟨file, 0, block⟩ entry := by
  rw [ofFiles_eq_addBlock only]
  change ((addEntries _ _ {}).find? _).bind _ = _
  rw [find?_addEntries entries]
  rfl

end EntityIndex

/-! The last statement. -/

/-- A heading is read before whatever comes after it. -/
theorem Heading.reads_before (heading : Heading) {text rest : Text} {marks : List Mark}
    (spells : Spells heading.symbols text) (front : frontOf rest = .token) (inside : '>' ∉ rest)
    (reads : ReadsAs rest marks) :
    frontOf (text ++ rest) = .token ∧ '>' ∉ text ++ rest ∧ ReadsAs (text ++ rest)
      (symbolMarks (headerSymbols heading.space) ++ phraseMarks heading.phrases ++ marks) := by
  refine ⟨?_, by simp [spells.not_mem, inside], ?_⟩
  · obtain empty | ⟨name, others, named⟩ := heading.symbols_eq
    · rw [empty] at spells
      cases spells
      exact front
    · rw [named] at spells
      exact spells.frontOf rest
  · have whole := spells.reads reads
    rwa [heading.symbolMarks_symbols] at whole

theorem Heading.parse_last (heading : Heading) (path : String) {text rest : Text} {last : Phrase}
    (spells : Spells heading.symbols text) (parses : last.Parses) (front : frontOf rest = .token)
    (inside : '>' ∉ rest) (reads : ReadsAs rest (last.marks ++ [⟨.endOfFile, "", []⟩])) :
    ∃ block, (SourceFile.parse path (openTag ++ (text ++ rest))).Consists
      (spaceName heading.space) (heading.phrases ++ [last]) block := by
  obtain ⟨begins, plain, whole⟩ := heading.reads_before spells front inside reads
  refine parse_headed path heading.space ?_ begins plain ?_
  · exact List.forall_mem_append.mpr ⟨heading.phrases_parse, List.forall_mem_singleton.mpr parses⟩
  · simpa [phraseMarks] using whole

/-- Before the last statement of a block, nothing but imports has been registered. -/
theorem Heading.discover_last (heading : Heading) {file : SourceFile} {space : String}
    {block : NamespaceBlock} {last : Phrase}
    (consists : file.Consists space (heading.phrases ++ [last]) block) :
    ∃ before id, before.Imports space heading.items ∧ last.Means id file.arena ∧
      block.entities = Entities.addStatement ⟨file.arena, file.lines⟩ before id := by
  obtain ⟨-, -, -, entities, meant⟩ := consists
  obtain ⟨ids, others, split, meant, ends⟩ : ∃ ids others, block.statements = ids ++ others ∧
      List.Forall₂ (fun phrase id => phrase.Means id file.arena) heading.phrases ids ∧
      List.Forall₂ (fun phrase id => phrase.Means id file.arena) [last] others := by
    have first := List.forall₂_take_append _ _ _ meant.flip
    have second := List.forall₂_drop_append _ _ _ meant.flip
    exact ⟨_, _, (List.take_append_drop _ _).symm, first.flip, second.flip⟩
  obtain ⟨id, _, found, ⟨⟩, rfl⟩ := List.forall₂_cons_left_iff.mp ends
  rw [Heading.phrases, List.forall₂_map_left_iff] at meant
  let site : Entities.Site := ⟨file.arena, file.lines⟩
  have imported : List.Forall₂ (fun (statement : ImportStatement) id =>
    site.arena.node? id = some (.imports statement.items)) heading.imports ids := meant
  refine ⟨_, id, (Entities.imports_empty space).foldl_addStatement imported, found, ?_⟩
  rw [entities, split, Entities.discover, List.foldl_append]
  rfl

/-! Functions. -/

def Signature.phrase (signature : Signature) : Phrase where
  marks := signature.marks
  Means := signature.Means

theorem Signature.phrase_parses {signature : Signature} (parses : signature.Parses) :
    signature.phrase.Parses where
  lasting := parses.lasting
  plain := by
    rintro id arena ⟨decl, found, -⟩ _ other
    cases found.symm.trans other
  starts := ⟨_, _, rfl, by decide⟩
  yields here := statement_function parses here.toAt

/-- The resolver of a block in which nothing but imports comes before a declaration. -/
theorem Heading.resolver_last (heading : Heading) {entities before : Entities} {space : String}
    (imports : before.Imports space heading.items) (same : entities.imports = before.imports)
    (sameSpace : entities.space = before.space) :
    entities.resolver = ⟨space, (registered heading.items).1⟩ := by
  rw [Entities.resolver, same, sameSpace, imports.space, ← imports.registered]

/-- The function after a heading is found by its name. Its types are resolved in the namespace,
with the imports of the heading. -/
theorem Heading.function?_last (heading : Heading) {file : SourceFile} {space : String}
    {block : NamespaceBlock} {signature : Signature} (named : signature.name ≠ "")
    (consists : file.Consists space (heading.phrases ++ [signature.phrase]) block) :
    let full := joinNamespace space signature.name
    let scope : Scope := { place := ⟨file, 0, block⟩, function := some full }
    scope.resolver = ⟨space, (registered heading.items).1⟩ ∧
    ∃ id decl, (EntityIndex.ofFiles [file]).function? full =
        some (.ofDecl scope full (full ++ "()") id decl) ∧ signature.Describes decl file.arena := by
  intro full scope
  obtain ⟨before, id, imports, ⟨decl, found, describes⟩, entities⟩ :=
    heading.discover_last consists
  have added : block.entities = { before with
      functions := before.functions.insertNew (.folded full) ⟨full, id⟩ } := by
    have unnamed : decl.name ≠ "" := describes.name ▸ named
    have unknown : before.function? full = none := by
      rw [Entities.function?, imports.functions]
      rfl
    rw [entities, Entities.addStatement, found]
    dsimp only
    rw [Entities.addFunction, if_neg unnamed, imports.space, describes.name]
    dsimp only
    rw [unknown]
    rfl
  have resolves : block.entities.resolver = ⟨space, (registered heading.items).1⟩ :=
    heading.resolver_last imports (by rw [added]) (by rw [added])
  refine ⟨resolves, id, decl, ?_, describes⟩
  have entries : block.entities.functions.entries = [(.folded full, ⟨full, id⟩)] := by
    rw [added, imports.functions]
    rfl
  rw [EntityIndex.function?_ofFiles consists.2.1 entries, FunctionInfo.declaredAt?]
  dsimp only
  rw [found]

end StaticReflection
