import StaticReflection.Proofs.Parser.ImportStatements
import StaticReflection.Source.File

namespace StaticReflection

open Parse ParseState Grammar

/-! Files that begin with a namespace and its imports, and what is found in them. -/

/-- A statement: the tokens it is made of, and what is said of its node. -/
structure Phrase where
  marks : List Mark
  Means : NodeId → Arena → Prop

/-- The parser reads the tokens as one statement, and its node is as said. -/
structure Phrase.Parses (phrase : Phrase) : Prop where
  lasting : Lasting phrase.Means
  plain : ∀ {id : NodeId} {arena : Arena}, phrase.Means id arena →
    ∀ decl, arena.node? id ≠ some (.namespaceDecl decl)
  starts : ∃ front others, phrase.marks = front :: others ∧
    front.kind ∉ [TokenKind.endOfFile, .closeBrace, .namespaceKw]
  yields : ∀ {s : ParseState} {depth : Nat} {mark : Mark} {after : List Mark},
    s.Stands depth (phrase.marks ++ mark :: after) →
    statement.Yields s phrase.marks fun out arena => ∃ id, out = some id ∧ phrase.Means id arena

def ImportStatement.phrase (statement : ImportStatement) : Phrase where
  marks := symbolMarks statement.symbols
  Means id arena := arena.node? id = some (.imports statement.items)

theorem ImportStatement.phrase_parses (statement : ImportStatement) : statement.phrase.Parses where
  lasting _ _ _ grows found := grows _ _ found
  plain found decl other := by cases found.symm.trans other
  starts := ⟨_, _, rfl, by decide⟩
  yields {s depth mark after} here := by
    have kind : s.cursor.kind = .useKw := At.kind here.toAt
    have plain : s.cursor.kind ≠ .attributeStart := by
      rw [kind]
      decide
    refine .position (.look (docAcrossAttributes_looks plain) (.kind here.toAt ?_))
    refine .andThen (importStatement_yields statement here) fun id _ _ found => ?_
    exact .pure ⟨id, rfl, found⟩

theorem nextStatement_goesOn {stops : TokenKind → Bool} {braced : Bool}
    {one : Parse (Option NodeId)} (each : one.GoesOn) (list : List NodeId) :
    (nextStatement stops braced one list).GoesOn := by
  refine .bind looks_goesOn fun kind => .bind get_goesOn fun _ => ?_
  dsimp only
  split
  · exact pure_goesOn _
  split
  · refine .bind (report_goesOn _) fun _ => .bind advance_goesOn fun _ => ?_
    exact pure_goesOn _
  · refine .bind each fun _ => .bind get_goesOn fun _ => ?_
    exact pure_goesOn _

theorem topStatement_composed : topStatement.Composed outermost :=
  .bind (at?_composed _) fun _ =>
    .ite (.bind namespaceStatement_composed fun _ => .pure _) statement_composed

/-- The parser of the statements of a file, or of those of a namespace. -/
structure Statements where
  stops : TokenKind → Bool
  one : Parse (Option NodeId)
  goesOn : one.GoesOn
  continues : ∀ {kind}, kind ≠ .namespaceKw → stops kind = false
  same : ∀ {s : ParseState}, s.cursor.kind ≠ .namespaceKw → one s = statement s

def Statements.ofFile : Statements where
  stops _ := false
  one := topStatement
  goesOn := goesOn_of_composed topStatement_composed
  continues _ := rfl
  same {s} other := by
    have unmarked : at? .namespaceKw s = (false, s) :=
      congrArg (·, s) (beq_eq_false_iff_ne.mpr other)
    rw [topStatement, bind_of unmarked]
    rfl

def Statements.ofNamespace : Statements where
  stops kind := kind == .namespaceKw
  one := statement
  goesOn := goesOn_of_composed statement_composed
  continues other := beq_eq_false_iff_ne.mpr other
  same _ := rfl

def namespaceWord : Word :=
  ⟨['n', 'a', 'm', 'e', 's', 'p', 'a', 'c', 'e'], by decide, by decide⟩

section Statements

variable {s : ParseState} {depth : Nat} {after : List Mark} {phrases : List Phrase}

/-- The tokens of some statements. -/
def phraseMarks (phrases : List Phrase) : List Mark :=
  phrases.flatMap Phrase.marks

theorem means_later {arena larger : Arena} {ids : List NodeId}
    (parses : ∀ phrase ∈ phrases, phrase.Parses) (grows : arena.Extends larger)
    (meant : List.Forall₂ (fun phrase id => phrase.Means id arena) phrases ids) :
    List.Forall₂ (fun phrase id => phrase.Means id larger) phrases ids := by
  induction meant with
  | nil => exact .nil
  | cons means _ ih =>
      rw [List.forall_mem_cons] at parses
      exact .cons (parses.1.lasting _ _ _ grows means) (ih parses.2)

theorem nextStatement_yields {phrase : Phrase} {mark : Mark} (parser : Statements)
    (parses : phrase.Parses) (list : List NodeId)
    (here : s.Stands depth (phrase.marks ++ mark :: after)) (going : s.halted = false) :
    (nextStatement parser.stops false parser.one list).Yields s phrase.marks
      fun out arena => out.2 = true ∧ ∃ id, out.1 = list ++ [id] ∧ phrase.Means id arena := by
  obtain ⟨front, others, split, other⟩ := parses.starts
  have kind : s.cursor.kind = front.kind := by
    have begun := here.toAt
    rw [split, List.cons_append] at begun
    exact begun.kind
  simp only [List.mem_cons, List.not_mem_nil, or_false, not_or] at other
  have one := parses.yields here
  have same : parser.one s = statement s := parser.same (kind ▸ other.2.2)
  have first : parser.one.Yields s phrase.marks
      fun out arena => ∃ id, out = some id ∧ phrase.Means id arena := by
    refine ⟨?_, ?_⟩
    · rw [Parse.next, same]
      exact one.passes
    · rw [Parse.result, Parse.next, same]
      exact one.outcome
  have sees : Parse.kind s = (front.kind, s) := congrArg (·, s) kind
  refine .look sees (.look rfl ?_)
  simp only [going, beq_eq_false_iff_ne.mpr other.1, beq_eq_false_iff_ne.mpr other.2.1,
    parser.continues other.2.2]
  refine .andThen first ?_
  rintro _ t passes ⟨id, rfl, outcome⟩
  refine .look rfl (.pure ⟨?_, id, rfl, outcome⟩)
  rw [passes.halted, going]
  rfl

/-- Statements one after another, up to the end of the file. -/
theorem statements_yields (parser : Statements) (parses : ∀ phrase ∈ phrases, phrase.Parses)
    (here : s.Stands depth (phraseMarks phrases ++ [⟨.endOfFile, "", []⟩]))
    (going : s.halted = false) :
    (statements parser.stops false parser.one).Yields s (phraseMarks phrases)
      fun ids arena => List.Forall₂ (fun phrase id => phrase.Means id arena) phrases ids := by
  suffices onward : ∀ list, (untilDone list (nextStatement parser.stops false parser.one)).Yields s
      (phraseMarks phrases) fun ids arena => ∃ more, ids = list ++ more ∧
        List.Forall₂ (fun phrase id => phrase.Means id arena) phrases more by
    refine (onward []).mono ?_
    rintro _ arena ⟨more, rfl, meant⟩
    exact meant
  induction phrases generalizing s with
  | nil =>
      intro list
      exact .done (.kind here.toAt (.look rfl (.pure ⟨rfl, [], (List.append_nil _).symm, .nil⟩)))
  | cons phrase phrases ih =>
      intro list
      rw [List.forall_mem_cons] at parses
      have split : phraseMarks (phrase :: phrases) = phrase.marks ++ phraseMarks phrases :=
        List.flatMap_cons
      rw [split] at here ⊢
      rw [List.append_assoc] at here
      obtain ⟨mark, after, following⟩ : ∃ mark after,
          phraseMarks phrases ++ [⟨.endOfFile, "", []⟩] = mark :: after :=
        List.exists_cons_of_ne_nil (by simp)
      have one := nextStatement_yields parser parses.1 list (following ▸ here) going
      have there := here.later one.passes (nextStatement_goesOn parser.goesOn list s)
      obtain ⟨-, id, found, outcome⟩ := one.outcome
      have rest := ih parses.2 there (one.passes.halted.trans going) (list ++ [id])
      obtain ⟨front, others, begins, -⟩ := parses.1.starts
      refine .more (one.mono fun _ _ outcome => outcome.1) (by simp [begins]) ?_
      rw [found]
      refine ⟨rest.passes, ?_⟩
      obtain ⟨more, same, meant⟩ := rest.outcome
      refine ⟨id :: more, by rw [same, List.append_assoc, List.singleton_append], ?_⟩
      exact .cons (parses.1.lasting _ _ _ rest.passes.arena outcome) meant

theorem ImportedName.namespaceName_yields (name : ImportedName) {mark : Mark}
    (here : s.At depth (name.mark :: mark :: after)) :
    namespaceName.Yields s [name.mark] fun out _ => out = name.stem :=
  .ahead? (name.isName here) (.value here (.advance here (by simp) fun _ _ =>
    .pure name.stripSeparator_value))

theorem namespaceStatement_yields (name : ImportedName)
    (parses : ∀ phrase ∈ phrases, phrase.Parses)
    (here : s.Stands depth (namespaceWord.name.mark :: name.mark :: ⟨.semicolon, "", []⟩ ::
      (phraseMarks phrases ++ [⟨.endOfFile, "", []⟩])))
    (going : s.halted = false) :
    namespaceStatement.Yields s
      (namespaceWord.name.mark :: name.mark :: ⟨.semicolon, "", []⟩ :: phraseMarks phrases)
      fun id arena => ∃ decl, arena.node? id = some (.namespaceDecl decl) ∧
        decl.name = name.stem ∧
        List.Forall₂ (fun phrase id => phrase.Means id arena) phrases decl.statements := by
  refine .position (.look rfl (.advance here.toAt (by simp) fun first _ => ?_))
  have there := here.advance (by simp)
  rw [← List.singleton_append]
  refine (name.namespaceName_yields there.toAt).onward
    (goesOn_of_composed namespaceName_composed) there ?_
  rintro _ t second there rfl
  refine .acceptOther there.toAt nofun ?_
  dsimp only
  rw [if_neg Bool.false_ne_true, if_neg name.stem_ne_empty]
  refine .expect there.toAt rfl (by simp) fun third _ => ?_
  have there := there.advance (by simp)
  have running : (advance.next t).halted = false := by
    rw [third.halted, second.halted, first.halted, going]
  have list := statements_yields .ofNamespace parses there running
  refine Yields.andThen list fun ids u passes meant => .adds fun id arena grows found => ?_
  exact ⟨_, found, rfl, means_later parses grows meant⟩

/-- The symbols of a namespace that goes on to the end of the file. -/
def headerSymbols : Option ImportedName → List Symbol
  | none => []
  | some name => [namespaceWord.symbol, name.symbol, .semicolon]

/-- The name of the namespace; the global one has none. -/
def spaceName (space : Option ImportedName) : String :=
  (space.map (·.stem)).getD ""

/-- The block of a file that its statements are in. -/
def InBlock (space : Option ImportedName) (P : List NodeId → Prop) (arena : Arena)
    (list : List NodeId) : Prop :=
  match space with
  | none => P list
  | some name => ∃ id decl, list = [id] ∧ arena.node? id = some (.namespaceDecl decl) ∧
      decl.name = name.stem ∧ P decl.statements

theorem fileStatements_headed (space : Option ImportedName)
    (parses : ∀ phrase ∈ phrases, phrase.Parses)
    (here : s.Stands depth
      (symbolMarks (headerSymbols space) ++ phraseMarks phrases ++ [⟨.endOfFile, "", []⟩]))
    (going : s.halted = false) :
    fileStatements.Yields s (symbolMarks (headerSymbols space) ++ phraseMarks phrases)
      fun list arena => InBlock space
        (List.Forall₂ (fun phrase id => phrase.Means id arena) phrases) arena list := by
  cases space with
  | none => exact statements_yields .ofFile parses here going
  | some name =>
      have marks : symbolMarks (headerSymbols (some name)) =
          [namespaceWord.name.mark, name.mark, ⟨.semicolon, "", []⟩] := by
        simp [headerSymbols, Word.symbol, ImportedName.symbol, Symbol.marks]
      rw [marks] at here ⊢
      have whole := namespaceStatement_yields name parses here going
      have top : topStatement.Yields s
          (namespaceWord.name.mark :: name.mark :: ⟨.semicolon, "", []⟩ :: phraseMarks phrases)
          fun out arena => ∃ id, out = some id ∧ ∃ decl,
            arena.node? id = some (.namespaceDecl decl) ∧ decl.name = name.stem ∧
            List.Forall₂ (fun phrase id => phrase.Means id arena) phrases decl.statements :=
        .at? here.toAt (.andThen whole fun id _ _ outcome => .pure ⟨id, rfl, outcome⟩)
      refine (fileStatements_yields top here.toAt (by decide) going).mono ?_
      rintro _ arena ⟨id, rfl, decl, found, named, meant⟩
      exact ⟨id, decl, rfl, found, named, meant⟩

end Statements

/-- The file has nothing to report. It has one block, of the given name, in which the statements
are found one after another. -/
def SourceFile.Consists (file : SourceFile) (space : String) (phrases : List Phrase)
    (block : NamespaceBlock) : Prop :=
  file.diagnostics = [] ∧ file.blocks = [block] ∧ block.name = space ∧
    block.entities = Entities.discover ⟨file.arena, file.lines⟩ space block.statements ∧
    List.Forall₂ (fun phrase id => phrase.Means id file.arena) phrases block.statements

theorem namespaceBlock?_eq_none {phrases : List Phrase} {site : Entities.Site}
    {ids : List NodeId} (parses : ∀ phrase ∈ phrases, phrase.Parses)
    (meant : List.Forall₂ (fun phrase id => phrase.Means id site.arena) phrases ids) :
    ids.filterMap (namespaceBlock? site) = [] := by
  induction meant with
  | nil => rfl
  | @cons phrase id _ _ means _ ih =>
      rw [List.forall_mem_cons] at parses
      have passed : namespaceBlock? site id = none := by
        unfold namespaceBlock?
        split
        · exact absurd ‹_› (parses.1.plain means _)
        · rfl
      rw [List.filterMap_cons, passed, ih parses.2]

theorem ParseState.ofText_faithful {text : Text} (front : frontOf text = .token)
    (inside : '>' ∉ text) : (ParseState.ofText (openTag ++ text)).Faithful := by
  have faithful := tokenize_faithful front inside
  intro token among
  cases all : tokenize (openTag ++ text) with
  | nil =>
      simp only [tokens, ofText, all, Cursor.ofTokens, Cursor.of, List.mem_singleton] at among
      subst among
      exact fun word => absurd word (by decide)
  | cons first rest =>
      rw [all] at faithful
      simp only [tokens, ofText, all, Cursor.ofTokens, Cursor.of] at among
      exact faithful token among

/-- The parser of a file begins before the tokens that its text is read as. -/
theorem ParseState.ofText_stands {text : Text} {marks : List Mark} (nonempty : marks ≠ [])
    (front : frontOf text = .token) (inside : '>' ∉ text) (reads : ReadsAs text marks) :
    (ParseState.ofText (openTag ++ text)).Stands 0 marks ∧
      (ParseState.ofText (openTag ++ text)).scanned = [] := by
  obtain ⟨tokens, sound⟩ := reads.tokenize front
  obtain ⟨start, scanned⟩ := ParseState.ofText_at nonempty tokens sound
  exact ⟨⟨start, ParseState.ofText_faithful front inside⟩, scanned⟩

theorem consists_of_yields (path : String) {source : Text} {space : Option ImportedName}
    {phrases : List Phrase} {marks : List Mark} (parses : ∀ phrase ∈ phrases, phrase.Parses)
    (yields : fileStatements.Yields (.ofText source) marks fun list arena => InBlock space
      (List.Forall₂ (fun phrase id => phrase.Means id arena) phrases) arena list)
    (scanned : (ParseState.ofText source).scanned = []) :
    ∃ block, (SourceFile.parse path source).Consists (spaceName space) phrases block := by
  let state := fileStatements.next (.ofText source)
  let list := fileStatements.result (.ofText source)
  let arena := state.arena.add (.sourceFile path list) ⟨0, Text.byteSize source⟩
  have clean : state.diagnostics source = [] :=
    state.diagnostics_eq_nil _ yields.passes.reported (yields.passes.scanned.trans scanned)
  have root : arena.node? state.arena.size = some (.sourceFile path list) :=
    Arena.node?_add_size _ _ _
  have grows : state.arena.Extends arena := Arena.extends_add _ _ _
  have parsed : SourceFile.parse path source =
      { path, text := source, lines := .ofText source, arena, root := state.arena.size
        diagnostics := state.diagnostics source
        blocks := namespaceBlocks ⟨arena, .ofText source⟩ state.arena.size } := rfl
  have outcome : InBlock space
      (List.Forall₂ (fun phrase id => phrase.Means id state.arena) phrases) state.arena list :=
    yields.outcome
  rw [parsed]
  generalize LineMap.ofText source = lines
  cases space with
  | none =>
      have meant := means_later parses grows outcome
      have blockless : list.filterMap (namespaceBlock? ⟨arena, lines⟩) = [] :=
        namespaceBlock?_eq_none parses meant
      refine ⟨⟨"", state.arena.size, list, .none, .discover ⟨arena, lines⟩ "" list⟩, clean, ?_, rfl,
        rfl, meant⟩
      simp [namespaceBlocks, root, blockless]
  | some name =>
      obtain ⟨id, decl, only, found, named, meant⟩ := outcome
      refine ⟨⟨decl.name, id, decl.statements, decl.doc,
        .discover ⟨arena, lines⟩ decl.name decl.statements⟩, clean, ?_, named, ?_,
        means_later parses grows meant⟩
      · simp [namespaceBlocks, root, only, namespaceBlock?, grows _ _ found]
      · simp [named, spaceName]

/-- The file of a namespace, or of the global one, with its statements. -/
theorem parse_headed (path : String) {text : Text} (space : Option ImportedName)
    {phrases : List Phrase} (parses : ∀ phrase ∈ phrases, phrase.Parses)
    (front : frontOf text = .token) (inside : '>' ∉ text)
    (reads : ReadsAs text
      (symbolMarks (headerSymbols space) ++ phraseMarks phrases ++ [⟨.endOfFile, "", []⟩])) :
    ∃ block, (SourceFile.parse path (openTag ++ text)).Consists (spaceName space) phrases
      block := by
  obtain ⟨start, scanned⟩ := ParseState.ofText_stands (by simp) front inside reads
  exact consists_of_yields path parses (fileStatements_headed space parses start rfl) scanned

/-! What is registered. -/

/-- The imports that are in effect after some items, and the number of those whose name was
taken. -/
def registered (items : List ImportItem) : ImportTable × Nat :=
  items.foldl (fun known item =>
    match known.1.add? item with
    | some table => (table, known.2)
    | none => (known.1, known.2 + 1)) ({}, 0)

/-- Of these entities, nothing but imports has been registered. -/
structure Entities.Imports (entities : Entities) (space : String) (items : List ImportItem) :
    Prop where
  registered : (entities.imports, entities.skipped.length) = registered items
  space : entities.space = space
  classes : entities.classes = {}
  functions : entities.functions = {}

namespace Entities

variable {entities : Entities} {site : Site} {space : String} {items : List ImportItem}

theorem imports_empty (space : String) : Imports { space } space [] :=
  ⟨rfl, rfl, rfl, rfl⟩

theorem Imports.addImport (imports : entities.Imports space items) (node : NodeId)
    (item : ImportItem) : (entities.addImport site node item).Imports space (items ++ [item]) := by
  have known := imports.registered
  have again : StaticReflection.registered (items ++ [item]) =
      match entities.imports.add? item with
      | some table => (table, entities.skipped.length)
      | none => (entities.imports, entities.skipped.length + 1) := by
    rw [StaticReflection.registered, List.foldl_append, ← StaticReflection.registered, ← known]
    rfl
  unfold Entities.addImport
  split
  · rename_i table added
    rw [added] at again
    exact ⟨again.symm, imports.space, imports.classes, imports.functions⟩
  · rename_i taken
    rw [taken] at again
    refine ⟨?_, imports.space, imports.classes, imports.functions⟩
    rw [again]
    simp [skip]

theorem Imports.foldl_addImport (imports : entities.Imports space items) (node : NodeId)
    (more : List ImportItem) :
    (more.foldl (fun entities item => entities.addImport site node item) entities).Imports space
      (items ++ more) := by
  induction more generalizing entities items with
  | nil => rwa [List.append_nil]
  | cons item more ih =>
      rw [List.append_cons]
      exact ih (imports.addImport node item)

theorem Imports.foldl_addStatement (imports : entities.Imports space items)
    {statements : List ImportStatement} {ids : List NodeId}
    (meant : List.Forall₂
      (fun statement id => site.arena.node? id = some (.imports statement.items)) statements ids) :
    (ids.foldl (addStatement site) entities).Imports space
      (items ++ statements.flatMap ImportStatement.items) := by
  induction meant generalizing entities items with
  | nil => simpa using imports
  | @cons statement id _ _ found _ ih =>
      have one : (addStatement site entities id).Imports space (items ++ statement.items) := by
        rw [addStatement, found]
        exact imports.foldl_addImport id statement.items
      simpa using ih one

end Entities

/-- A namespace and imports, before anything else. -/
structure Heading where
  space : Option ImportedName := none
  imports : List ImportStatement := []

namespace Heading

def symbols (heading : Heading) : List Symbol :=
  headerSymbols heading.space ++ heading.imports.flatMap ImportStatement.symbols

/-- All that is imported, in order. -/
def items (heading : Heading) : List ImportItem :=
  heading.imports.flatMap ImportStatement.items

def phrases (heading : Heading) : List Phrase :=
  heading.imports.map ImportStatement.phrase

theorem phrases_parse (heading : Heading) : ∀ phrase ∈ heading.phrases, phrase.Parses :=
  List.forall_mem_map.mpr fun statement _ => statement.phrase_parses

theorem symbolMarks_symbols (heading : Heading) : symbolMarks heading.symbols =
    symbolMarks (headerSymbols heading.space) ++ phraseMarks heading.phrases := by
  rw [symbols, symbolMarks_append]
  congr 1
  simp [symbolMarks, phraseMarks, phrases, ImportStatement.phrase, List.flatMap_assoc,
    List.flatMap_map]

/-- A heading begins with a word, if it is there. -/
theorem symbols_eq (heading : Heading) :
    heading.symbols = [] ∨ ∃ name rest, heading.symbols = .name name :: rest := by
  obtain ⟨_ | name, imports⟩ := heading
  · cases imports with
    | nil => exact .inl rfl
    | cons statement imports => exact .inr ⟨_, _, rfl⟩
  · exact .inr ⟨_, _, rfl⟩

end Heading

end StaticReflection
