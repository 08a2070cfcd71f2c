import StaticReflection.Grammar.File
import StaticReflection.Proofs.Parser.ReparsedExpressions
import StaticReflection.Proofs.Scanner.RenderedTokens

namespace StaticReflection

open Parse ParseState Grammar

/-! Parsing a file with a rendered expression gives the tree back. -/

/-- What is said of a node still holds when nodes are added. -/
def Lasting (P : NodeId → Arena → Prop) : Prop :=
  ∀ (id : NodeId) (arena larger : Arena), arena.Extends larger → P id arena → P id larger

/-- A node of the arena defines the constant by a value of which something is said. -/
def Arena.Defines (Q : NodeId → Arena → Prop) (statement : NodeId) (arena : Arena) : Prop :=
  ∃ doc declarator value, arena.node? statement = some (.constStatement [declarator] doc) ∧
    arena.node? declarator = some (.constDeclarator "X" value) ∧ Q value arena

/-- A node of the arena defines the constant. -/
def Arena.Declares (arena : Arena) (e : Expr) (statement : NodeId) : Prop :=
  ∃ doc declarator value, arena.node? statement = some (.constStatement [declarator] doc) ∧
    arena.node? declarator = some (.constDeclarator "X" value) ∧ arena.Unfolds e value

theorem Lasting.defines {Q : NodeId → Arena → Prop} (lasting : Lasting Q) :
    Lasting (Arena.Defines Q) := by
  rintro id arena larger grows ⟨doc, declarator, value, first, second, outcome⟩
  exact ⟨doc, declarator, value, grows _ _ first, grows _ _ second, lasting _ _ _ grows outcome⟩

theorem lasting_unfolds (e : Expr) : Lasting fun id arena => arena.Unfolds e id :=
  fun _ _ _ grows unfolds => unfolds.mono grows

section Declaration

variable {s : ParseState} {depth : Nat} {after marks : List Mark} {mark : Mark}
  {P Q : NodeId → Arena → Prop}

theorem word?_yields {value : String}
    (here : s.At depth (⟨.identifier, value, []⟩ :: mark :: after)) :
    word?.Yields s [⟨.identifier, value, []⟩] fun out _ => out = some value := by
  have isWord : s.cursor.isWord = true := by
    rw [Cursor.isWord, here.kind]
    rfl
  refine .ahead? isWord (.look rfl (.advance here (by simp) fun _ _ => .pure ?_))
  have kind : s.cursor.current.kind = .identifier := here.kind
  simp [kind, here.value]

theorem constDeclarators_yields {next : Mark} (lasting : Lasting Q)
    (value : ∀ {s : ParseState}, s.At depth (marks ++ ⟨.semicolon, "", []⟩ :: next :: after) →
      expression.Yields s marks Q)
    (here : s.At depth (⟨.identifier, "X", []⟩ :: ⟨.equals, "", []⟩ ::
      (marks ++ ⟨.semicolon, "", []⟩ :: next :: after))) :
    (constDeclarators expression).Yields s
      (⟨.identifier, "X", []⟩ :: ⟨.equals, "", []⟩ :: marks)
      fun out arena => ∃ declarator valueId, out = [declarator] ∧
        arena.node? declarator = some (.constDeclarator "X" valueId) ∧ Q valueId arena := by
  refine .done (.position ?_)
  rw [← List.singleton_append]
  refine (word?_yields here).bind ?_
  rintro _ t passes rfl
  refine .expect (At.after here passes) rfl (by simp) fun more there => ?_
  refine .andThen (value there) fun valueId u last outcome => ?_
  refine .andThen (.addNode _ _) fun declarator v added found => ?_
  refine .acceptOther (At.after (there.after last) added) (by decide) (.pure ⟨rfl, ?_⟩)
  exact ⟨declarator, valueId, rfl, found, lasting _ _ _ added.arena outcome⟩

/-- The tokens of a declaration with a value of the given marks. -/
def definitionMarks (marks : List Mark) : List Mark :=
  ⟨.constKw, "const", []⟩ :: ⟨.identifier, "X", []⟩ :: ⟨.equals, "", []⟩ ::
    (marks ++ [⟨.semicolon, "", []⟩])

theorem constStatement_yields {doc : Option String} (lasting : Lasting Q)
    (value : ∀ {s : ParseState}, s.At depth (marks ++ ⟨.semicolon, "", []⟩ :: mark :: after) →
      expression.Yields s marks Q)
    (here : s.At depth (definitionMarks marks ++ mark :: after)) :
    (constStatement doc).Yields s (definitionMarks marks)
      fun id arena => arena.Defines Q id := by
  have whole : s.At depth (⟨.constKw, "const", []⟩ :: ⟨.identifier, "X", []⟩ ::
      ⟨.equals, "", []⟩ :: (marks ++ ⟨.semicolon, "", []⟩ :: mark :: after)) := by
    simpa [definitionMarks] using here
  refine .position (.advance whole (by simp) fun _ there => ?_)
  refine (constDeclarators_yields lasting value there).bind ?_
  rintro _ t passes ⟨declarator, valueId, rfl, found, outcome⟩
  refine .expect (At.after there passes) rfl (by simp) fun more _ => ?_
  refine .adds fun id arena grows there => ?_
  have onward := more.arena.trans grows
  exact ⟨doc, declarator, valueId, there, onward _ _ found, lasting _ _ _ onward outcome⟩

/-- Without attributes, a documentation comment is only looked at. -/
theorem docAcrossAttributes_looks (plain : s.cursor.kind ≠ .attributeStart) :
    docAcrossAttributes s = (s.cursor.current.doc.map (·.text), s) := by
  change (if (s.cursor.kind == .attributeStart) = true then _ else _ : Parse _) s = _
  rw [if_neg (by simpa using plain)]
  rfl

theorem topStatement_yields (lasting : Lasting Q)
    (value : ∀ {s : ParseState}, s.At depth (marks ++ ⟨.semicolon, "", []⟩ :: mark :: after) →
      expression.Yields s marks Q)
    (here : s.At depth (definitionMarks marks ++ mark :: after)) :
    topStatement.Yields s (definitionMarks marks)
      fun out arena => ∃ id, out = some id ∧ arena.Defines Q id := by
  have plain : s.cursor.kind ≠ .attributeStart := by
    rw [At.kind here]
    decide
  refine .at? here (.position (.look (docAcrossAttributes_looks plain) (.kind here ?_)))
  refine .andThen (constStatement_yields lasting value here) fun id t _ defines => .pure ?_
  exact ⟨id, rfl, defines⟩

/-- The only statement of a file. -/
theorem fileStatements_yields
    (top : topStatement.Yields s (mark :: marks) fun out arena => ∃ id, out = some id ∧ P id arena)
    (here : s.At depth (mark :: marks ++ [⟨.endOfFile, "", []⟩]))
    (begins : mark.kind ≠ .endOfFile ∧ mark.kind ≠ .closeBrace) (going : s.halted = false) :
    fileStatements.Yields s (mark :: marks) fun list arena => ∃ id, list = [id] ∧ P id arena := by
  have step : (nextStatement (fun _ => false) false topStatement []).Yields s
      (mark :: marks) fun out arena => out.2 = true ∧ ∃ id, out.1 = [id] ∧ P id arena := by
    refine .kind here (.look rfl ?_)
    simp only [going, beq_eq_false_iff_ne.mpr begins.1, beq_eq_false_iff_ne.mpr begins.2]
    refine .andThen top ?_
    rintro _ t passes ⟨id, rfl, outcome⟩
    refine .look rfl (.pure ⟨?_, id, rfl, outcome⟩)
    rw [passes.halted, going]
    rfl
  have there := here.after step.passes
  obtain ⟨_, id, list, outcome⟩ := step.outcome
  rw [← List.append_nil (mark :: marks)]
  refine .more (step.mono fun _ _ outcome => outcome.1) (by simp) ?_
  exact .done (.kind there (.look rfl (.pure ⟨rfl, id, list, outcome⟩)))

end Declaration

theorem ParseState.diagnostics_eq_nil {s : ParseState} (text : Text) (reported : s.reported = [])
    (scanned : s.scanned = []) : s.diagnostics text = [] := by
  simp [diagnostics, reported, scanned, dedupByStart]

theorem ParseState.ofText_at {text : Text} {marks : List Mark} (nonempty : marks ≠ [])
    (tokens : (tokenize text).map Token.mark = marks)
    (sound : ∀ token ∈ tokenize text, token.problems = []) :
    (ParseState.ofText text).At 0 marks ∧ (ParseState.ofText text).scanned = [] := by
  cases all : tokenize text with
  | nil => simp_all
  | cons token rest =>
      rw [all] at tokens sound
      have first := sound token List.mem_cons_self
      refine ⟨⟨?_, ?_, rfl⟩, ?_⟩
      · simpa [ParseState.ofText, all, Cursor.ofTokens, ParseState.marks, Cursor.of] using tokens
      · intro later among
        apply sound later
        simp only [ParseState.ofText, all, Cursor.ofTokens, Cursor.of] at among
        exact List.mem_cons_of_mem _ among
      · simp [ParseState.ofText, all, Cursor.ofTokens, Cursor.of, first]

/-- The one statement of a file defines the constant. -/
def ParsedFile.Declares (file : ParsedFile) (e : Expr) : Prop :=
  ∃ path statement, file.arena.node? file.root = some (.sourceFile path [statement]) ∧
    file.arena.Declares e statement

theorem ParsedFile.Declares.unique {file : ParsedFile} {e other : Expr}
    (first : file.Declares e) (second : file.Declares other) : e = other := by
  obtain ⟨path, statement, root, doc, declarator, value, stated, declared, unfolds⟩ := first
  obtain ⟨_, _, root', _, _, _, stated', declared', unfolds'⟩ := second
  cases root.symm.trans root'
  cases stated.symm.trans stated'
  cases declared.symm.trans declared'
  exact unfolds.unique unfolds'

theorem parseFile_yields (path : String) {text : Text} {marks : List Mark}
    {P : NodeId → Arena → Prop} (lasting : Lasting P)
    (yields : fileStatements.Yields (.ofText text) marks
      fun list arena => ∃ id, list = [id] ∧ P id arena)
    (scanned : (ParseState.ofText text).scanned = []) :
    let file := parseFile path text
    file.diagnostics = [] ∧ ∃ path statement,
      file.arena.node? file.root = some (.sourceFile path [statement]) ∧
        P statement file.arena := by
  intro file
  obtain ⟨statement, list, outcome⟩ := yields.outcome
  let state := fileStatements.next (.ofText text)
  have parsed : file =
      { arena := state.arena.add (.sourceFile path (fileStatements.result (.ofText text)))
          ⟨0, text.byteSize⟩
        root := state.arena.size
        diagnostics := state.diagnostics text } := rfl
  rw [parsed]
  constructor
  · exact state.diagnostics_eq_nil text yields.passes.reported
      (yields.passes.scanned.trans scanned)
  · refine ⟨path, statement, ?_, lasting _ _ _ (Arena.extends_add _ _ _) outcome⟩
    rw [← list]
    exact Arena.node?_add_size _ _ _

/-- A file whose only statement defines a constant, by a value that is parsed without a
problem. -/
theorem parseFile_defines (path : String) {text : Text} {marks : List Mark}
    {Q : NodeId → Arena → Prop} (lasting : Lasting Q)
    (tokens : (tokenize text).map Token.mark = definitionMarks marks ++ [⟨.endOfFile, "", []⟩])
    (sound : ∀ token ∈ tokenize text, token.problems = [])
    (value : ∀ {s : ParseState},
      s.At 0 (marks ++ [⟨.semicolon, "", []⟩, ⟨.endOfFile, "", []⟩]) →
      expression.Yields s marks Q) :
    let file := parseFile path text
    file.diagnostics = [] ∧ ∃ path statement,
      file.arena.node? file.root = some (.sourceFile path [statement]) ∧
        file.arena.Defines Q statement := by
  obtain ⟨start, scanned⟩ := ParseState.ofText_at (by simp [definitionMarks]) tokens sound
  have top := topStatement_yields lasting value start
  exact parseFile_yields _ lasting.defines (fileStatements_yields top start (by decide) rfl) scanned

/-- A rendered expression in which no more expressions are open at once than the parser
accepts is parsed without a problem, and its node stands for that expression and no
other. -/
theorem parseFile_declaration (path : String) (style : Style) (e : Expr)
    (within : e.nesting style.bare ≤ maxDepth) :
    let file := parseFile path (e.declaration style)
    file.diagnostics = [] ∧ ∀ other, file.Declares other ↔ other = e := by
  obtain ⟨tokens, sound⟩ := e.tokenize_declaration style
  have marked : (tokenize (e.declaration style)).map Token.mark =
      definitionMarks ((e.pieces style.bare).map Piece.mark) ++ [⟨.endOfFile, "", []⟩] := by
    simp [tokens, definitionMarks]
  have value : ParsesAs expression 0 0 (e.pieces style.bare) e :=
    e.parsable style.bare (maxDepth + 1) 0 (by omega) (by omega)
  have semicolon : EndsAt 0 .semicolon := endsAt_of_unbound rfl (by decide) rfl 0
  obtain ⟨clean, name, statement, root, defines⟩ := parseFile_defines path (lasting_unfolds e)
    marked sound fun here => value _ _ _ semicolon here
  have declares : (parseFile path (e.declaration style)).Declares e :=
    ⟨name, statement, root, defines⟩
  refine ⟨clean, fun other => ⟨fun found => found.unique declares, ?_⟩⟩
  rintro rfl
  exact declares

/-- An operator between a short ternary and an array with an item of each form. -/
def Expr.sample : Expr :=
  let limit : ConstantName := ⟨⟨⟨['L', 'i', 'm'], by decide, by decide⟩, by decide⟩,
    by decide⟩
  let owner : ClassName := ⟨⟨['i', 'n', 't'], by decide, by decide⟩, by decide⟩
  let member : MemberName := ⟨⟨['l', 'i', 's', 't'], by decide, by decide⟩, by decide⟩
  let items : Items := .cons (.spread (.unary .minus (.int 5 (by decide))))
    (.cons (.keyed (.str "a'\\b") (.dim (.array true .nil) (.int 0 (by decide))))
      (.cons (.plain (.const limit)) .nil))
  .binary ⟨.questionQuestion, by decide, by decide⟩
    (.shortTernary (.const limit) (.classConst owner member)) (.array false items)

theorem parseFile_sample :
    Expr.sample.declaration ⟨0, true⟩ =
      "<?php const X = ((Lim)?:(int::list))??(array(...-(5),'a\\'\\\\b'=>([])[0],Lim));".toList ∧
    let file := parseFile "a.php" (Expr.sample.declaration ⟨0, true⟩)
    file.diagnostics = [] ∧ ∀ other, file.Declares other ↔ other = Expr.sample :=
  ⟨by decide, parseFile_declaration "a.php" ⟨0, true⟩ .sample (by decide)⟩

end StaticReflection
