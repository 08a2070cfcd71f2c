import StaticReflection.Proofs.Parser.ExpressionNodes
import StaticReflection.Proofs.Parser.Termination

namespace StaticReflection.Grammar

open Parse

variable {limit : Nat} {kept : Shelf}

/-! What statements and files leave on the shelf. -/

/-- A statement that is skipped begins with its first token. -/
theorem skippedStatement_turns (pos : Nat) : (skippedStatement pos).TurnsAt
    (fun kind => kind ≠ .endOfFile ∧ kind ≠ .closeBrace) limit (.mark pos :: kept)
      fun id => .node id :: kept := by
  unfold skippedStatement
  refine .look next_kind fun firstToken => .bind
    (untilDone_turnsAt (fun _ => .begun pos :: kept) (fun depth => ?_) (.kind fun kind => ?_))
      fun _ => .settle (addNode_begun nofun)
  · refine .look next_kind fun kind => ?_
    split
    · exact .pure rfl
    · exact .bind advance_turns fun _ => .pure rfl
    · exact .bind advance_turns fun _ => .pure rfl
    · exact .bind advance_turns fun _ => .pure rfl
    · exact .bind advance_turns fun _ => .pure rfl
    · exact .bind advance_turns fun _ => .pure rfl
    · exact .bind advance_turns fun _ => .pure rfl
    · exact .bind advance_turns fun _ => .pure rfl
    · exact .ite (fun _ => .pure rfl) fun _ => .bind advance_turns fun _ => .pure rfl
    · exact .bind advance_turns fun _ => .pure rfl
  · split
    · exact fun _ here => absurd here.2 here.1.1
    · exact .bind (advance_begins []) fun _ => .pure rfl
    · exact .bind (advance_begins []) fun _ => .pure rfl
    · exact .bind (advance_begins []) fun _ => .pure rfl
    · exact .bind (advance_begins []) fun _ => .pure rfl
    · exact .bind (advance_begins []) fun _ => .pure rfl
    · exact .bind (advance_begins []) fun _ => .pure rfl
    · exact .bind (advance_begins []) fun _ => .pure rfl
    · exact fun _ here => absurd here.2 here.1.2
    · exact .bind (advance_begins []) fun _ => .pure rfl

theorem importKind?_turns : importKind?.Turns limit kept fun _ => kept := by
  unfold importKind?
  refine .look next_kind fun kind => ?_
  split
  · exact .bind advance_turns fun _ => .pure rfl
  · exact .bind advance_turns fun _ => .pure rfl
  · exact .pure rfl

theorem renamed?_turns : renamed?.Turns limit kept fun _ => kept :=
  .bind accept_turns fun _ => .ite (fun _ => word?_turns) fun _ => .pure rfl

theorem importGroup_turns (kind : ImportKind) (space : String) (known : List ImportItem) :
    (importGroup kind space known).Turns limit kept fun _ => kept := by
  unfold importGroup
  refine .bind (untilDone_turns (fun _ => kept) fun items => .look next_kind fun kind => ?_)
    fun _ => .bind expect_turns fun _ => .pure rfl
  split
  · exact .pure rfl
  · exact .pure rfl
  · refine .bind importKind?_turns fun _ => .look (next_ahead? _) fun _ => ?_
    refine .ite (fun _ => ?_) fun _ => .bind (report_keeps _) fun _ => .pure rfl
    refine .look next_value fun _ => .bind advance_turns fun _ => ?_
    exact .bind renamed?_turns fun _ => .bind accept_turns fun _ => .pure rfl

theorem importStatement_turns : importStatement.Turns limit kept fun id => .node id :: kept := by
  unfold importStatement
  refine .fromHere fun pos => .bind (advance_begins []) fun _ =>
    .bind importKind?_turns fun kind => ?_
  refine .bind (untilDone_turns (fun _ => .begun pos :: kept) fun items => ?_)
    fun items => .bind expect_turns fun _ => addNode_begun nofun
  refine .look (next_ahead? _) fun _ => .ite (fun _ => ?_) fun _ => ?_
  · refine .look next_value fun _ => .bind advance_turns fun _ => .bind acceptIf_turns fun _ => ?_
    refine .ite (fun _ => ?_) fun _ => ?_
    · exact .bind (importGroup_turns _ _ _) fun _ => .bind accept_turns fun _ => .pure rfl
    · refine .bind renamed?_turns fun _ => .look (next_pure _) fun _ => ?_
      exact .bind accept_turns fun _ => .pure rfl
  · exact .bind (reportExpected_turns _) fun _ => .drop (.pure rfl)

theorem constStatement_turns (doc : Option String) :
    (constStatement doc).Turns limit kept fun id => .node id :: kept :=
  .fromHere fun _ => .bind (advance_begins []) fun _ =>
    .bind (constDeclarators_turns expression_turns) fun _ =>
      .bind expect_turns fun _ => addNode_begun nofun

theorem functionStatement_turns (doc : Option String) :
    (functionStatement doc).Turns limit kept fun id => .node id :: kept :=
  .fromHere fun _ => .bind (functionDecl_turns expression_turns _ _) fun _ => addNode_begun nofun

theorem classModifiers_turns : classModifiers.Turns limit kept fun _ => kept := by
  refine untilDone_turns (fun _ => kept) fun modifiers => .look next_kind fun kind => ?_
  split
  · exact .bind advance_turns fun _ => .pure rfl
  · exact .pure rfl

theorem classStatement_turns (doc : Option String) :
    (classStatement doc).Turns limit kept fun id => .node id :: kept := by
  unfold classStatement
  refine .bind classModifiers_turns fun modifiers => .fromHere fun pos => ?_
  refine .look next_doc fun _ => .look next_kind fun kind => .bind (advance_begins []) fun _ => ?_
  refine .bind word?_turns fun name => ?_
  exact .bind (classTail_turns expression_turns _ _ _ _) fun decl => addNode_begun nofun

theorem expressionStatement_turns :
    expressionStatement.Turns limit kept fun id => .node id :: kept := by
  unfold expressionStatement
  refine .fromHere fun pos => .bind (expression_turns _) fun whole => .look (next_at? _) fun _ => ?_
  exact .ite (fun _ => .bind expect_turns fun _ => addNode_over nofun) fun _ => addNode_over nofun

theorem statement_turns : statement.Turns limit kept fun member => nodes member.toList kept := by
  unfold statement
  refine .bind position_turns fun pos => .bind docAcrossAttributes_turns fun doc => ?_
  refine .kind fun kind => ?_
  split
  · exact .drop (.bind advance_turns fun _ => .pure rfl)
  · exact .drop (.pure rfl)
  · exact .drop (.pure rfl)
  · exact .drop (.bind importStatement_turns.anywhere fun _ => .pure rfl)
  · exact .drop (.bind (constStatement_turns doc).anywhere fun _ => .pure rfl)
  · refine .still (report_still _).cursor (report_keeps _) fun _ => ?_
    exact .bind ((skippedStatement_turns pos).atKind (by simp)) fun _ => .pure rfl
  · refine .look (next_ahead? _) fun _ => .ite (fun _ => ?_) fun _ => ?_
    · exact .drop (.bind (functionStatement_turns doc).anywhere fun _ => .pure rfl)
    refine .look (next_ahead? _) fun _ => .ite (fun _ => ?_) fun _ => ?_
    · exact .drop (.bind (classStatement_turns doc).anywhere fun _ => .pure rfl)
    refine .look (next_ahead? _) fun _ => .ite (fun _ => .drop ?_) fun _ => ?_
    · exact fun _ _ holds => holds.congr rfl rfl fun clean => ⟨clean.reported, clean.stalled⟩
    refine .look (next_ahead? _) fun _ => .ite (fun _ => ?_) fun _ => ?_
    · exact .drop (.bind expressionStatement_turns.anywhere fun _ => .pure rfl)
    · exact .bind ((skippedStatement_turns pos).atKind (by grind)) fun _ => .pure rfl

theorem statements_turns {stops : TokenKind → Bool} {braced : Bool} {one : Parse (Option NodeId)}
    (each : ∀ kept, one.Turns limit kept fun member => nodes member.toList kept) :
    (statements stops braced one).Turns limit kept fun list => nodes list kept := by
  refine untilDone_turns (fun list => nodes list kept) fun list => ?_
  unfold nextStatement
  refine .look next_kind fun kind => .look next_get fun _ => .ite (fun _ => .pure rfl) fun _ => ?_
  refine .ite (fun _ => ?_) fun _ => ?_
  · exact .bind (report_keeps _) fun _ => .bind advance_turns fun _ => .pure rfl
  exact .bind (each _) fun member => .look next_get fun _ => .pure (by simp)

theorem namespaceName_turns : namespaceName.Turns limit kept fun _ => kept := by
  unfold namespaceName
  refine .look (next_ahead? _) fun _ => .ite (fun _ => ?_) fun _ => .pure rfl
  exact .look next_value fun _ => .bind advance_turns fun _ => .pure rfl

theorem namespaceStatement_turns :
    namespaceStatement.Turns limit kept fun id => .node id :: kept := by
  unfold namespaceStatement
  refine .fromHere fun pos => .look next_doc fun doc => .bind (advance_begins []) fun _ => ?_
  refine .bind namespaceName_turns fun name => .bind accept_turns fun _ => .ite (fun _ =>
    ?_) fun _ => ?_
  · refine .bind (statements_turns fun _ => statement_turns) fun list => ?_
    exact .bind expect_turns fun _ => addNode_begun nofun
  · refine .when (fun _ => report_keeps _) (.bind expect_turns fun _ => ?_)
    exact .bind (statements_turns fun _ => statement_turns) fun list => addNode_begun nofun

theorem topStatement_turns :
    topStatement.Turns limit kept fun member => nodes member.toList kept :=
  .look (next_at? _) fun _ =>
    .ite (fun _ => .bind namespaceStatement_turns fun _ => .pure rfl) fun _ => statement_turns

theorem fileStatements_turns : fileStatements.Turns limit kept fun list => nodes list kept :=
  statements_turns fun _ => topStatement_turns

end StaticReflection.Grammar

namespace StaticReflection

open Grammar Parse

theorem Cursor.tiled_ofTokens {limit : Nat} {before : List Token} {last : Token}
    (tiles : Tiles limit 0 (before ++ [last])) (start : last.span.start = limit) :
    (Cursor.ofTokens (before ++ [last])).Tiled limit := by
  cases before with
  | nil => exact ⟨tiles, start⟩
  | cons token before => exact ⟨tiles, by simpa [Cursor.ofTokens, Cursor.of] using start⟩

theorem ParseState.holds_ofText (text : Text) :
    (ParseState.ofText text).Holds text.byteSize [] where
  tiled := by
    obtain ⟨before, last, tokens, _, _, _, start⟩ := Scanner.tokens_exhausts { rest := text }
    have tiles := tokenize_tiles text
    change (Cursor.ofTokens (tokenize text)).Tiled text.byteSize
    unfold tokenize at tiles ⊢
    rw [tokens] at tiles ⊢
    exact Cursor.tiled_ofTokens tiles (by simpa using start)
  forest := Arena.forest_empty
  loose listed := absurd listed List.not_mem_nil
  apart := .nil
  laid _ := ⟨Arena.placed_empty, nofun, .nil⟩

theorem dedupByStart_eq_nil {entries : List (String × Nat)}
    (clean : dedupByStart none entries = []) : entries = [] := by
  cases entries with
  | nil => rfl
  | cons entry rest =>
      rw [dedupByStart, if_neg nofun] at clean
      cases clean

theorem ParseState.reported_of_diagnostics {s : ParseState} {text : Text}
    (clean : s.diagnostics text = []) : s.reported = [] := by
  have sorted := dedupByStart_eq_nil (List.map_eq_nil_iff.mp clean)
  have counted := congrArg List.length sorted
  have both : s.reported = [] ∧ s.scanned = [] := by simpa using counted
  exact both.1

theorem fileStatements_holds (text : Text) :
    (fileStatements.next (.ofText text)).Holds text.byteSize
      (nodes (fileStatements.result (.ofText text)) []) :=
  fileStatements_turns _ trivial (ParseState.holds_ofText text)

theorem forest_parseFile (path : String) (text : Text) : (parseFile path text).arena.Forest :=
  have holds := fileStatements_holds text
  holds.forest.add holds.loose_children holds.nodup_children

/-- The nodes of a file form a forest whose last tree is the file itself: children come
before their parents, and no node has two. If there is nothing to report, nothing is missing
from it, every node lies in the text and inside its parent, and siblings stand in the order
of the text. -/
theorem nodes_placed (path : String) (text : Text) :
    let file := parseFile path text
    file.arena.Forest ∧ (WellFounded fun child id => child ∈ file.arena.children id) ∧
    file.root + 1 = file.arena.size ∧
    (file.diagnostics = [] → file.arena.Placed text.byteSize) := by
  intro file
  let last := fileStatements.next (.ofText text)
  have holds := fileStatements_holds text
  have forest : file.arena.Forest := forest_parseFile path text
  refine ⟨forest, ?_, Arena.size_add.symm, fun accepted => ?_⟩
  · exact Subrelation.wf (fun listed => forest.below listed) Nat.lt_wfRel.wf
  · have onward : ParseState.Onward (.ofText text) last :=
      (untilDone_movesOn fileSteps _ (ParseState.ofText_ready text)).1
    have clean : last.Clean := ⟨last.reported_of_diagnostics accepted, onward.stalled⟩
    have laid := holds.laid clean
    have sorted := laid.sorted
    rw [nodes_eq, List.append_nil, List.pairwise_reverse, List.pairwise_map] at sorted
    refine laid.placed.add holds.forest nofun (Nat.zero_le _) (Nat.le_refl _)
      holds.loose_children (fun child _ => ?_) sorted
    exact ⟨Nat.zero_le _, laid.placed.bounded child⟩

/-- The arguments of an anonymous class come after its word and before its members, of which
they are no siblings. -/
theorem nodes_of_anonymous_class_placed :
    let text : Text := "<?php const C = new class(1, 2) \x7b const D = 3; \x7d;".toList
    let file := parseFile "/app/a.php" text
    file.diagnostics = [] ∧ file.arena.Placed text.byteSize := by
  intro text file
  have accepted : file.diagnostics = [] := by decide +kernel
  exact ⟨accepted, (nodes_placed _ text).2.2.2 accepted⟩

end StaticReflection
