import Mathlib.Logic.Function.Iterate
import StaticReflection.Proofs.Parser.ExpressionProgress
import StaticReflection.Proofs.Scanner.WholeText

namespace StaticReflection.Grammar

open Parse

variable {room : Nat}

/-! Statements, files, and the end of every parse. -/

theorem skippedStatement_consumes (pos : Nat) : (skippedStatement pos).ConsumesAt room
    fun kind => kind ≠ .endOfFile ∧ kind ≠ .closeBrace := by
  unfold skippedStatement
  refine .still kind_still fun firstToken => ?_
  refine .first (untilDone_consumes (fun depth => .kind fun kind => ?_) (.kind fun kind => ?_))
    fun _ => (addNode_still _ _).movesOn
  · split
    · exact .last
    · exact .advance (by simp) pure_movesOn
    · exact .advance (by simp) pure_movesOn
    · exact .advance (by simp) pure_movesOn
    · exact .advance (by simp) pure_movesOn
    · exact .advance (by simp) pure_movesOn
    · exact .advance (by simp) pure_movesOn
    · exact .advance (by simp) pure_movesOn
    · exact .ite (fun _ => .last) fun _ => .advance (by simp) pure_movesOn
    · exact .advance (by grind) pure_movesOn
  · split
    · exact .pure fun _ _ here => absurd here.2 here.1.1
    · exact .advance (by simp) pure_movesOn
    · exact .advance (by simp) pure_movesOn
    · exact .advance (by simp) pure_movesOn
    · exact .advance (by simp) pure_movesOn
    · exact .advance (by simp) pure_movesOn
    · exact .advance (by simp) pure_movesOn
    · exact .advance (by simp) pure_movesOn
    · exact .pure fun _ _ here => absurd here.2 here.1.2
    · exact .advance (by simp) pure_movesOn

theorem importKind?_movesOn : importKind?.MovesOn room := by
  unfold importKind?
  refine .still kind_still fun kind => ?_
  split
  · exact .bind advance_movesOn fun _ => pure_movesOn
  · exact .bind advance_movesOn fun _ => pure_movesOn
  · exact pure_movesOn

theorem renamed?_movesOn : renamed?.MovesOn room :=
  .bind accept_movesOn fun _ => .ite (fun _ => word?_movesOn) fun _ => pure_movesOn

theorem importGroup_movesOn (kind : ImportKind) (space : String) (known : List ImportItem) :
    (importGroup kind space known).MovesOn room := by
  unfold importGroup
  refine .bind (untilDone_movesOn fun items => .kind fun kind => ?_) fun _ => ?_
  · split
    · exact .last
    · exact .last
    · refine .bind importKind?_movesOn fun _ => .still (ahead?_still _) fun _ => ?_
      refine .ite (fun _ => ?_) fun _ => .still (report_still _) fun _ => .last
      refine .still value_still fun _ => .bind advance_movesOn fun _ => ?_
      exact .bind renamed?_movesOn fun _ => .accept nofun pure_movesOn .last
  · exact .bind expect_movesOn fun _ => pure_movesOn

theorem importStatement_consumes : importStatement.ConsumesAt room (· ≠ .endOfFile) := by
  unfold importStatement
  refine .still position_still fun pos => .advance (fun ended => ended rfl) ?_
  refine .bind importKind?_movesOn fun kind => .bind (untilDone_movesOn fun items => ?_) fun _ => ?_
  · refine .still (ahead?_still _) fun _ => .ite (fun _ => ?_) fun _ => ?_
    · refine .still value_still fun _ => .bind advance_movesOn fun _ => ?_
      refine .bind acceptIf_movesOn fun _ => .ite (fun _ => ?_) fun _ => ?_
      · refine .bind (importGroup_movesOn _ _ _) fun _ => .accept nofun pure_movesOn .last
      · refine .bind renamed?_movesOn fun _ => .still (pure_still _) fun _ => ?_
        exact .accept nofun pure_movesOn .last
    · exact .still (reportExpected_still _) fun _ => .last
  · exact .bind expect_movesOn fun _ => (addNode_still _ _).movesOn

theorem constStatement_consumes (doc : Option String) :
    (constStatement doc).ConsumesAt (maxDepth + 1) (· ≠ .endOfFile) :=
  .still position_still fun _ => .advance (fun ended => ended rfl) <|
    .bind (constDeclarators_movesOn expression_consumes.movesOn) fun _ =>
      .bind expect_movesOn fun _ => (addNode_still _ _).movesOn

theorem functionStatement_consumes (doc : Option String) :
    (functionStatement doc).ConsumesAt (maxDepth + 1) (· = .functionKw) :=
  .still position_still fun _ =>
    .first (functionDecl_consumes expression_consumes.movesOn _ _) fun _ =>
      (addNode_still _ _).movesOn

theorem classModifiers_consumes :
    classModifiers.ConsumesAt room fun kind => (classModifier? kind).isSome := by
  refine untilDone_consumes_of_more (fun modifiers => .kind fun kind => ?_) fun s here => ?_
  · split
    · rename_i modifier isModifier
      refine .advance ?_ pure_movesOn
      rintro ⟨_, rfl⟩
      cases isModifier
    · exact .last
  · obtain ⟨modifier, isModifier⟩ := Option.isSome_iff_exists.mp here
    rw [result_bind, result_kind, isModifier]
    rfl

theorem classModifiers_idle {s : ParseState}
    (other : ¬ (classModifier? s.cursor.kind).isSome) :
    classModifiers s = (WrittenModifiers.none, s) := by
  refine untilDone_of_done ?_
  rw [kind_bind, Option.not_isSome_iff_eq_none.mp other]
  rfl

theorem classStatement_consumes (doc : Option String) :
    (classStatement doc).ConsumesAt (maxDepth + 1) (· ≠ .endOfFile) := by
  unfold classStatement
  refine .orIdle classModifiers_consumes (fun _ => classModifiers_idle) fun modifiers => ?_
  refine .still position_still fun pos => .still doc_still fun _ => .still kind_still fun kind => ?_
  refine .advance (fun here => here.1 rfl) (.bind word?_movesOn fun name => ?_)
  refine .bind (classTail_movesOn expression_consumes.movesOn _ _ _ _) fun decl => ?_
  exact (addNode_still _ _).movesOn

theorem expressionStatement_consumes :
    expressionStatement.ConsumesAt (maxDepth + 1) fun kind =>
      kind = .identifier ∨ kind = .qualifiedName := by
  unfold expressionStatement
  refine .still position_still fun pos => .first expression_consumes fun _ => ?_
  refine .still (at?_still _) fun _ => .ite (fun _ => ?_) fun _ => (addNode_still _ _).movesOn
  exact .bind expect_movesOn fun _ => (addNode_still _ _).movesOn

theorem functionKw_of_isFunctionStatement {cursor : Cursor}
    (declares : isFunctionStatement cursor = true) : cursor.kind = .functionKw := by
  simp only [isFunctionStatement, Bool.and_eq_true, beq_iff_eq] at declares
  exact declares.1

theorem name_of_isDefineCall {cursor : Cursor} (defines : isDefineCall cursor = true) :
    cursor.kind = .identifier ∨ cursor.kind = .qualifiedName := by
  simp only [isDefineCall, Cursor.isName, Bool.and_eq_true, Bool.or_eq_true, beq_iff_eq]
    at defines
  exact defines.1.1

/-- A statement consumes a token, unless it ends the code. -/
theorem statement_consumes : statement.Consumes (maxDepth + 1)
    (fun kind => kind ≠ .endOfFile ∧ kind ≠ .closeBrace) fun _ t => t.halted = false := by
  unfold statement
  refine .still position_still fun pos => .docAcrossAttributes fun doc => .kind fun kind => ?_
  split
  · exact .advance (by simp) pure_movesOn
  · exact .pure fun _ _ here => absurd here.2 here.1.1.1
  · exact .pure fun _ _ here => absurd here.2 here.1.1.2
  · refine .first (importStatement_consumes.atKind ?_) fun _ => pure_movesOn
    exact fun _ here => here.1.1.1
  · refine .first ((constStatement_consumes doc).atKind ?_) fun _ => pure_movesOn
    exact fun _ here => here.1.1.1
  · refine .still (report_still _) fun _ => ?_
    refine .first ((skippedStatement_consumes pos).atKind ?_) fun _ => pure_movesOn
    exact fun _ here => here.1.1
  · refine .ahead? (L := (· = .functionKw)) (fun _ => functionKw_of_isFunctionStatement) ?_ ?_
    · refine .first ((functionStatement_consumes doc).atKind ?_) fun _ => pure_movesOn
      exact fun _ here => here.2
    refine .still (ahead?_still _) fun _ => .ite (fun _ => ?_) fun _ => ?_
    · refine .first ((classStatement_consumes doc).atKind ?_) fun _ => pure_movesOn
      exact fun _ here => here.1.1.1
    refine .still (ahead?_still _) fun _ => .ite (fun _ => ?_) fun _ => ?_
    · -- The state after this one is halted.
      exact fun s _ => ⟨⟨id, Nat.le_refl _, rfl, rfl⟩, fun _ => nofun⟩
    refine .ahead? (L := fun kind => kind = .identifier ∨ kind = .qualifiedName)
      (fun _ => name_of_isDefineCall) ?_ ?_
    · refine .first (expressionStatement_consumes.atKind ?_) fun _ => pure_movesOn
      exact fun _ here => here.2
    · refine .first ((skippedStatement_consumes pos).atKind ?_) fun _ => pure_movesOn
      exact fun _ here => here.1.1

section Statements

variable {stops : TokenKind → Bool} {braced : Bool} {one : Parse (Option NodeId)}
  (each : one.Consumes (maxDepth + 1) (fun kind => kind ≠ .endOfFile ∧ stops kind = false ∧
    (kind = .closeBrace → braced = true)) fun _ t => t.halted = false)
include each

theorem nextStatement_steps : Steps (maxDepth + 1) (nextStatement stops braced one) := by
  intro list
  unfold nextStatement
  refine .kind fun kind => .still get_still fun before => .ite (fun _ => .last) fun more => ?_
  simp only [Bool.or_eq_true, beq_iff_eq, not_or] at more
  refine .ite (fun _ => .still (report_still _) fun _ => .advance ?_ pure_movesOn) fun within => ?_
  · exact fun here => more.1.1 here.2.symm
  · refine (each.atKind ?_).andThen (fun _ => .still get_still fun _ => pure_movesOn) ?_
    · rintro _ ⟨_, rfl⟩
      grind
    · intro value t more
      simpa using more

theorem statements_movesOn : (statements stops braced one).MovesOn (maxDepth + 1) :=
  untilDone_movesOn (nextStatement_steps each)

end Statements

theorem namespaceName_movesOn : namespaceName.MovesOn room := by
  unfold namespaceName
  refine .still (ahead?_still _) fun _ => .ite (fun _ => ?_) fun _ => pure_movesOn
  exact .still value_still fun _ => .bind advance_movesOn fun _ => pure_movesOn

theorem namespaceStatement_consumes :
    namespaceStatement.ConsumesAt (maxDepth + 1) (· ≠ .endOfFile) := by
  unfold namespaceStatement
  refine .still position_still fun pos => .still doc_still fun doc => ?_
  refine .advance (fun ended => ended rfl) (.bind namespaceName_movesOn fun name => ?_)
  refine .bind accept_movesOn fun _ => .ite (fun _ => ?_) fun _ => ?_
  · refine .bind (statements_movesOn (statement_consumes.atKind ?_)) fun _ => ?_
    · grind
    · exact .bind expect_movesOn fun _ => (addNode_still _ _).movesOn
  · refine .whenStill (report_still _) (.bind expect_movesOn fun _ => ?_)
    refine .bind (statements_movesOn (statement_consumes.atKind ?_)) fun _ => ?_
    · grind
    · exact (addNode_still _ _).movesOn

theorem topStatement_consumes : topStatement.Consumes (maxDepth + 1)
    (fun kind => kind ≠ .endOfFile ∧ kind ≠ .closeBrace) fun _ t => t.halted = false := by
  unfold topStatement
  refine .at? ?_ (statement_consumes.atKind fun _ here => here.1)
  refine .first (namespaceStatement_consumes.atKind ?_) fun _ => pure_movesOn
  exact fun _ here => here.1.1

theorem nextStatement_last {stops : TokenKind → Bool} {braced : Bool}
    {one : Parse (Option NodeId)} {list : List NodeId} {s : ParseState}
    (last : ((nextStatement stops braced one list).result s).2 = false) :
    let t := (nextStatement stops braced one list).next s
    t.cursor.kind = .endOfFile ∨ stops t.cursor.kind = true ∨ t.halted = true := by
  unfold nextStatement at last ⊢
  simp only [result_bind, next_bind, result_kind, next_kind, result_get, next_get] at last ⊢
  by_cases ended : (s.cursor.kind == .endOfFile || stops s.cursor.kind || s.halted) = true
  · simp only [ended, if_true, next_pure]
    simpa [or_assoc] using ended
  by_cases brace : (s.cursor.kind == .closeBrace && !braced) = true
  · simp only [ended, brace, if_true] at last
    cases last
  · simp only [ended, brace, if_false, Bool.false_eq_true, result_bind, result_get, result_pure,
      next_bind, next_get, next_pure, Bool.not_eq_false'] at last ⊢
    exact .inr (.inr last)

theorem fileSteps :
    Steps (maxDepth + 1) (nextStatement (fun _ => false) false topStatement) :=
  nextStatement_steps (topStatement_consumes.atKind (by grind))

/-- The statements of a file end with the file, or with its code. -/
theorem fileStatements_ended {s : ParseState} (ready : s.Ready (maxDepth + 1)) :
    (fileStatements.next s).cursor.kind = .endOfFile ∨
      (fileStatements.next s).halted = true := by
  refine untilDone_invariant (I := fun _ t => s.Onward t)
    (P := fun _ t => t.cursor.kind = .endOfFile ∨ t.halted = true) ?_ (.refl s)
  intro list t reached
  obtain ⟨onward, shorter⟩ := fileSteps list t (reached.ready ready)
  split
  · rename_i more
    exact ⟨shorter trivial (congrArg Prod.snd more), reached.trans onward⟩
  · rename_i last
    simpa using nextStatement_last (congrArg Prod.snd last)

/-- The state after one step of the loop over the statements of a file. -/
def afterStatement (s : ParseState) : ParseState :=
  (nextStatement (fun _ => false) false topStatement []).next s

theorem onward_afterStatements {s : ParseState} (ready : s.Ready (maxDepth + 1))
    (count : Nat) : s.Onward (afterStatement^[count] s) := by
  induction count generalizing s with
  | zero => exact .refl s
  | succ count ih =>
      have onward := (fileSteps [] s ready).1
      exact onward.trans (ih (onward.ready ready))

end StaticReflection.Grammar

namespace StaticReflection

open Grammar Parse

theorem ParseState.ofText_ready (text : Text) :
    (ParseState.ofText text).Ready (maxDepth + 1) := by
  obtain ⟨before, last, tokens, _, _, ended, _⟩ := Scanner.tokens_exhausts { rest := text }
  refine ⟨?_, Nat.zero_le _, by omega⟩
  change (Cursor.ofTokens (tokenize text)).Closed
  unfold tokenize
  rw [tokens]
  unfold Cursor.Closed
  cases before with
  | nil => exact ended
  | cons token before => simpa [Cursor.ofTokens] using ended

/-- Parsing ends on every text. The scanner passes the whole of it, with at most one token
for each character before the one that marks the end. No loop goes on without consuming a
token, so none takes more steps than there are tokens; the parser stops at the end of the
file or of its code; and after any number of statements no expression is open. -/
theorem parsing_ends (text : Text) :
    let last := fileStatements.next (.ofText text)
    (∃ before mark, tokenize text = before ++ [mark] ∧
      (∀ token ∈ before, token.kind ≠ .endOfFile) ∧ before.length ≤ text.length ∧
      mark.kind = .endOfFile ∧ mark.span.start = text.byteSize) ∧
    last.stalled = false ∧ last.depth = 0 ∧
    (last.cursor.kind = .endOfFile ∨ last.halted = true) ∧
    ∀ count, (afterStatement^[count] (.ofText text)).depth = 0 := by
  have ready := ParseState.ofText_ready text
  have onward : ParseState.Onward (.ofText text) (fileStatements.next (.ofText text)) :=
    (untilDone_movesOn fileSteps _ ready).1
  refine ⟨?_, onward.stalled, onward.depth, fileStatements_ended ready, fun count => ?_⟩
  · obtain ⟨before, mark, tokens⟩ := Scanner.tokens_exhausts { rest := text }
    exact ⟨before, mark, by simpa [tokenize] using tokens⟩
  · exact (onward_afterStatements ready count).depth

end StaticReflection
