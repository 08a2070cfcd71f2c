import StaticReflection.Proofs.Parser.Arenas
import StaticReflection.Proofs.Parser.CommonExpressions
import StaticReflection.Proofs.Parser.Termination

namespace StaticReflection.Grammar

open Parse

/-! Statements are parsed alike up to the word that ends the code, and nothing after it is
consumed. -/

section Statements

variable {α : Type} {fork : Fork} {room : Nat} {halts : Prop}

theorem skippedStatement_agrees (pos : Nat) :
    (skippedStatement pos).Agrees fork room halts := by
  unfold skippedStatement
  refine .look kind_looks fun firstToken => ?_
  refine .bind (untilDone_agrees fun depth => .look kind_looks fun kind => ?_) fun _ =>
    addNode_agrees
  split
  case h_1 => exact .pure
  case h_9 => exact .ite (fun _ => .pure) fun _ => .bind advance_agrees fun _ => .pure
  all_goals exact .bind advance_agrees fun _ => .pure

theorem importKind?_agrees : importKind?.Agrees fork room halts := by
  unfold importKind?
  refine .look kind_looks fun kind => ?_
  split
  · exact .bind advance_agrees fun _ => .pure
  · exact .bind advance_agrees fun _ => .pure
  · exact .pure

theorem renamed?_agrees : renamed?.Agrees fork room halts :=
  .accept fun _ => .ite (fun _ => word?_agrees) fun _ => .pure

theorem importGroup_agrees (kind : ImportKind) (space : String) (known : List ImportItem) :
    (importGroup kind space known).Agrees fork room halts := by
  unfold importGroup
  refine .bind (untilDone_agrees fun items => .look kind_looks fun current => ?_) fun _ => ?_
  · split
    · exact .pure
    · exact .pure
    · refine .bind importKind?_agrees fun _ => .look (ahead?_looks fun _ _ => rfl) fun _ => ?_
      refine .ite (fun _ => ?_) fun _ => ?_
      · refine .look value_looks fun _ => .bind advance_agrees fun _ => ?_
        exact .bind renamed?_agrees fun _ => .accept fun _ => .pure
      · exact .bind report_agrees fun _ => .pure
  · exact .bind expect_agrees fun _ => .pure

theorem importStatement_agrees : importStatement.Agrees fork room halts := by
  unfold importStatement
  refine .look position_looks fun pos => .bind advance_agrees fun _ => ?_
  refine .bind importKind?_agrees fun _ => .bind (untilDone_agrees fun items => ?_) fun _ => ?_
  · refine .look (ahead?_looks fun _ _ => rfl) fun _ => .ite (fun _ => ?_) fun _ => ?_
    · refine .look value_looks fun _ => .bind advance_agrees fun _ => ?_
      refine .bind acceptIf_agrees fun _ => ?_
      refine .ite (fun _ => ?_) fun _ => ?_
      · exact .bind (importGroup_agrees _ _ _) fun _ => .accept fun _ => .pure
      · exact .bind renamed?_agrees fun _ => .bind .pure fun _ => .accept fun _ => .pure
    · exact .bind reportExpected_agrees fun _ => .pure
  · exact .bind expect_agrees fun _ => addNode_agrees

theorem constStatement_agrees (doc : Option String) :
    (constStatement doc).Agrees fork (maxDepth + 1) halts :=
  .look position_looks fun _ => .bind advance_agrees fun _ =>
    .bind (constDeclarators_agrees expression_agrees) fun _ =>
      .bind expect_agrees fun _ => addNode_agrees

theorem functionStatement_agrees (doc : Option String) :
    (functionStatement doc).Agrees fork (maxDepth + 1) halts :=
  .look position_looks fun _ =>
    .bind (functionDecl_agrees expression_agrees _ _) fun _ => addNode_agrees

theorem classModifiers_agrees : classModifiers.Agrees fork room halts := by
  refine untilDone_agrees fun modifiers => .look kind_looks fun kind => ?_
  split
  · exact .bind advance_agrees fun _ => .pure
  · exact .pure

theorem classStatement_agrees (doc : Option String) :
    (classStatement doc).Agrees fork (maxDepth + 1) halts := by
  unfold classStatement
  refine .bind classModifiers_agrees fun modifiers => .look position_looks fun pos => ?_
  refine .look doc_looks fun _ => .look kind_looks fun _ => .bind advance_agrees fun _ => ?_
  refine .bind word?_agrees fun name => ?_
  exact .bind (classTail_agrees expression_agrees _ _ _ _) fun decl => addNode_agrees

theorem expressionStatement_agrees :
    expressionStatement.Agrees fork (maxDepth + 1) halts := by
  unfold expressionStatement
  refine .look position_looks fun pos => .bind expression_agrees fun _ => ?_
  refine .look (at?_looks _) fun _ => .ite (fun _ => ?_) fun _ => addNode_agrees
  exact .bind expect_agrees fun _ => addNode_agrees

/-! Looking for a declaration does not pass the word that ends the code. -/

theorem isFunctionStatement_settled {s t : ParseState} (paired : s.Paired fork room t)
    (live : s.Live) : isFunctionStatement t.cursor = isFunctionStatement s.cursor := by
  have kind {s t : ParseState} (paired : s.Paired fork room t) :
      t.cursor.kind = s.cursor.kind := by
    obtain ⟨shared, -, rfl⟩ := paired.shared
    rfl
  have other {s : ParseState} {kind : TokenKind} (here : (s.cursor.kind == kind) = true)
      (distinct : kind ≠ .identifier) : ¬ s.cursor.current.Halts :=
    fun halts => distinct ((beq_iff_eq.mp here).symm.trans halts.1)
  have passed (s : ParseState) : s.cursor.advance = (advance.next s).cursor := rfl
  unfold isFunctionStatement
  rw [kind paired]
  cases here : s.cursor.kind == .functionKw with
  | false => rfl
  | true =>
      obtain ⟨liveNext, next⟩ := paired_advance paired live (other here nofun)
      rw [passed, passed]
      dsimp only
      rw [kind next]
      split
      · rename_i mark
        obtain ⟨-, after⟩ := paired_advance next liveNext (other mark nofun)
        rw [passed, passed, Cursor.isWord, Cursor.isWord, kind after]
      · rw [Cursor.isWord, Cursor.isWord, kind next]

theorem startsClass_append {token : Token} (halts : token.Halts) (front rest other : List Token) :
    startsClass (front ++ token :: rest) = startsClass (front ++ token :: other) := by
  have never (rest : List Token) : startsClass (token :: rest) = false := by
    cases rest with
    | nil => rfl
    | cons name rest =>
        rw [startsClass, halts.1]
        rfl
  induction front with
  | nil => exact (never rest).trans (never other).symm
  | cons keyword front ih =>
      cases front with
      | nil =>
          simp only [List.cons_append, List.nil_append, startsClass, never]
      | cons name front =>
          simp only [List.cons_append, startsClass] at ih ⊢
          rw [ih]

theorem isClassStatement_settled {s t : ParseState} (paired : s.Paired fork room t)
    (live : s.Live) : isClassStatement t.cursor = isClassStatement s.cursor := by
  obtain ⟨shared, ahead, rfl⟩ := paired.shared
  obtain ⟨token, among, halts⟩ := live
  have before : token ∈ s.cursor.current :: shared := by
    rw [ParseState.tokens, ahead, ← List.cons_append, List.mem_append] at among
    exact among.resolve_right fun later => fork.quiet token later halts
  obtain ⟨front, after, split⟩ := List.append_of_mem before
  change startsClass (s.cursor.current :: (shared ++ fork.other)) =
    startsClass (s.cursor.current :: s.cursor.ahead)
  rw [ahead, ← List.cons_append, ← List.cons_append, split, List.append_assoc, List.append_assoc]
  exact startsClass_append halts front _ _

/-- The word that ends the code is looked at, and stays where it is. -/
theorem halt_agrees {value : α} :
    (modify (fun state => { state with halted := true }) >>= fun _ => pure value :
      Parse α).Agrees fork room True :=
  agrees_of_onto (fun _ => rfl) (fun _ => rfl) (fun _ => .inl trivial)
    (fun _ within => ⟨within.tokens, within.reported, within.scanned⟩) (fun _ _ => rfl)
    fun _ _ => rfl

theorem isDefineCall_near : LooksOneAhead isDefineCall :=
  ⟨fun token next => (token.kind == .identifier || token.kind == .qualifiedName) &&
    sameFolded (stripSeparator token.value) "define" && next == .openParen, fun _ => rfl⟩

theorem statement_agrees : statement.Agrees fork (maxDepth + 1) True := by
  have skipped (pos : Nat) : (skippedStatement pos).Agrees fork (maxDepth + 1) True :=
    skippedStatement_agrees pos
  have called : expressionStatement.Agrees fork (maxDepth + 1) True := expressionStatement_agrees
  have named {parse : Parse NodeId} (agrees : parse.Agrees fork (maxDepth + 1) True) :
      (parse >>= fun node => pure (some node)).Agrees fork (maxDepth + 1) True :=
    .bind agrees fun _ => .pure
  unfold statement
  refine .look position_looks fun pos => .bind docAcrossAttributes_agrees fun doc => ?_
  refine .look kind_looks fun kind => ?_
  split
  · exact .bind advance_agrees fun _ => .pure
  · exact .pure
  · exact .pure
  · exact named importStatement_agrees
  · exact named (constStatement_agrees doc)
  · exact .bind report_agrees fun _ => named (skipped pos)
  · refine .aheadLive isFunctionStatement_settled fun _ => .ite (fun _ => ?_) fun _ => ?_
    · exact named (functionStatement_agrees doc)
    refine .aheadLive isClassStatement_settled fun _ => .ite (fun _ => ?_) fun _ => ?_
    · exact named (classStatement_agrees doc)
    refine .look (ahead?_looks fun _ _ => rfl) fun _ => .ite (fun _ => halt_agrees) fun _ => ?_
    refine .aheadSpent isDefineCall_near (fun _ => .ite (fun _ => ?_) fun _ => ?_) fun _ => ?_
    · exact .map (.of_consumes expressionStatement_consumes (.inl rfl) called)
    · exact .map (.of_consumes (skippedStatement_consumes pos) ⟨nofun, nofun⟩ (skipped pos))
    · exact .ite (fun _ => named called) fun _ => named (skipped pos)

theorem nextStatement_agrees {stops : TokenKind → Bool} {braced : Bool}
    {one : Parse (Option NodeId)} (each : one.Agrees fork room halts) (list : List NodeId) :
    (nextStatement stops braced one list).Agrees fork room halts := by
  unfold nextStatement
  refine .look kind_looks fun current => .get (fun _ _ => rfl) fun s =>
    .ite (fun _ => .pure) fun _ => ?_
  refine .ite (fun _ => ?_) fun _ => ?_
  · exact .bind report_agrees fun _ => .bind advance_agrees fun _ => .pure
  · exact .bind each fun _ => .get (fun _ _ => rfl) fun _ => .pure

theorem statements_agrees {stops : TokenKind → Bool} {braced : Bool}
    {one : Parse (Option NodeId)} (each : one.Agrees fork room halts) :
    (statements stops braced one).Agrees fork room halts :=
  untilDone_agrees (nextStatement_agrees each)

theorem namespaceName_agrees : namespaceName.Agrees fork room halts := by
  unfold namespaceName
  refine .look (ahead?_looks fun _ _ => rfl) fun _ => .ite (fun _ => ?_) fun _ => .pure
  exact .look value_looks fun _ => .bind advance_agrees fun _ => .pure

theorem namespaceStatement_agrees : namespaceStatement.Agrees fork (maxDepth + 1) True := by
  unfold namespaceStatement
  refine .look position_looks fun pos => .look doc_looks fun doc => ?_
  refine .bind advance_agrees fun _ => .bind namespaceName_agrees fun name => ?_
  refine .accept fun _ => .ite (fun _ => ?_) fun _ => ?_
  · refine .bind (statements_agrees statement_agrees) fun list => ?_
    exact .bind expect_agrees fun _ => addNode_agrees
  · refine .when report_agrees (.bind expect_agrees fun _ => ?_)
    exact .bind (statements_agrees statement_agrees) fun list => addNode_agrees

theorem topStatement_agrees : topStatement.Agrees fork (maxDepth + 1) True := by
  unfold topStatement
  refine .look (at?_looks _) fun _ => .ite (fun _ => ?_) fun _ => statement_agrees
  exact .bind namespaceStatement_agrees fun _ => .pure

theorem fileStatements_agrees : fileStatements.Agrees fork (maxDepth + 1) True :=
  statements_agrees topStatement_agrees

end Statements

end StaticReflection.Grammar

namespace StaticReflection

open Grammar Parse

/-! Where the code has ended, the parser stands at the word that ends it. -/

/-- If the code has ended, the current token is the word that ends it. -/
def ParseState.Parked (s : ParseState) : Prop :=
  s.halted = true → s.cursor.current.Halts

namespace Parse

variable {α β σ : Type}

/-- If the parser ends the code, it stays at the word that ends it. -/
def Parks (parse : Parse α) : Prop :=
  ∀ s : ParseState, s.halted = false → (parse.next s).Parked

/-- After the end of the code too, the parser stays at the word that ends it. -/
def Rests (parse : Parse α) : Prop :=
  ∀ s : ParseState, s.Parked → (parse.next s).Parked

theorem Rests.parks {parse : Parse α} (rests : parse.Rests) : parse.Parks :=
  fun s going => rests s fun ended => absurd (going.symm.trans ended) nofun

theorem parked_ite {condition : Prop} [Decidable condition] {whenTrue whenFalse : Parse α}
    {s : ParseState} (yes : condition → (whenTrue.next s).Parked)
    (no : ¬ condition → (whenFalse.next s).Parked) :
    ((if condition then whenTrue else whenFalse).next s).Parked := by
  split
  · exact yes ‹_›
  · exact no ‹_›

namespace Parks

/-- A step that cannot end the code. -/
theorem after {parse : Parse α} {rest : α → Parse β}
    (agrees : ∀ fork, parse.Agrees fork (maxDepth + 1) False)
    (second : ∀ value, (rest value).Parks) : (parse >>= rest).Parks :=
  fun s going => second _ _
    ((((agrees ⟨[], [], 0, List.forall_mem_nil _⟩).halted s).resolve_left id).trans going)

theorem kept {parse : Parse α} (agrees : ∀ fork, parse.Agrees fork (maxDepth + 1) False) :
    parse.Parks := by
  rw [← bind_pure parse]
  exact .after agrees fun _ => Rests.parks fun _ parked => parked

theorem bind {parse : Parse α} {rest : α → Parse β} (first : parse.Parks)
    (second : ∀ value, (rest value).Rests) : (parse >>= rest).Parks :=
  fun s going => second _ _ (first s going)

theorem ite {condition : Prop} [Decidable condition] {whenTrue whenFalse : Parse α}
    (yes : condition → whenTrue.Parks) (no : ¬ condition → whenFalse.Parks) :
    (if condition then whenTrue else whenFalse).Parks :=
  fun s going => parked_ite (fun holds => yes holds s going) fun fails => no fails s going

theorem ahead? {test : Cursor → Bool} {rest : Bool → Parse α}
    (second : ∀ passed, (rest passed).Parks) : (Parse.ahead? test >>= rest).Parks :=
  fun s going => second _ s going

end Parks

theorem expect_rests {kind : TokenKind} (other : kind ≠ .identifier) : (expect kind).Rests := by
  intro s parked
  have keeps : (expect kind).Agrees ⟨[], [], 0, List.forall_mem_nil _⟩ 0 False := expect_agrees
  intro ended
  have before : s.halted = true := ((keeps.halted s).resolve_left id) ▸ ended
  have distinct : s.cursor.kind ≠ kind := fun same =>
    other (same.symm.trans (parked before).1)
  have stays : ((expect kind).next s).cursor = s.cursor := by
    rw [next, expect, bind_of (accept_of_ne distinct)]
    exact (reportExpected_still _).cursor s
  rw [stays]
  exact parked before

theorem untilDone_rests {step : σ → Parse (σ × Bool)} (steps : ∀ state, (step state).Rests)
    (start : σ) : (untilDone start step).Rests :=
  fun s => untilDone_related (R := fun s t => s.Parked → t.Parked)
    (fun first second parked => second (first parked)) (fun _ parked => parked)
    (fun state t => steps state t) start s

end Parse

namespace Grammar

variable {α : Type}

theorem halts_of_isHalt {cursor : Cursor} (found : isHalt cursor = true) :
    cursor.current.Halts := by
  rw [isHalt, Bool.and_eq_true, beq_iff_eq] at found
  exact found

theorem isHalt_parks {value : α} {rest : Parse α} (second : rest.Parks) :
    (ahead? isHalt >>= fun found => if found = true then
      modify (fun state => { state with halted := true }) >>= fun _ => pure value
      else rest).Parks := by
  intro s going
  change ParseState.Parked ((if isHalt s.cursor = true then _ else rest : Parse α).next s)
  split
  · rename_i found
    exact fun _ => halts_of_isHalt found
  · exact second s going

theorem statement_parks : statement.Parks := by
  have named {parse : Parse NodeId} (agrees : ∀ fork, parse.Agrees fork (maxDepth + 1) False) :
      (parse >>= fun node => pure (some node)).Parks :=
    .kept fun fork => .bind (agrees fork) fun _ => .pure
  unfold statement
  refine .after (fun _ => position_looks.agrees) fun pos => ?_
  refine .after (fun _ => docAcrossAttributes_agrees) fun doc => ?_
  refine .after (fun _ => kind_looks.agrees) fun kind => ?_
  split
  · exact .kept fun _ => .bind advance_agrees fun _ => .pure
  · exact .kept fun _ => .pure
  · exact .kept fun _ => .pure
  · exact named fun _ => importStatement_agrees
  · exact named fun _ => constStatement_agrees doc
  · exact .after (fun _ => report_agrees) fun _ => named fun _ => skippedStatement_agrees pos
  · refine .ahead? fun _ => .ite (fun _ => ?_) fun _ => ?_
    · exact named fun _ => functionStatement_agrees doc
    refine .ahead? fun _ => .ite (fun _ => ?_) fun _ => isHalt_parks ?_
    · exact named fun _ => classStatement_agrees doc
    refine .ahead? fun _ => .ite (fun _ => ?_) fun _ => ?_
    · exact named fun _ => expressionStatement_agrees
    · exact named fun _ => skippedStatement_agrees pos

theorem nextStatement_rests {stops : TokenKind → Bool} {braced : Bool}
    {one : Parse (Option NodeId)} (each : one.Parks) (list : List NodeId) :
    (nextStatement stops braced one list).Rests := by
  intro s parked
  unfold nextStatement
  simp only [next_bind, result_kind, next_kind, result_get, next_get]
  refine parked_ite (fun _ => parked) fun more => ?_
  have going : s.halted = false := by
    simp only [Bool.or_eq_true, not_or, Bool.not_eq_true] at more
    exact more.2
  refine parked_ite (fun _ => ?_) fun _ => ?_
  · exact Parks.kept (fun _ => .bind report_agrees fun _ => .bind advance_agrees fun _ => .pure)
      s going
  · exact each s going

theorem statements_rests {stops : TokenKind → Bool} {braced : Bool}
    {one : Parse (Option NodeId)} (each : one.Parks) : (statements stops braced one).Rests :=
  untilDone_rests (nextStatement_rests each) []

theorem addNode_rests (node : Node) (pos : Nat) : (addNode node pos).Rests :=
  fun _ parked => parked

theorem namespaceStatement_parks : namespaceStatement.Parks := by
  unfold namespaceStatement
  refine .after (fun _ => position_looks.agrees) fun pos => ?_
  refine .after (fun _ => doc_looks.agrees) fun doc => ?_
  refine .after (fun _ => advance_agrees) fun _ => ?_
  refine .after (fun _ => namespaceName_agrees) fun name => ?_
  refine .after (fun _ => accept_agrees) fun _ => .ite (fun _ => ?_) fun _ => ?_
  · have closes : (expect .closeBrace).Rests := expect_rests nofun
    refine .bind (statements_rests statement_parks).parks fun list s parked => ?_
    exact addNode_rests _ _ _ (closes s parked)
  · have listed : (expect .semicolon >>= fun _ =>
        statements (· == .namespaceKw) false statement >>= fun list => addNode
          (.namespaceDecl { name, braced := false, statements := list, doc }) pos).Parks :=
      .after (fun _ => expect_agrees) fun _ =>
        .bind (statements_rests statement_parks).parks fun _ => addNode_rests _ _
    exact .ite (fun _ => .after (fun _ => report_agrees) fun _ => listed) fun _ => listed

theorem topStatement_parks : topStatement.Parks := by
  unfold topStatement
  refine .after (fun _ => (at?_looks _).agrees) fun _ => .ite (fun _ => ?_) fun _ => statement_parks
  exact .bind namespaceStatement_parks fun _ _ parked => parked

theorem fileStatements_rests : fileStatements.Rests :=
  statements_rests topStatement_parks

end Grammar

/-! Lines. -/

theorem lineStartsAfter_append {text : Text} (ended : Ended text) (offset : Nat) (data : Text) :
    lineStartsAfter offset (text ++ data) =
      lineStartsAfter offset text ++ lineStartsAfter (offset + text.byteSize) data := by
  induction text generalizing offset with
  | nil => cases ended
  | cons c text ih =>
      rw [Text.byteSize_cons, ← Nat.add_assoc]
      cases text with
      | nil =>
          have single : c ≠ '\n' ∧ c ≠ '\r' :=
            ⟨fun feed => absurd (feed ▸ ended.mem_of_singleton) (by decide),
              fun feed => absurd (feed ▸ ended.mem_of_singleton) (by decide)⟩
          simp [lineStartsAfter, single]
      | cons d text =>
          have more : Ended (d :: text) := ended.of_cons nofun
          rw [List.cons_append, lineStartsAfter, lineStartsAfter, ih more, more.head?_append]
          split
          · rfl
          · rfl

theorem lt_of_mem_lineStartsAfter {offset start : Nat} {text : Text}
    (found : start ∈ lineStartsAfter offset text) : offset < start := by
  induction text generalizing offset with
  | nil => cases found
  | cons c text ih =>
      have size := c.utf8Size_pos
      have later (found : start ∈ lineStartsAfter (offset + c.utf8Size) text) : offset < start := by
        have := ih found
        omega
      rw [lineStartsAfter] at found
      split at found
      · obtain rfl | found := List.mem_cons.mp found
        · omega
        · exact later found
      · exact later found

/-- The lines of what comes later start later. -/
theorem lineOf_append {text : Text} (ended : Ended text) (data : Text) {offset : Nat}
    (inside : offset ≤ text.byteSize) :
    (LineMap.ofText (text ++ data)).lineOf offset = (LineMap.ofText text).lineOf offset := by
  have unbroken : (lineStartsAfter (0 + text.byteSize) data).countP (· ≤ offset) = 0 := by
    refine List.countP_eq_zero.mpr fun start found => ?_
    have := lt_of_mem_lineStartsAfter found
    simp only [decide_eq_true_eq]
    omega
  unfold LineMap.lineOf LineMap.ofText
  rw [lineStartsAfter_append ended, ← List.cons_append, List.countP_append, unbroken, Nat.add_zero]

/-! The whole file. -/

theorem mem_of_mem_dedupByStart {entry : String × Nat} {last : Option Nat}
    {entries : List (String × Nat)} (found : entry ∈ dedupByStart last entries) :
    entry ∈ entries := by
  induction entries generalizing last with
  | nil => exact found
  | cons first entries ih =>
      rw [dedupByStart] at found
      split at found
      · exact List.mem_cons_of_mem _ (ih found)
      · obtain rfl | found := List.mem_cons.mp found
        · exact List.mem_cons_self
        · exact List.mem_cons_of_mem _ (ih found)

theorem ParseState.diagnostics_append {s : ParseState} {text : Text} (ended : Ended text)
    (within : s.Within text.byteSize) (data : Text) :
    s.diagnostics (text ++ data) = s.diagnostics text := by
  unfold diagnostics
  refine List.map_congr_left fun entry found => ?_
  have early : entry.2 ≤ text.byteSize := by
    have among := List.mem_mergeSort.mp (mem_of_mem_dedupByStart found)
    obtain reported | scanned := List.mem_append.mp among
    · exact within.reported entry (List.mem_reverse.mp reported)
    · obtain ⟨problem, known, rfl⟩ := List.mem_map.mp scanned
      exact within.scanned problem (List.mem_reverse.mp known)
  obtain ⟨message, start⟩ := entry
  exact congrArg (Diagnostic.mk message start) (lineOf_append ended data early)

theorem ParseState.ofText_of_cons {text : Text} {first : Token} {ahead : List Token}
    (tokens : tokenize text = first :: ahead) :
    ofText text = { cursor := .of first ahead 0, scanned := first.problems.reverse } := by
  rw [ofText, tokens]
  rfl

theorem ParseState.ofText_within {text : Text} {first : Token} {ahead : List Token}
    (tokens : tokenize text = first :: ahead) : (ofText text).Within text.byteSize := by
  have within := tokenize_within text
  rw [ofText_of_cons tokens]
  rw [tokens] at within
  refine ⟨within, List.forall_mem_nil _, fun problem found => ?_⟩
  exact (within first List.mem_cons_self).problems problem (List.mem_reverse.mp found)

theorem not_live_ofText {text : Text}
    (wordless : ∀ token ∈ tokenize text, token.kind ≠ .identifier) :
    ¬ (ParseState.ofText text).Live := by
  rintro ⟨token, among, halts⟩
  cases tokens : tokenize text with
  | nil =>
      rw [ParseState.ofText, tokens] at among
      obtain rfl := List.mem_singleton.mp among
      cases halts.1
  | cons first ahead =>
      rw [ParseState.ofText_of_cons tokens] at among
      exact wordless token (tokens ▸ among) halts.1

/-- The parsers of a text and of a longer one start out alike. -/
theorem ParseState.ofText_paired {text : Text} (ended : Ended text) (data : Text)
    (live : (ofText text).Live) : ∃ fork : Fork, fork.limit = text.byteSize ∧
      Paired fork (maxDepth + 1) (.ofText text) (.ofText (text ++ data)) := by
  obtain ⟨stem, rest, other, tokens, longer, wordless⟩ := tokenize_forks ended data
  refine ⟨⟨rest, other, text.byteSize, fun token among halts => wordless token among halts.1⟩,
    rfl, ?_⟩
  cases stem with
  | nil => exact absurd live (not_live_ofText (tokens ▸ wordless))
  | cons first shared =>
      refine ⟨⟨shared, ?_, ?_⟩, ofText_ready text, ofText_within tokens⟩
      · rw [ofText_of_cons tokens]
        rfl
      · rw [ofText_of_cons tokens, ofText_of_cons longer]
        rfl

/-- If the code of a text has ended, the parser of a longer one does the same. -/
theorem fileStatements_append {text : Text} (ended : Ended text) (data : Text)
    (halted : (fileStatements.next (.ofText text)).halted = true) :
    let s := fileStatements.next (.ofText text)
    let t := fileStatements.next (.ofText (text ++ data))
    fileStatements.result (.ofText (text ++ data)) = fileStatements.result (.ofText text) ∧
      (∃ ahead, t = s.onto ahead) ∧ s.Within text.byteSize := by
  have here := fileStatements_rests (.ofText text) nofun halted
  have live : (fileStatements.next (.ofText text)).Live := ⟨_, List.mem_cons_self, here⟩
  have agrees (fork : Fork) : fileStatements.Agrees fork (maxDepth + 1) True :=
    fileStatements_agrees
  have start : (ParseState.ofText text).Live :=
    live.of_suffix ((agrees ⟨[], [], 0, List.forall_mem_nil _⟩).suffix _)
  obtain ⟨fork, limit, paired⟩ := ParseState.ofText_paired ended data start
  obtain ⟨same, after⟩ := (agrees fork).same paired live
  obtain ⟨shared, -, onto⟩ := after.shared
  exact ⟨same, ⟨_, onto⟩, limit ▸ after.within⟩

theorem parseFile_eq (path : String) (text : Text) :
    let s := fileStatements.next (.ofText text)
    parseFile path text =
      { arena := s.arena.add (.sourceFile path (fileStatements.result (.ofText text)))
          ⟨0, text.byteSize⟩
        root := s.arena.size
        diagnostics := s.diagnostics text } := by
  rw [parseFile]
  rfl

/-- A longer text makes the file longer, and nothing else. -/
theorem parseFile_append {text : Text} (ended : Ended text) (path : String) (data : Text)
    (halted : (fileStatements.next (.ofText text)).halted = true) :
    let file := parseFile path text
    ∃ (arena : Arena) (node : Node), file.root = arena.size ∧
      file.arena = arena.add node ⟨0, text.byteSize⟩ ∧
      parseFile path (text ++ data) =
        { file with arena := arena.add node ⟨0, (text ++ data).byteSize⟩ } := by
  obtain ⟨list, ⟨ahead, state⟩, within⟩ := fileStatements_append ended data halted
  refine ⟨(fileStatements.next (.ofText text)).arena,
    .sourceFile path (fileStatements.result (.ofText text)), rfl, rfl, ?_⟩
  rw [parseFile_eq path (text ++ data), list, state]
  exact congrArg (ParsedFile.mk _ _) (ParseState.diagnostics_append ended within data)

/-- What comes after the end of the code is not parsed. If the parser stops at the word that
ends the code, then with any data after it the same nodes are found at the same places, and
the same problems on the same lines; only the file itself is longer. -/
theorem parsing_ignores_data (path : String) (before data : Text)
    (halted : (fileStatements.next
      (.ofText (before ++ "__halt_compiler();".toList))).halted = true) :
    let code := before ++ "__halt_compiler();".toList
    let file := parseFile path code
    let longer := parseFile path (code ++ data)
    longer.root = file.root ∧ longer.arena.size = file.arena.size ∧
    (∀ id, longer.arena.node? id = file.arena.node? id) ∧
    (∀ id, id ≠ file.root → longer.arena.span? id = file.arena.span? id) ∧
    file.arena.span? file.root = some ⟨0, code.byteSize⟩ ∧
    longer.arena.span? file.root = some ⟨0, (code ++ data).byteSize⟩ ∧
    longer.diagnostics = file.diagnostics := by
  intro code file longer
  have ended : Ended code := by
    rw [Ended, List.getLast?_append]
    rfl
  obtain ⟨arena, node, root, shorter, same⟩ := parseFile_append ended path data halted
  have both : longer = { file with arena := arena.add node ⟨0, (code ++ data).byteSize⟩ } := same
  rw [both, root, shorter]
  dsimp only
  refine ⟨rfl, ?_, fun id => ?_, fun id inner => ?_, ?_, ?_, rfl⟩
  · rw [Arena.size_add, Arena.size_add]
  · rw [Arena.node?_add, Arena.node?_add]
  · rw [Arena.span?_add, Arena.span?_add, if_neg inner, if_neg inner]
  · rw [Arena.span?_add, if_pos rfl]
  · rw [Arena.span?_add, if_pos rfl]

/-- A class and a string that is never closed, after code with a semicolon missing. -/
theorem parsing_ignores_unclosed_string :
    let code : Text := "<?php namespace A;\nconst B = 1\n".toList ++ "__halt_compiler();".toList
    let file := parseFile "/app/a.php" code
    let longer := parseFile "/app/a.php" (code ++ "\nclass C \x7b \"".toList)
    (fileStatements.next (.ofText code)).halted = true ∧
    file.diagnostics = [⟨"Expected ';', found '__halt_compiler'", 31, 3⟩] ∧
    longer.diagnostics = file.diagnostics ∧ longer.arena.size = file.arena.size := by
  intro code file longer
  have halted : (fileStatements.next (.ofText code)).halted = true := by decide +kernel
  have reported : file.diagnostics = [⟨"Expected ';', found '__halt_compiler'", 31, 3⟩] := by
    decide +kernel
  obtain ⟨-, size, -, -, -, -, diagnostics⟩ := parsing_ignores_data "/app/a.php" _ _ halted
  exact ⟨halted, reported, diagnostics, size⟩

end StaticReflection
