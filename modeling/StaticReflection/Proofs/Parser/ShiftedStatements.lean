import StaticReflection.Proofs.Parser.CommonStatements
import StaticReflection.Proofs.Parser.ShiftedExpressions

namespace StaticReflection.Grammar

open Parse

/-! Statements are parsed in the same way wherever they stand. -/

section Statements

variable {n : Nat}

theorem skippedStatement_echoes (pos otherPos : Nat) :
    Echoes n (· + n) (skippedStatement pos) (skippedStatement otherPos) := by
  unfold skippedStatement
  refine .same kind_echoes fun firstToken => .same (untilDone_echoes id fun depth => ?_) fun _ => ?_
  · refine .same kind_echoes fun kind => ?_
    split
    case h_1 => exact .pure
    case h_9 => exact .ite (fun _ => .pure) fun _ => .same advance_echoes fun _ => .pure
    all_goals exact .same advance_echoes fun _ => .pure
  · exact addNode_echoes

theorem importKind?_echoes : EchoesAlike n importKind? importKind? := by
  unfold importKind?
  refine .same kind_echoes fun kind => ?_
  split
  · exact .same advance_echoes fun _ => .pure
  · exact .same advance_echoes fun _ => .pure
  · exact .pure

theorem renamed?_echoes : EchoesAlike n renamed? renamed? :=
  .same accept_echoes fun _ => .ite (fun _ => word?_echoes) fun _ => .pure

theorem importGroup_echoes (kind : ImportKind) (space : String) (known : List ImportItem) :
    EchoesAlike n (importGroup kind space known) (importGroup kind space known) := by
  unfold importGroup
  refine .same (untilDone_echoes id fun items => .same kind_echoes fun current => ?_) fun _ => ?_
  · split
    · exact .pure
    · exact .pure
    · refine .same importKind?_echoes fun _ => .same (ahead?_echoes fun _ => rfl) fun _ => ?_
      refine .ite (fun _ => ?_) fun _ => ?_
      · refine .same value_echoes fun _ => .same advance_echoes fun _ => ?_
        exact .same renamed?_echoes fun _ => .same accept_echoes fun _ => .pure
      · exact .same report_echoes fun _ => .pure
  · exact .same expect_echoes fun _ => .pure

theorem importStatement_echoes : Echoes n (· + n) importStatement importStatement := by
  unfold importStatement
  refine .position fun pos otherPos => .same advance_echoes fun _ => ?_
  refine .same importKind?_echoes fun _ => .same (untilDone_echoes id fun items => ?_) fun _ => ?_
  · refine .same (ahead?_echoes fun _ => rfl) fun _ => .ite (fun _ => ?_) fun _ => ?_
    · refine .same value_echoes fun _ => .same advance_echoes fun _ => ?_
      refine .same acceptIf_echoes fun _ => ?_
      refine .ite (fun _ => ?_) fun _ => ?_
      · exact .same (importGroup_echoes _ _ _) fun _ => .same accept_echoes fun _ => .pure
      · exact .same renamed?_echoes fun _ => .same .pure fun _ => .same accept_echoes fun _ => .pure
    · exact .same reportExpected_echoes fun _ => .pure
  · exact .same expect_echoes fun _ => addNode_echoes

theorem constStatement_echoes (doc : Option String) :
    Echoes n (· + n) (constStatement doc) (constStatement doc) :=
  .position fun _ _ => .same advance_echoes fun _ =>
    .bind (constDeclarators_echoes expression_echoes) fun _ =>
      .same expect_echoes fun _ => addNode_echoes

theorem functionStatement_echoes (doc : Option String) :
    Echoes n (· + n) (functionStatement doc) (functionStatement doc) :=
  .position fun _ _ =>
    .bind (functionDecl_echoes expression_echoes _ _) fun _ => addNode_echoes

theorem classModifiers_echoes : EchoesAlike n classModifiers classModifiers := by
  refine untilDone_echoes id fun modifiers => .same kind_echoes fun kind => ?_
  split
  · exact .same advance_echoes fun _ => .pure
  · exact .pure

theorem classStatement_echoes (doc : Option String) :
    Echoes n (· + n) (classStatement doc) (classStatement doc) := by
  unfold classStatement
  refine .same classModifiers_echoes fun modifiers => .position fun pos otherPos => ?_
  refine .same doc_echoes fun _ => .same kind_echoes fun _ => .same advance_echoes fun _ => ?_
  refine .same word?_echoes fun name => ?_
  exact .bind (classTail_echoes expression_echoes _ _ _ _) fun decl => addNode_echoes

theorem expressionStatement_echoes :
    Echoes n (· + n) expressionStatement expressionStatement := by
  unfold expressionStatement
  refine .position fun pos otherPos => .bind expression_echoes fun _ => ?_
  refine .same at?_echoes fun _ => .ite (fun _ => ?_) fun _ => addNode_echoes
  exact .same expect_echoes fun _ => addNode_echoes

theorem isFunctionStatement_bare (cursor : Cursor) :
    isFunctionStatement cursor.bare = isFunctionStatement cursor := by
  simp only [isFunctionStatement, Cursor.bare_kind, Cursor.bare_advance]
  split
  · rw [Cursor.bare_isWord]
  · rw [Cursor.bare_isWord]

theorem startsClass_bare (tokens : List Token) :
    startsClass (tokens.map Token.bare) = startsClass tokens := by
  induction tokens with
  | nil => rfl
  | cons keyword tokens ih =>
      cases tokens with
      | nil => rfl
      | cons name rest =>
          change (if (classModifier? keyword.kind).isSome then
            startsClass ((name :: rest).map Token.bare) else _) = _
          rw [ih]
          rfl

theorem isClassStatement_bare (cursor : Cursor) :
    isClassStatement cursor.bare = isClassStatement cursor :=
  startsClass_bare (cursor.current :: cursor.ahead)

theorem statement_echoes : Echoes n (Option.map (· + n)) statement statement := by
  unfold statement
  refine .position fun pos otherPos => .same docAcrossAttributes_echoes fun doc => ?_
  refine .same kind_echoes fun kind => ?_
  split
  · exact .same advance_echoes fun _ => .pure
  · exact .pure
  · exact .pure
  · exact .bind importStatement_echoes fun _ => .pure
  · exact .bind (constStatement_echoes doc) fun _ => .pure
  · exact .same report_echoes fun _ => .bind (skippedStatement_echoes _ _) fun _ => .pure
  · refine .same (ahead?_echoes isFunctionStatement_bare) fun _ => .ite (fun _ => ?_) fun _ => ?_
    · exact .bind (functionStatement_echoes doc) fun _ => .pure
    refine .same (ahead?_echoes isClassStatement_bare) fun _ => .ite (fun _ => ?_) fun _ => ?_
    · exact .bind (classStatement_echoes doc) fun _ => .pure
    refine .same (ahead?_echoes fun _ => rfl) fun _ =>
      .ite (fun _ => .same (fun s t echo => ?_) fun _ => .pure) fun _ => ?_
    · exact ⟨rfl, echo.cursor, echo.arena, rfl, echo.depth⟩
    refine .same (ahead?_echoes fun cursor => by simp [isDefineCall]) fun _ => ?_
    refine .ite (fun _ => ?_) fun _ => ?_
    · exact .bind expressionStatement_echoes fun _ => .pure
    · exact .bind (skippedStatement_echoes _ _) fun _ => .pure

/-- Statements after others, of which those in `lead` have no counterpart. -/
theorem nextStatement_echoes {stops : TokenKind → Bool} {braced : Bool}
    {one : Parse (Option NodeId)} (each : Echoes n (Option.map (· + n)) one one)
    (lead list : List NodeId) :
    Echoes n (Prod.map (fun list => lead ++ list.map (· + n)) id)
      (nextStatement stops braced one list)
      (nextStatement stops braced one (lead ++ list.map (· + n))) := by
  unfold nextStatement
  refine .same kind_echoes fun current => .get fun s t echo => ?_
  rw [echo.halted]
  refine .ite (fun _ => .pure) fun _ => .ite (fun _ => ?_) fun _ => ?_
  · exact .same report_echoes fun _ => .same advance_echoes fun _ => .pure
  · refine .bind each fun found => .get fun s t echo => ?_
    rw [echo.halted]
    exact .pureOf (by simp [Option.toList_map])

theorem statements_echoes {stops : TokenKind → Bool} {braced : Bool}
    {one : Parse (Option NodeId)} (each : Echoes n (Option.map (· + n)) one one) :
    Echoes n (List.map (· + n)) (statements stops braced one) (statements stops braced one) :=
  untilDone_echoes (List.map (· + n)) (nextStatement_echoes each [])

theorem namespaceName_echoes : EchoesAlike n namespaceName namespaceName := by
  unfold namespaceName
  refine .same (ahead?_echoes fun _ => rfl) fun _ => .ite (fun _ => ?_) fun _ => .pure
  exact .same value_echoes fun _ => .same advance_echoes fun _ => .pure

theorem namespaceStatement_echoes : Echoes n (· + n) namespaceStatement namespaceStatement := by
  unfold namespaceStatement
  refine .position fun pos otherPos => .same doc_echoes fun doc => ?_
  refine .same advance_echoes fun _ => .same namespaceName_echoes fun name => ?_
  refine .same accept_echoes fun _ => .ite (fun _ => ?_) fun _ => ?_
  · refine .bind (statements_echoes statement_echoes) fun list => ?_
    exact .same expect_echoes fun _ => addNode_echoes
  · refine .when report_echoes (.same expect_echoes fun _ => ?_)
    exact .bind (statements_echoes statement_echoes) fun list => addNode_echoes

theorem topStatement_echoes : Echoes n (Option.map (· + n)) topStatement topStatement := by
  unfold topStatement
  refine .same at?_echoes fun _ => .ite (fun _ => ?_) fun _ => statement_echoes
  exact .bind namespaceStatement_echoes fun _ => .pure

end Statements

/-! The tokens of a statement that is skipped. -/

/-- The depth of brackets after a token of a skipped statement. There is none where the
statement ends, or where a bracket is closed that it did not open. -/
def depthAfter (depth : Nat) : TokenKind → Option Nat
  | .endOfFile => none
  | .semicolon => if depth = 0 then none else some depth
  | .openParen | .openBracket | .attributeStart | .openBrace => some (depth + 1)
  | .closeParen | .closeBracket => if depth = 0 then none else some (depth - 1)
  | .closeBrace => if depth ≤ 1 then none else some (depth - 1)
  | _ => some depth

/-- The depth of brackets after some tokens in the midst of a skipped statement. -/
def depthAfterAll (depth : Nat) (kinds : List TokenKind) : Option Nat :=
  kinds.foldlM depthAfter depth

/-- A token with which a skipped statement ends. -/
def endsSkipped : Nat → TokenKind → Bool
  | 0, .semicolon | 1, .closeBrace => true
  | _, _ => false

/-- Tokens from somewhere in a skipped statement through its end. -/
def Closes (depth : Nat) (kinds : List TokenKind) : Prop :=
  ∃ front last inner, kinds = front ++ [last] ∧ depthAfterAll depth front = some inner ∧
    endsSkipped inner last = true

theorem depthAfter_succ {depth inner : Nat} {kind : TokenKind}
    (goesOn : depthAfter depth kind = some inner) :
    depthAfter (depth + 1) kind = some (inner + 1) := by
  unfold depthAfter at goesOn ⊢
  split at goesOn <;> grind

theorem depthAfterAll_succ {depth inner : Nat} {kinds : List TokenKind}
    (goesOn : depthAfterAll depth kinds = some inner) :
    depthAfterAll (depth + 1) kinds = some (inner + 1) := by
  induction kinds generalizing depth with
  | nil =>
      cases goesOn
      rfl
  | cons kind kinds ih =>
      obtain ⟨middle, one, rest⟩ := Option.bind_eq_some_iff.mp goesOn
      exact Option.bind_eq_some_iff.mpr ⟨middle + 1, depthAfter_succ one, ih rest⟩

theorem depthAfterAll_append {depth middle : Nat} {kinds : List TokenKind}
    (first : depthAfterAll depth kinds = some middle) (others : List TokenKind) :
    depthAfterAll depth (kinds ++ others) = depthAfterAll middle others := by
  unfold depthAfterAll at first ⊢
  rw [List.foldlM_append, first]
  rfl

/-- Inside a bracket a statement does not end the one around it. -/
theorem Closes.depthAfterAll_one {kinds : List TokenKind} (closes : Closes 0 kinds) :
    depthAfterAll 1 kinds = some 1 := by
  obtain ⟨front, last, inner, rfl, within, ends⟩ := closes
  rw [depthAfterAll_append (depthAfterAll_succ within)]
  unfold endsSkipped at ends
  split at ends
  · rfl
  · rfl
  · cases ends

theorem Closes.append {depth middle : Nat} {kinds others : List TokenKind}
    (first : depthAfterAll depth kinds = some middle) (closes : Closes middle others) :
    Closes depth (kinds ++ others) := by
  obtain ⟨front, last, inner, rfl, within, ends⟩ := closes
  exact ⟨kinds ++ front, last, inner, (List.append_assoc _ _ _).symm,
    (depthAfterAll_append first front).trans within, ends⟩

/-- One token of a skipped statement. -/
def skipToken (depth : Nat) : Parse (Nat × Bool) := do
  match ← kind with
  | .endOfFile => return (depth, false)
  | .semicolon =>
      advance
      return (depth, depth != 0)
  | .openParen | .openBracket | .attributeStart | .openBrace =>
      advance
      return (depth + 1, true)
  | .closeParen | .closeBracket =>
      advance
      return (depth - 1, true)
  | .closeBrace =>
      if depth = 0 then return (depth, false)
      advance
      return (depth - 1, depth != 1)
  | _ =>
      advance
      return (depth, true)

theorem skippedStatement_eq (pos : Nat) : skippedStatement pos = (do
    let firstToken ← kind
    let _ ← untilDone 0 skipToken
    addNode (.skipped firstToken) pos) := rfl

theorem skipToken_of_depthAfter {depth inner : Nat} {s : ParseState}
    (goesOn : depthAfter depth s.cursor.kind = some inner) :
    skipToken depth s = ((inner, true), advance.next s) := by
  rw [skipToken, kind_bind]
  generalize s.cursor.kind = kind at goesOn
  unfold depthAfter at goesOn
  split at goesOn
  · cases goesOn
  · split at goesOn
    · cases goesOn
    · rename_i inside
      cases goesOn
      exact congrArg (fun more => ((depth, more), advance.next s)) (bne_iff_ne.mpr inside)
  · cases goesOn
    rfl
  · cases goesOn
    rfl
  · cases goesOn
    rfl
  · cases goesOn
    rfl
  · split at goesOn
    · cases goesOn
    · cases goesOn
      rfl
  · split at goesOn
    · cases goesOn
    · cases goesOn
      rfl
  · split at goesOn
    · cases goesOn
    · rename_i inside
      cases goesOn
      have nonzero : depth ≠ 0 := by omega
      have many : depth ≠ 1 := by omega
      rw [if_neg nonzero]
      exact congrArg (fun more => ((depth - 1, more), advance.next s)) (bne_iff_ne.mpr many)
  · cases goesOn
    rfl

theorem skipToken_of_ends {depth : Nat} {s : ParseState}
    (ends : endsSkipped depth s.cursor.kind = true) :
    ∃ after, skipToken depth s = ((after, false), advance.next s) := by
  rw [skipToken, kind_bind]
  generalize s.cursor.kind = kind at ends
  unfold endsSkipped at ends
  split at ends
  · exact ⟨0, rfl⟩
  · exact ⟨0, rfl⟩
  · cases ends

/-- The tokens of a statement are skipped, through its end. -/
theorem untilDone_skipToken {depth inner : Nat} {front : List Token} {last next : Token}
    {after : List Token} {s : ParseState} (here : s.tokens = front ++ last :: next :: after)
    (goesOn : depthAfterAll depth (front.map Token.kind) = some inner)
    (ends : endsSkipped inner last.kind = true) :
    let t := (untilDone depth skipToken).next s
    t.tokens = next :: after ∧ t.arena = s.arena ∧ t.halted = s.halted ∧ t.depth = s.depth := by
  induction front generalizing depth s with
  | nil =>
      obtain ⟨current, ahead⟩ := List.cons.inj here
      cases goesOn
      subst current
      obtain ⟨value, stepped⟩ := skipToken_of_ends ends
      dsimp only
      rw [Parse.next, untilDone_of_done stepped]
      exact ⟨tokens_advance_of_cons ahead, rfl, rfl, rfl⟩
  | cons first front ih =>
      obtain ⟨rfl, ahead⟩ := List.cons.inj here
      obtain ⟨middle, one, rest⟩ := Option.bind_eq_some_iff.mp goesOn
      obtain ⟨second, others, more⟩ : ∃ second others,
          front ++ last :: next :: after = second :: others :=
        List.exists_cons_of_ne_nil (by simp)
      have ahead : s.cursor.ahead = second :: others := ahead.trans more
      have stepped := skipToken_of_depthAfter one
      have tokens : (advance.next s).tokens = front ++ last :: next :: after :=
        (tokens_advance_of_cons ahead).trans more.symm
      have shorter : (advance.next s).cursor.left < s.cursor.left := by
        rw [next_advance_of_cons ahead, Cursor.left_of, s.cursor.counted, ahead]
        exact Nat.lt_succ_self _
      dsimp only
      rw [Parse.next, untilDone_of_more stepped shorter]
      exact ih tokens rest

/-! Which statements are skipped. -/

/-- Kinds of tokens that mean something else at the front of a statement. -/
def startsOther : TokenKind → Bool
  | .endOfFile | .semicolon | .closeBrace | .attributeStart | .useKw | .constKw
  | .namespaceKw => true
  | _ => false

/-- Whether a statement that is skipped begins here. -/
def startsSkipped (cursor : Cursor) : Bool :=
  !startsOther cursor.kind && !isFunctionStatement cursor && !isClassStatement cursor &&
    !isHalt cursor && !isDefineCall cursor

theorem startsSkipped_bare (cursor : Cursor) :
    startsSkipped cursor.bare = startsSkipped cursor := by
  have halt : isHalt cursor.bare = isHalt cursor := rfl
  have define : isDefineCall cursor.bare = isDefineCall cursor := by simp [isDefineCall]
  unfold startsSkipped
  rw [isFunctionStatement_bare, isClassStatement_bare, halt, define, Cursor.bare_kind]

theorem isClassStatement_eq_false {cursor : Cursor} (unmodified : classModifier? cursor.kind = none)
    (classless : classKind? cursor.kind = none) : isClassStatement cursor = false := by
  unfold isClassStatement
  cases cursor.ahead with
  | nil => rfl
  | cons next after =>
      change (if (classModifier? cursor.kind).isSome then _
        else (classKind? cursor.kind).isSome && _) = false
      rw [unmodified, classless]
      rfl

theorem startsSkipped_if {cursor : Cursor} (test : cursor.kind = .ifKw) :
    startsSkipped cursor = true := by
  have noClass : isClassStatement cursor = false :=
    isClassStatement_eq_false (test ▸ rfl) (test ▸ rfl)
  simp [startsSkipped, noClass, startsOther, isFunctionStatement, isHalt, isDefineCall,
    Cursor.isName, test]

/-- A word is skipped that neither ends the code nor defines a constant. -/
theorem startsSkipped_word {cursor : Cursor} (word : cursor.kind = .identifier)
    (goesOn : sameFolded cursor.current.value "__halt_compiler" = false)
    (plain : sameFolded (stripSeparator cursor.current.value) "define" = false) :
    startsSkipped cursor = true := by
  have noClass : isClassStatement cursor = false :=
    isClassStatement_eq_false (word ▸ rfl) (word ▸ rfl)
  simp [startsSkipped, noClass, startsOther, isFunctionStatement, isHalt, isDefineCall, word,
    goesOn, plain]

section Skipped

variable {s : ParseState} (skipped : startsSkipped s.cursor = true)
include skipped

theorem kind_ne_of_skipped {kind : TokenKind} (other : startsOther kind = true) :
    s.cursor.kind ≠ kind := fun same => by
  rw [startsSkipped, same, other] at skipped
  cases skipped

theorem docAcrossAttributes_of_skipped :
    docAcrossAttributes s = (s.cursor.current.doc.map (·.text), s) := by
  change (if (s.cursor.kind == .attributeStart) = true then _ else _ : Parse _) s = _
  rw [beq_false_of_ne (kind_ne_of_skipped skipped rfl)]
  rfl

theorem statement_of_skipped :
    statement s = (some <$> skippedStatement s.cursor.current.span.start) s := by
  have tests := skipped
  simp only [startsSkipped, Bool.and_eq_true, Bool.not_eq_true'] at tests
  obtain ⟨⟨⟨⟨-, noFunction⟩, noClass⟩, noHalt⟩, noDefine⟩ := tests
  unfold statement
  rw [position_bind, bind_of (docAcrossAttributes_of_skipped skipped), kind_bind]
  generalize sort : s.cursor.kind = kind
  split
  case h_7 =>
    simp only [ahead?_bind, noFunction, noClass, noHalt, noDefine, Bool.false_eq_true, if_false]
    rfl
  all_goals exact absurd sort (kind_ne_of_skipped skipped rfl)

theorem topStatement_of_skipped :
    topStatement s = (some <$> skippedStatement s.cursor.current.span.start) s := by
  change (if (s.cursor.kind == .namespaceKw) = true then _ else statement : Parse _) s = _
  rw [beq_false_of_ne (kind_ne_of_skipped skipped rfl)]
  exact statement_of_skipped skipped

theorem nextStatement_of_skipped (going : s.halted = false) {t : ParseState} {id : NodeId}
    (one : topStatement s = (some id, t)) (goesOn : t.halted = false) :
    nextStatement (fun _ => false) false topStatement [] s = (([id], true), t) := by
  have never {kind : TokenKind} (other : startsOther kind = true) :
      (s.cursor.kind == kind) = false := beq_false_of_ne (kind_ne_of_skipped skipped other)
  change (if (s.cursor.kind == .endOfFile || false || s.halted) = true then _
    else if (s.cursor.kind == .closeBrace && !false) = true then _ else _ : Parse _) s = _
  rw [never rfl, never rfl, going]
  change (topStatement >>= fun found => _) s = _
  rw [bind_of one]
  change (([id], !t.halted), t) = _
  rw [goesOn]
  rfl

end Skipped

/-- A statement that is skipped takes all its tokens and leaves a node that declares nothing. -/
theorem skippedStatement_of_closes {s : ParseState} {front : List Token} {last next : Token}
    {after : List Token} {inner : Nat} (here : s.tokens = front ++ last :: next :: after)
    (goesOn : depthAfterAll 0 (front.map Token.kind) = some inner)
    (ends : endsSkipped inner last.kind = true) (pos : Nat) :
    ∃ t span, skippedStatement pos s = (s.arena.size, t) ∧ t.tokens = next :: after ∧
      t.arena = s.arena.add (.skipped s.cursor.kind) span ∧ t.halted = s.halted ∧
      t.depth = s.depth := by
  obtain ⟨tokens, arena, halted, depth⟩ := untilDone_skipToken here goesOn ends
  let t := (untilDone 0 skipToken).next s
  refine ⟨(addNode (.skipped s.cursor.kind) pos).next t, ⟨pos, max t.cursor.lastEnd pos⟩, ?_,
    tokens, congrArg (Arena.add · _ _) arena, halted, depth⟩
  rw [skippedStatement_eq, kind_bind, ← arena]
  rfl

theorem ofText_starts (text : Text) : (ParseState.ofText text).arena = {} ∧
    (ParseState.ofText text).halted = false ∧ (ParseState.ofText text).depth = 0 :=
  ⟨rfl, rfl, rfl⟩

theorem bare_of_tokens {s t : ParseState} {token : Token} {ahead : List Token}
    (here : s.tokens = token :: ahead)
    (same : (token :: ahead).map Token.bare = t.tokens.map Token.bare) :
    s.cursor.bare = t.cursor.bare := by
  rw [← here] at same
  obtain ⟨current, ahead⟩ := List.cons.inj same
  rw [Cursor.bare, Cursor.bare, current, ahead]

/-- Where a file begins with a statement that is skipped, the statements after it are parsed
as in a file that begins with them. -/
theorem fileStatements_skip {text textToo : Text} {front rest : List Token} {last : Token}
    {inner : Nat} (skipped : startsSkipped (ParseState.ofText text).cursor = true)
    (here : (ParseState.ofText text).tokens = front ++ last :: rest)
    (goesOn : depthAfterAll 0 (front.map Token.kind) = some inner)
    (ends : endsSkipped inner last.kind = true)
    (same : rest.map Token.bare = (ParseState.ofText textToo).tokens.map Token.bare) :
    fileStatements.result (.ofText text) =
        0 :: (fileStatements.result (.ofText textToo)).map (· + 1) ∧
      ParseState.Echo 1 (fileStatements.next (.ofText textToo))
        (fileStatements.next (.ofText text)) := by
  obtain ⟨empty, going, shallow⟩ := ofText_starts text
  obtain ⟨emptyToo, goingToo, shallowToo⟩ := ofText_starts textToo
  generalize ParseState.ofText text = s at *
  generalize ParseState.ofText textToo = first at *
  cases rest with
  | nil => cases same
  | cons next after =>
      obtain ⟨t, span, taken, tokens, arena, halted, depth⟩ :=
        skippedStatement_of_closes here goesOn ends s.cursor.current.span.start
      have echo : ParseState.Echo 1 first t := by
        refine ⟨?_, ?_, halted.trans (going.trans goingToo.symm),
          depth.trans (shallow.trans shallowToo.symm)⟩
        · exact bare_of_tokens tokens same
        · rw [arena, empty, emptyToo]
          exact .skipped _ _
      have one : topStatement s = (some 0, t) := by
        rw [topStatement_of_skipped skipped, map_of taken, empty]
        rfl
      have stepped : nextStatement (fun _ => false) false topStatement [] s = (([0], true), t) :=
        nextStatement_of_skipped skipped going one (halted.trans going)
      have shorter : t.cursor.left < s.cursor.left := by
        have before := congrArg List.length here
        have left := congrArg List.length tokens
        simp only [ParseState.tokens, List.length_cons, List.length_append] at before left
        rw [s.cursor.counted, t.cursor.counted]
        omega
      have later : Echoes 1 (fun list => [0] ++ list.map (· + 1)) fileStatements
          (untilDone [0] (nextStatement (fun _ => false) false topStatement)) :=
        untilDone_echoes _ (nextStatement_echoes topStatement_echoes [0])
      have begun : fileStatements s =
          untilDone [0] (nextStatement (fun _ => false) false topStatement) t :=
        untilDone_of_more stepped shorter
      obtain ⟨list, state⟩ := later first t echo
      have result : fileStatements.result s = _ := congrArg Prod.fst begun
      have next : fileStatements.next s = _ := congrArg Prod.snd begun
      refine ⟨result.trans list, ?_⟩
      rw [next]
      exact state

end StaticReflection.Grammar
