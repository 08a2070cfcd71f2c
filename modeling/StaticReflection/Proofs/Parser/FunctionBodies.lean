import Mathlib.Data.List.Infix
import StaticReflection.Proofs.Parser.Termination

namespace StaticReflection

open Parse Grammar

/-! The body of a function is skipped, not parsed. The tokens that are passed tell which braces are
open and which of them begin a nested body. All lists of kinds hold the last one first. -/

/-- A function or class has been named, and no brace has come since. -/
def awaitsBody : List TokenKind → Bool
  | [] => false
  | kind :: before =>
      if kind = .openBrace then false
      else if kind = .functionKw ∨ kind = .classKw then
        awaitsBody before || !selectsMember (before.head?.getD .unknown)
      else awaitsBody before

/-- What was passed before each brace that is still open, the innermost first. -/
def openBraces : List TokenKind → List (List TokenKind)
  | [] => []
  | .openBrace :: before => before :: openBraces before
  | .closeBrace :: before => (openBraces before).tail
  | _ :: before => openBraces before

/-- No open brace begins a nested body. -/
def OutsideNested (passed : List TokenKind) : Prop :=
  ∀ before ∈ openBraces passed, awaitsBody before = false

/-- A `yield` is passed outside nested bodies, where none is awaited either. -/
def YieldsItself (passed : List TokenKind) : Prop :=
  ∃ before, .yieldKw :: before <:+ passed ∧ OutsideNested before ∧ awaitsBody before = false

/-- The last brace of the body is closed. -/
def BodyEnds (passed : List TokenKind) : Prop :=
  passed.head? = some .closeBrace ∧ openBraces passed = []

/-- Static variables are declared here, and not in a nested body. -/
def DeclaresStatics (passed : List TokenKind) (cursor : Cursor) : Prop :=
  cursor.kind = .staticKw ∧ cursor.peek = .variableName ∧
    OutsideNested passed ∧ openBraces passed ≠ []

/-- A body is skipped token by token, except that static variables are parsed with their
initializers. -/
inductive Skims (expr : Parse NodeId) (s : ParseState) : List TokenKind → ParseState → Prop
  | start : Skims expr s [] s
  | token {passed : List TokenKind} {t : ParseState} (before : Skims expr s passed t)
      (inside : ¬ BodyEnds passed) (more : t.cursor.kind ≠ .endOfFile)
      (plain : ¬ DeclaresStatics passed t.cursor) :
      Skims expr s (t.cursor.kind :: passed) (advance.next t)
  | statics {passed : List TokenKind} {t : ParseState} (before : Skims expr s passed t)
      (inside : ¬ BodyEnds passed) (declares : DeclaresStatics passed t.cursor)
      (known : List StaticVariable) :
      Skims expr s (.semicolon :: passed) ((staticVariables expr known).next (advance.next t))

theorem openBraces_other {kind : TokenKind} (opening : kind ≠ .openBrace)
    (closing : kind ≠ .closeBrace) (before : List TokenKind) :
    openBraces (kind :: before) = openBraces before := by
  rw [openBraces]
  · exact opening
  · exact closing

theorem yieldsItself_cons (kind : TokenKind) (passed : List TokenKind) :
    YieldsItself (kind :: passed) ↔
      kind = .yieldKw ∧ OutsideNested passed ∧ awaitsBody passed = false ∨
        YieldsItself passed := by
  constructor
  · rintro ⟨before, suffix, own⟩
    obtain same | earlier := List.suffix_cons_iff.mp suffix
    · cases same
      exact .inl ⟨rfl, own⟩
    · exact .inr ⟨before, earlier, own⟩
  · rintro (⟨rfl, own⟩ | ⟨before, suffix, own⟩)
    · exact ⟨passed, List.suffix_rfl, own⟩
    · exact ⟨before, suffix.trans (List.suffix_cons _ _), own⟩

/-- The depths of the braces that begin a nested body. -/
def nestedDepths : List (List TokenKind) → List Nat
  | [] => []
  | before :: outer =>
      if awaitsBody before then (outer.length + 1) :: nestedDepths outer else nestedDepths outer

theorem nestedDepths_le {braces : List (List TokenKind)} {depth : Nat}
    (among : depth ∈ nestedDepths braces) : depth ≤ braces.length := by
  induction braces with
  | nil => cases among
  | cons before outer ih =>
      rw [nestedDepths] at among
      rw [List.length_cons]
      split at among
      · obtain rfl | among := List.mem_cons.mp among
        · exact Nat.le_refl _
        · exact Nat.le_succ_of_le (ih among)
      · exact Nat.le_succ_of_le (ih among)

theorem isEmpty_nestedDepths (passed : List TokenKind) :
    (nestedDepths (openBraces passed)).isEmpty = true ↔ OutsideNested passed := by
  unfold OutsideNested
  induction openBraces passed with
  | nil => simp [nestedDepths]
  | cons before outer ih =>
      rw [nestedDepths, List.forall_mem_cons, ← ih]
      cases awaitsBody before with
      | true => simp
      | false => simp

/-- A brace that closes takes its own depth away, if that is among those of nested bodies. -/
theorem nestedDepths_tail (braces : List (List TokenKind)) :
    nestedDepths braces.tail =
      if (nestedDepths braces).head? == some braces.length then (nestedDepths braces).tail
      else nestedDepths braces := by
  cases braces with
  | nil => rfl
  | cons before outer =>
      rw [List.tail_cons, nestedDepths, List.length_cons]
      cases awaitsBody before with
      | true => simp
      | false =>
          have other : (nestedDepths outer).head? ≠ some (outer.length + 1) := fun first =>
            absurd (nestedDepths_le (List.mem_of_head? first)) (by omega)
          simp [other]

/-- What is noted of a body agrees with the tokens that have been passed. -/
structure Grammar.BodyScan.Follows (scan : BodyScan) (passed : List TokenKind) : Prop where
  depth : scan.depth = (openBraces passed).length
  nested : scan.nested = nestedDepths (openBraces passed)
  pending : scan.pending = awaitsBody passed
  previous : scan.previous = passed.head?.getD .unknown
  generator : scan.isGenerator = true ↔ YieldsItself passed

namespace Grammar.BodyScan.Follows

variable {scan : BodyScan} {passed : List TokenKind}

theorem start : ({} : BodyScan).Follows [] where
  depth := rfl
  nested := rfl
  pending := rfl
  previous := rfl
  generator := by simp [YieldsItself]

theorem isEmpty_nested (follows : scan.Follows passed) :
    scan.nested.isEmpty = true ↔ OutsideNested passed := by
  rw [follows.nested]
  exact isEmpty_nestedDepths passed

/-- A token that no part of the scan looks for. -/
theorem other (follows : scan.Follows passed) {kind : TokenKind} (opening : kind ≠ .openBrace)
    (closing : kind ≠ .closeBrace) (function : kind ≠ .functionKw) (class' : kind ≠ .classKw)
    (yields : kind ≠ .yieldKw) : { scan with previous := kind }.Follows (kind :: passed) where
  depth := by rw [openBraces_other opening closing, follows.depth]
  nested := by rw [openBraces_other opening closing, follows.nested]
  pending := by simp [awaitsBody, opening, function, class', follows.pending]
  previous := rfl
  generator := by simp [yieldsItself_cons, yields, follows.generator]

/-- The declaration of static variables, with what it declares. -/
theorem semicolon (follows : scan.Follows passed) (statics : List StaticVariable) :
    { scan with statics, previous := .semicolon }.Follows (.semicolon :: passed) :=
  have other : { scan with previous := .semicolon }.Follows (.semicolon :: passed) :=
    follows.other nofun nofun nofun nofun nofun
  ⟨other.depth, other.nested, other.pending, other.previous, other.generator⟩

theorem openBrace (follows : scan.Follows passed) :
    { scan with
      depth := scan.depth + 1
      nested := if scan.pending then (scan.depth + 1) :: scan.nested else scan.nested
      pending := false
      previous := .openBrace }.Follows (.openBrace :: passed) where
  depth := by rw [openBraces, List.length_cons, follows.depth]
  nested := by rw [openBraces, nestedDepths, follows.nested, follows.pending, follows.depth]
  pending := rfl
  previous := rfl
  generator := by simp [yieldsItself_cons, follows.generator]

theorem closeBrace (follows : scan.Follows passed) :
    { scan with
      depth := scan.depth - 1
      nested :=
        if scan.nested.head? == some scan.depth then scan.nested.tail else scan.nested
      previous := .closeBrace }.Follows (.closeBrace :: passed) where
  depth := by rw [openBraces, List.length_tail, follows.depth]
  nested := by rw [openBraces, nestedDepths_tail, follows.nested, follows.depth]
  pending := by simp [awaitsBody, follows.pending]
  previous := rfl
  generator := by simp [yieldsItself_cons, follows.generator]

theorem naming (follows : scan.Follows passed) {kind : TokenKind}
    (names : kind = .functionKw ∨ kind = .classKw) :
    { scan with
      pending := scan.pending || !selectsMember scan.previous
      previous := kind }.Follows (kind :: passed) where
  depth := by obtain rfl | rfl := names <;> exact follows.depth
  nested := by obtain rfl | rfl := names <;> exact follows.nested
  pending := by
    obtain rfl | rfl := names <;> simp [awaitsBody, follows.pending, follows.previous]
  previous := rfl
  generator := by
    obtain rfl | rfl := names <;> simp [yieldsItself_cons, follows.generator]

theorem yield (follows : scan.Follows passed) :
    { scan with
      isGenerator := scan.isGenerator || (scan.nested.isEmpty && !scan.pending)
      previous := .yieldKw }.Follows (.yieldKw :: passed) where
  depth := follows.depth
  nested := follows.nested
  pending := by simp [awaitsBody, follows.pending]
  previous := rfl
  generator := by
    rw [yieldsItself_cons, ← follows.isEmpty_nested, ← follows.generator, ← follows.pending]
    simp [or_comm]

end Grammar.BodyScan.Follows

section Body

variable {expr : Parse NodeId} {room : Nat} {s t : ParseState} {scan : BodyScan}
  {passed : List TokenKind}

theorem not_bodyEnds {kind : TokenKind} (other : kind ≠ .closeBrace) :
    ¬ BodyEnds (kind :: passed) := fun ends =>
  other (Option.some.inj ends.1)

theorem Grammar.BodyScan.Follows.declares_iff (follows : scan.Follows passed) {cursor : Cursor}
    (static : cursor.kind = .staticKw) :
    (scan.nested.isEmpty && decide (0 < scan.depth) && cursor.peek == .variableName) = true ↔
      DeclaresStatics passed cursor := by
  have inside : 0 < scan.depth ↔ openBraces passed ≠ [] := by
    rw [follows.depth, List.length_pos_iff]
  simp only [DeclaresStatics, Bool.and_eq_true, follows.isEmpty_nested, decide_eq_true_eq, inside,
    beq_iff_eq]
  tauto

theorem Grammar.BodyScan.Follows.more_iff (follows : scan.Follows passed) :
    decide (1 < scan.depth) = true ↔ ¬ BodyEnds (.closeBrace :: passed) := by
  have shallow : openBraces passed = [] ∨ (openBraces passed).length = 1 ↔
      (openBraces passed).length ≤ 1 := by
    rw [Nat.le_one_iff_eq_zero_or_eq_one, List.length_eq_zero_iff]
  simp only [BodyEnds, openBraces, List.head?_cons, true_and, ← List.length_eq_zero_iff,
    List.length_tail, follows.depth, decide_eq_true_eq]
  omega

variable (expr) in
/-- A token of the body, where no static variables are declared. -/
theorem bodyStep_token (follows : scan.Follows passed) (more : t.cursor.kind ≠ .endOfFile)
    (plain : ¬ DeclaresStatics passed t.cursor) :
    ∃ next goesOn, bodyStep expr scan t = ((next, goesOn), advance.next t) ∧
      next.Follows (t.cursor.kind :: passed) ∧
      (goesOn = true ↔ ¬ BodyEnds (t.cursor.kind :: passed)) := by
  unfold bodyStep
  rw [kind_bind]
  generalize here : t.cursor.kind = kind at *
  dsimp only
  split
  · contradiction
  · exact ⟨_, true, rfl, follows.openBrace, by simp [not_bodyEnds]⟩
  · exact ⟨_, _, rfl, follows.closeBrace, follows.more_iff⟩
  · exact ⟨_, true, rfl, follows.naming (.inl rfl), by simp [not_bodyEnds]⟩
  · exact ⟨_, true, rfl, follows.naming (.inr rfl), by simp [not_bodyEnds]⟩
  · rw [← follows.declares_iff here] at plain
    rw [ahead?_bind]
    refine ⟨{ scan with previous := .staticKw }, true, ?_,
      follows.other nofun nofun nofun nofun nofun, by simp [not_bodyEnds]⟩
    change (if _ then _ else pure ({ scan with previous := .staticKw }, true) : Parse _) _ = _
    rw [if_neg plain]
    rfl
  · exact ⟨_, true, rfl, follows.yield, by simp [not_bodyEnds]⟩
  · rename_i opening closing function class' static yields
    refine ⟨_, true, rfl, follows.other opening closing function class' yields, ?_⟩
    simp [not_bodyEnds closing]

variable (expr) in
theorem bodyStep_statics (follows : scan.Follows passed)
    (declares : DeclaresStatics passed t.cursor) :
    ∃ next, bodyStep expr scan t =
        ((next, true), (staticVariables expr scan.statics).next (advance.next t)) ∧
      next.Follows (.semicolon :: passed) := by
  have here : t.cursor.kind = .staticKw := declares.1
  unfold bodyStep
  rw [kind_bind, here]
  dsimp only
  rw [ahead?_bind]
  refine ⟨_, ?_, follows.semicolon ((staticVariables expr scan.statics).result (advance.next t))⟩
  change (if _ then _ else _ : Parse _) _ = _
  rw [if_pos ((follows.declares_iff here).mpr declares)]
  rfl

/-- The skipping of a body, after the tokens that have been passed. -/
structure Midway (room : Nat) (expr : Parse NodeId) (s : ParseState) (scan : BodyScan)
    (t : ParseState) (passed : List TokenKind) : Prop where
  ready : t.Ready room
  skims : Skims expr s passed t
  inside : ¬ BodyEnds passed
  follows : scan.Follows passed

/-- The end of it: either the body ends, or the file does. -/
structure Skimmed (expr : Parse NodeId) (s : ParseState) (scan : BodyScan) (t last : ParseState)
    (passed : List TokenKind) : Prop where
  skims : Skims expr s passed last
  stays : last.cursor = t.cursor
  ends : BodyEnds passed ∨ t.cursor.kind = .endOfFile
  generator : scan.isGenerator = true ↔ YieldsItself passed

/-- One token, or one declaration of static variables. -/
theorem Midway.step (inner : expr.MovesOn room) (midway : Midway room expr s scan t passed) :
    ∃ next goesOn u, bodyStep expr scan t = ((next, goesOn), u) ∧
      (goesOn = true → u.cursor.left < t.cursor.left ∧ ∃ passed, Midway room expr s next u passed) ∧
      (goesOn = false → ∃ last passed, Skimmed expr s next u last passed) := by
  obtain ⟨onward, shorter⟩ := bodyStep_steps inner scan t midway.ready
  have ready := onward.ready midway.ready
  by_cases ended : t.cursor.kind = .endOfFile
  · have stops : bodyStep expr scan t =
        ((scan, false), (report "Unexpected end of file, expected '\x7d'").next t) := by
      unfold bodyStep
      rw [kind_bind, ended]
      rfl
    have still := (report_still "Unexpected end of file, expected '\x7d'").cursor t
    exact ⟨_, _, _, stops, fun goes => absurd goes Bool.false_ne_true, fun _ =>
      ⟨t, passed, midway.skims, still.symm, .inr (still ▸ ended), midway.follows.generator⟩⟩
  by_cases declares : DeclaresStatics passed t.cursor
  · obtain ⟨more, steps, follows⟩ := bodyStep_statics expr midway.follows declares
    simp only [result, next, steps] at shorter ready
    have skims := midway.skims.statics midway.inside declares scan.statics
    exact ⟨_, _, _, steps, fun _ => ⟨shorter trivial trivial, _, ready, skims,
      not_bodyEnds (by decide), follows⟩, fun stops => absurd stops.symm Bool.false_ne_true⟩
  · obtain ⟨more, goesOn, steps, follows, inside⟩ :=
      bodyStep_token expr midway.follows ended declares
    simp only [result, next, steps] at shorter ready
    have skims := midway.skims.token midway.inside ended declares
    refine ⟨_, _, _, steps, fun goes => ?_, fun stops => ?_⟩
    · exact ⟨shorter trivial goes, _, ready, skims, inside.mp goes, follows⟩
    · have ends := not_not.mp (mt inside.mpr (ne_true_of_eq_false stops))
      exact ⟨_, _, skims, rfl, .inl ends, follows.generator⟩

/-- A function is held for a generator if and only if a `yield` is passed outside the bodies of
the functions and classes in its own, while no such body is awaited. What stands before the
`yield` does not matter: it counts as the name of a member and behind the arrow of a short
function, whose body has no braces. -/
theorem isGenerator_iff_yieldsItself (inner : expr.MovesOn room) (ready : s.Ready room) :
    ∃ passed last, Skims expr s passed last ∧
      last.cursor = ((functionBody expr).next s).cursor ∧
      (BodyEnds passed ∨ last.cursor.kind = .endOfFile) ∧
      (((functionBody expr).result s).isGenerator = true ↔ YieldsItself passed) := by
  have start : Midway room expr s {} s [] :=
    ⟨ready, .start, fun ends => (nomatch ends.1), .start⟩
  have whole : ∃ last passed, Skimmed expr s ((functionBody expr).result s)
      ((functionBody expr).next s) last passed := by
    refine untilDone_invariant (I := fun scan t => ∃ passed, Midway room expr s scan t passed)
      (P := fun scan t => ∃ last passed, Skimmed expr s scan t last passed) ?_ ⟨[], start⟩
    rintro scan t ⟨passed, midway⟩
    obtain ⟨more, goesOn, u, steps, goes, stops⟩ := midway.step inner
    simp only [result, next, steps]
    cases goesOn with
    | true => exact goes rfl
    | false => exact stops rfl
  obtain ⟨last, passed, skimmed⟩ := whole
  exact ⟨passed, last, skimmed.skims, skimmed.stays, skimmed.stays ▸ skimmed.ends,
    skimmed.generator⟩

theorem member_and_arrow_yields_count :
    expression.MovesOn (maxDepth + 1) ∧
    (∃ passed last,
      Skims expression (.ofText "<?php \x7b return $a->yield; \x7d".toList) passed last ∧
      YieldsItself passed ∧
      ((functionBody expression).result
        (.ofText "<?php \x7b return $a->yield; \x7d".toList)).isGenerator = true) ∧
    (∃ passed last,
      Skims expression (.ofText "<?php \x7b return fn() => yield 1; \x7d".toList) passed last ∧
      YieldsItself passed ∧
      ((functionBody expression).result
        (.ofText "<?php \x7b return fn() => yield 1; \x7d".toList)).isGenerator = true) := by
  have moves : expression.MovesOn (maxDepth + 1) := expression_consumes.movesOn
  have member : ((functionBody expression).result
      (.ofText "<?php \x7b return $a->yield; \x7d".toList)).isGenerator = true := by
    decide +kernel
  have arrow : ((functionBody expression).result
      (.ofText "<?php \x7b return fn() => yield 1; \x7d".toList)).isGenerator = true := by
    decide +kernel
  obtain ⟨passed, last, skims, -, -, generator⟩ :=
    isGenerator_iff_yieldsItself moves (ParseState.ofText_ready _)
  obtain ⟨passedToo, lastToo, skimsToo, -, -, generatorToo⟩ :=
    isGenerator_iff_yieldsItself moves (ParseState.ofText_ready _)
  exact ⟨moves, ⟨passed, last, skims, generator.mp member, member⟩,
    passedToo, lastToo, skimsToo, generatorToo.mp arrow, arrow⟩

end Body

end StaticReflection
