import StaticReflection.Proofs.Parser.CommonTokens
import StaticReflection.Proofs.Parser.DepthLimit

namespace StaticReflection

open Parse Grammar

/-! Tokens are only consumed, and what was reported stays reported, whatever is parsed next. -/

namespace ParseState

/-- A later state of the same parse: nothing that was reported is lost, and the tokens that are
left are the last of those that were left. -/
structure Precedes (s t : ParseState) : Prop where
  reported : s.reported <:+ t.reported
  tokens : t.tokens <:+ s.tokens

theorem Precedes.refl (s : ParseState) : s.Precedes s :=
  ⟨List.suffix_rfl, List.suffix_rfl⟩

theorem Precedes.trans {s t u : ParseState} (one : s.Precedes t) (two : t.Precedes u) :
    s.Precedes u :=
  ⟨one.reported.trans two.reported, two.tokens.trans one.tokens⟩

theorem Precedes.of_eq {s t : ParseState} (reported : t.reported = s.reported)
    (cursor : t.cursor = s.cursor) : s.Precedes t := by
  refine ⟨reported ▸ List.suffix_rfl, ?_⟩
  rw [ParseState.tokens, ParseState.tokens, cursor]

end ParseState

namespace Parse

variable {nested : Nested} {α : Type} {held : List NodeId} {out : α → NodeId}

/-- Whatever state a parser starts from, it leaves a later one. -/
def GoesOn (parse : Parse α) : Prop :=
  ∀ s : ParseState, s.Precedes (parse.next s)

theorem goesOn_of_eq {parse : Parse α} (reported : ∀ s, (parse.next s).reported = s.reported)
    (cursor : ∀ s, (parse.next s).cursor = s.cursor) : parse.GoesOn :=
  fun s => .of_eq (reported s) (cursor s)

theorem GoesOn.bind {β : Type} {parse : Parse α} {rest : α → Parse β} (first : parse.GoesOn)
    (second : ∀ value, (rest value).GoesOn) : (parse >>= rest).GoesOn :=
  fun s => (first s).trans (second _ _)

theorem looks_goesOn {look : ParseState → α} :
    (MonadState.get >>= fun state => Pure.pure (look state) : Parse α).GoesOn :=
  goesOn_of_eq (fun _ => rfl) fun _ => rfl

theorem advance_goesOn : advance.GoesOn :=
  fun s => ⟨List.suffix_rfl, advance_suffix s⟩

theorem report_goesOn (message : String) : (report message).GoesOn := by
  intro s
  unfold report
  rw [next_modify]
  dsimp only
  split
  · exact .refl s
  · exact ⟨List.suffix_cons _ _, List.suffix_rfl⟩

theorem pure_goesOn (value : α) : (pure value : Parse α).GoesOn :=
  goesOn_of_eq (fun _ => rfl) fun _ => rfl

theorem get_goesOn : (get : Parse ParseState).GoesOn :=
  goesOn_of_eq (fun _ => rfl) fun _ => rfl

theorem addNode_goesOn (node : Node) (pos : Nat) : (addNode node pos).GoesOn :=
  goesOn_of_eq (fun _ => rfl) fun _ => rfl

theorem missingNode_goesOn : missingNode.GoesOn :=
  goesOn_of_eq (fun _ => rfl) fun _ => rfl

end Parse

/-! Relations that last through a parse. -/

namespace Parse

variable {nested : Nested} {α β : Type} {held : List NodeId} {out : α → NodeId}
  {R : ParseState → ParseState → Prop}

/-- A relation of an earlier state to a later one, by what was consumed and reported in
between. -/
structure Enduring (R : ParseState → ParseState → Prop) : Prop where
  trans {s t u : ParseState} : R s t → R t u → R s u
  advance (s : ParseState) : R s (advance.next s)
  report (message : String) (s : ParseState) : R s ((report message).next s)
  still {s t : ParseState} : t.cursor = s.cursor → t.scanned = s.scanned →
    t.reported = s.reported → R s t

/-- Whatever state the parser starts from, it leaves one that is related. -/
def Obeys (R : ParseState → ParseState → Prop) (parse : Parse α) : Prop :=
  ∀ s : ParseState, R s (parse.next s)

theorem Enduring.bind (enduring : Enduring R) {parse : Parse α} {rest : α → Parse β}
    (first : parse.Obeys R) (second : ∀ value, (rest value).Obeys R) :
    (parse >>= rest).Obeys R :=
  fun s => enduring.trans (first s) (second _ _)

theorem Enduring.looks (enduring : Enduring R) {look : ParseState → α} :
    (MonadState.get >>= fun state => Pure.pure (look state) : Parse α).Obeys R :=
  fun _ => enduring.still rfl rfl rfl

theorem Composed.obeys {parse : Parse α} (composed : parse.Composed nested) (enduring : Enduring R)
    (inner : ∀ precedence, (nested precedence).Obeys R) : parse.Obeys R := by
  induction composed with
  | bind _ _ first second => exact enduring.bind first second
  | advance => exact enduring.advance
  | report message => exact enduring.report message
  | inner precedence => exact inner precedence
  | pure | get | stall | halt | missingNode | addNode => exact fun s => enduring.still rfl rfl rfl

theorem Gives.obeys {parse : Parse α} (gives : parse.Gives nested held out) (enduring : Enduring R)
    (inner : ∀ precedence, (nested precedence).Obeys R) : parse.Obeys R := by
  induction gives with
  | inner precedence => exact inner precedence
  | operator precedence =>
      refine enduring.bind enduring.looks fun pos => enduring.bind enduring.looks fun op => ?_
      refine enduring.bind enduring.advance fun _ => enduring.bind (inner _) fun operand => ?_
      exact fun s => enduring.still rfl rfl rfl
  | after first _ rest => exact enduring.bind (first.obeys enduring inner) rest
  | bind _ _ first second => exact enduring.bind first second
  | pure | addNode | missingNode | sign => exact fun s => enduring.still rfl rfl rfl

end Parse

namespace Grammar

variable {R : ParseState → ParseState → Prop} (enduring : Enduring R)
include enduring

theorem openExpression_obeys : openExpression.Obeys R := by
  refine enduring.bind (fun s => enduring.still rfl rfl rfl) fun state => ?_
  split
  · exact fun s => enduring.still rfl rfl rfl
  · exact enduring.bind (enduring.report _) fun _ _ => enduring.still rfl rfl rfl

theorem passExpression_obeys : passExpression.Obeys R := by
  refine enduring.bind (fun s => enduring.still rfl rfl rfl) fun missing => ?_
  refine enduring.bind enduring.looks fun ended => ?_
  dsimp only
  split
  · exact enduring.bind enduring.advance fun _ _ => enduring.still rfl rfl rfl
  · exact fun s => enduring.still rfl rfl rfl

theorem expressionWithin_obeys (room precedence : Nat) :
    (expressionWithin room precedence).Obeys R := by
  induction room generalizing precedence with
  | zero => exact fun s => enduring.still rfl rfl rfl
  | succ room ih =>
      have gives : (climb (expressionWithin room) precedence).Gives _ [] id :=
        climb_gives precedence
      refine enduring.bind (openExpression_obeys enduring) fun opened => ?_
      split
      · exact enduring.bind (gives.obeys enduring ih) fun whole _ => enduring.still rfl rfl rfl
      · exact passExpression_obeys enduring

theorem obeys_of_composed {α : Type} {parse : Parse α} (composed : parse.Composed outermost) :
    parse.Obeys R :=
  composed.obeys enduring (expressionWithin_obeys enduring _)

end Grammar

theorem Parse.precedes_enduring : Enduring ParseState.Precedes where
  trans := .trans
  advance := advance_goesOn
  report := report_goesOn
  still cursor _ reported := .of_eq reported cursor

theorem Grammar.goesOn_of_composed {α : Type} {parse : Parse α}
    (composed : parse.Composed outermost) : parse.GoesOn :=
  obeys_of_composed precedes_enduring composed

/-! Loops. -/

namespace Parse

variable {σ : Type} {step : σ → Parse (σ × Bool)} {loop : σ → Parse σ}

/-- What comes after a step of a loop. -/
theorem afterStep_goesOn (loops : ∀ state, (loop state).GoesOn) (before : Nat) (out : σ × Bool) :
    GoesOn (if !out.2 then pure out.1
      else left >>= fun now =>
        if now < before then loop out.1 else stall >>= fun _ => pure out.1) := by
  split
  · exact pure_goesOn _
  refine .bind looks_goesOn fun now => ?_
  split
  · exact loops _
  · exact goesOn_of_eq (fun _ => rfl) fun _ => rfl

theorem again_goesOn (steps : ∀ state, (step state).GoesOn) (loops : ∀ state, (loop state).GoesOn)
    (state : σ) : (again step loop state).GoesOn :=
  .bind looks_goesOn fun _ => .bind (steps state) (afterStep_goesOn loops _)

theorem repeatUpTo_goesOn (steps : ∀ state, (step state).GoesOn) (bound : Nat) (state : σ) :
    (repeatUpTo step bound state).GoesOn := by
  induction bound generalizing state with
  | zero => exact goesOn_of_eq (fun _ => rfl) fun _ => rfl
  | succ bound ih => exact again_goesOn steps ih state

end Parse

/-! Parsers that report something. -/

namespace Parse

variable {α β : Type} {parse : Parse α} {rest : α → Parse β} {s : ParseState}

/-- Something is reported, in this parser or before it. -/
def Faults (parse : Parse α) (s : ParseState) : Prop :=
  (parse.next s).reported ≠ []

theorem GoesOn.faults (goesOn : parse.GoesOn) (already : s.reported ≠ []) : parse.Faults s := by
  intro silent
  have kept := (goesOn s).reported
  rw [silent] at kept
  exact already (List.suffix_nil.mp kept)

theorem Faults.first (faults : parse.Faults s) (goesOn : ∀ value, (rest value).GoesOn) :
    (parse >>= rest).Faults s :=
  (goesOn _).faults faults

theorem Faults.look {value : α} (looks : parse s = (value, s)) (second : (rest value).Faults s) :
    (parse >>= rest).Faults s := by
  rw [Faults, Parse.next, bind_of looks]
  exact second

theorem Yields.faults {marks : List Mark} {Q : α → Arena → Prop} (one : parse.Yields s marks Q)
    (second : ∀ value t, s.Passes marks t → Q value t.arena → (rest value).Faults t) :
    (parse >>= rest).Faults s :=
  second _ _ one.passes one.outcome

theorem report_faults (message : String) : (report message).Faults s := by
  unfold Faults report
  rw [next_modify]
  dsimp only
  split
  · rename_i last
    intro empty
    simp [empty] at last
  · exact List.cons_ne_nil _ _

theorem reportExpected_faults (what : String) : (reportExpected what).Faults s := by
  unfold reportExpected Faults
  rw [next_bind, next_found]
  exact report_faults _

section Tokens

variable {depth : Nat} {mark : Mark} {wanted : TokenKind} {left : List Mark}

theorem accept_yields (here : s.At depth (mark :: left)) (wants : mark.kind = wanted)
    (more : left ≠ []) : (accept wanted).Yields s [mark] fun out _ => out = true := by
  rw [← bind_pure (accept wanted)]
  exact .accept here wants more fun _ _ => .pure rfl

theorem expect_yields (here : s.At depth (mark :: left)) (wants : mark.kind = wanted)
    (more : left ≠ []) : (expect wanted).Yields s [mark] fun out _ => out = true := by
  rw [← bind_pure (expect wanted)]
  exact .expect here wants more fun _ _ => .pure rfl

end Tokens

namespace Faults

variable {depth : Nat} {mark : Mark} {after first : List Mark}

theorem position {rest : Nat → Parse β}
    (second : (rest s.cursor.current.span.start).Faults s) :
    (Parse.position >>= rest).Faults s :=
  .look rfl second

theorem kind {rest : TokenKind → Parse β} (here : s.At depth (mark :: after))
    (second : (rest mark.kind).Faults s) : (Parse.kind >>= rest).Faults s :=
  .look (congrArg (·, s) here.kind) second

theorem at? {wanted : TokenKind} {rest : Bool → Parse β} (here : s.At depth (mark :: after))
    (second : (rest (mark.kind == wanted)).Faults s) : (Parse.at? wanted >>= rest).Faults s :=
  .look (congrArg (fun kind => (kind == wanted, s)) here.kind) second

theorem ahead? {test : Cursor → Bool} {rest : Bool → Parse β} {passed : Bool}
    (tested : test s.cursor = passed) (second : (rest passed).Faults s) :
    (Parse.ahead? test >>= rest).Faults s :=
  .look (congrArg (·, s) tested) second

theorem acceptOther {wanted : TokenKind} {rest : Bool → Parse β}
    (here : s.At depth (mark :: after)) (other : mark.kind ≠ wanted)
    (second : (rest false).Faults s) : (Parse.accept wanted >>= rest).Faults s :=
  .look (accept_of_ne (here.kind ▸ other)) second

theorem advance {rest : Unit → Parse β} {left : List Mark} (here : s.At depth (mark :: left))
    (more : left ≠ []) (second : ∀ t, t.At depth left → (rest ()).Faults t) :
    (Parse.advance >>= rest).Faults s :=
  second _ (ParseState.At.after here (Yields.advance_passes here more))

theorem accept {wanted : TokenKind} {rest : Bool → Parse β} {left : List Mark}
    (here : s.At depth (mark :: left)) (wants : mark.kind = wanted) (more : left ≠ [])
    (second : ∀ t, t.At depth left → (rest true).Faults t) :
    (Parse.accept wanted >>= rest).Faults s := by
  refine (accept_yields here wants more).faults fun value t passes accepted => ?_
  rw [accepted]
  exact second t (ParseState.At.after here passes)

theorem expect {wanted : TokenKind} {rest : Bool → Parse β} {left : List Mark}
    (here : s.At depth (mark :: left)) (wants : mark.kind = wanted) (more : left ≠ [])
    (second : ∀ t, t.At depth left → (rest true).Faults t) :
    (Parse.expect wanted >>= rest).Faults s := by
  unfold Parse.expect
  rw [bind_assoc]
  exact .accept here wants more second

theorem again {σ : Type} {step : σ → Parse (σ × Bool)} {loop : σ → Parse σ} {state : σ}
    (one : (step state).Faults s) (loops : ∀ state, (loop state).GoesOn) :
    (again step loop state).Faults s :=
  .look rfl (one.first (afterStep_goesOn loops _))

/-- The first step of a loop. -/
theorem inStep {σ : Type} {step : σ → Parse (σ × Bool)} {state : σ} (one : (step state).Faults s)
    (steps : ∀ state, (step state).GoesOn) : (untilDone state step).Faults s := by
  have whole : (Parse.again step (repeatUpTo step s.cursor.left) state).Faults s :=
    one.again fun state => repeatUpTo_goesOn steps _ state
  exact whole

/-- A later step of a loop. -/
theorem more {σ : Type} {step : σ → Parse (σ × Bool)} {state : σ}
    (one : (step state).Yields s first fun out _ => out.2 = true) (nonempty : first ≠ [])
    (second : (untilDone ((step state).result s).1 step).Faults ((step state).next s)) :
    (untilDone state step).Faults s := by
  obtain ⟨value, more, t, stepped⟩ := exists_step step state s
  obtain ⟨passes, continues⟩ := one
  simp only [Parse.result, Parse.next, stepped] at passes continues second
  subst continues
  have shorter : t.cursor.left < s.cursor.left := by
    have := List.length_pos_iff.mpr nonempty
    have := passes.left
    omega
  rw [Faults, Parse.next, untilDone_of_more stepped shorter]
  exact second

end Faults

end Parse

end StaticReflection
