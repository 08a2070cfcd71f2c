import StaticReflection.Proofs.Parser.Steps

namespace StaticReflection

open Parse

/-! Parsers move onward. They never go back, they close every expression that they open,
and every step of a loop consumes a token or is the last one. -/

/-- The last token is the end of the file. -/
def Cursor.Closed (cursor : Cursor) : Prop :=
  (cursor.ahead.getLast?.getD cursor.current).kind = .endOfFile

theorem Cursor.Closed.advance {cursor : Cursor} (closed : cursor.Closed) :
    cursor.advance.Closed := by
  obtain ⟨current, ahead, lastEnd, left, counted⟩ := cursor
  cases ahead with
  | nil => exact closed
  | cons token ahead =>
      unfold Closed at closed ⊢
      simpa [Cursor.advance, List.getLast?_cons] using closed

theorem Cursor.left_advance_le (cursor : Cursor) : cursor.advance.left ≤ cursor.left := by
  obtain ⟨current, ahead, lastEnd, left, counted⟩ := cursor
  cases ahead with
  | nil => exact Nat.le_refl _
  | cons token ahead => exact Nat.sub_le _ _

theorem Cursor.Closed.left_advance_lt {cursor : Cursor} (closed : cursor.Closed)
    (inside : cursor.kind ≠ .endOfFile) : cursor.advance.left < cursor.left := by
  obtain ⟨current, ahead, lastEnd, left, counted⟩ := cursor
  cases ahead with
  | nil => exact absurd closed inside
  | cons token ahead =>
      simp only [List.length_cons] at counted
      change left - 1 < left
      omega

/-- A state from which `room` expressions can be parsed inside one another. -/
structure ParseState.Ready (room : Nat) (s : ParseState) : Prop where
  closed : s.cursor.Closed
  bounded : s.depth ≤ Grammar.maxDepth
  deep : Grammar.maxDepth < s.depth + room

structure ParseState.Onward (s t : ParseState) : Prop where
  closed : s.cursor.Closed → t.cursor.Closed
  left : t.cursor.left ≤ s.cursor.left
  depth : t.depth = s.depth
  stalled : t.stalled = s.stalled

namespace ParseState

theorem Onward.refl (s : ParseState) : s.Onward s :=
  ⟨id, Nat.le_refl _, rfl, rfl⟩

theorem Onward.trans {s t u : ParseState} (first : s.Onward t) (second : t.Onward u) :
    s.Onward u :=
  ⟨fun closed => second.closed (first.closed closed), Nat.le_trans second.left first.left,
    second.depth.trans first.depth, second.stalled.trans first.stalled⟩

theorem Onward.ready {s t : ParseState} {room : Nat} (onward : s.Onward t)
    (ready : s.Ready room) : t.Ready room :=
  ⟨onward.closed ready.closed, onward.depth ▸ ready.bounded, onward.depth ▸ ready.deep⟩

end ParseState

namespace Parse

variable {α β σ : Type} {room : Nat} {K L : TokenKind → Prop}

/-- The parser moves onward and, if it starts at a token of the kinds `K` and its outcome
is one of `Q`, consumes a token. -/
def Consumes (room : Nat) (K : TokenKind → Prop) (Q : α → ParseState → Prop)
    (parse : Parse α) : Prop :=
  ∀ s : ParseState, s.Ready room → s.Onward (parse.next s) ∧
    (K s.cursor.kind → Q (parse.result s) (parse.next s) →
      (parse.next s).cursor.left < s.cursor.left)

/-- The parser moves onward, and may consume nothing. -/
abbrev MovesOn (room : Nat) (parse : Parse α) : Prop :=
  parse.Consumes room (fun _ => True) fun _ _ => False

/-- The parser consumes a token whenever it starts at one of the kinds `K`. -/
abbrev ConsumesAt (room : Nat) (K : TokenKind → Prop) (parse : Parse α) : Prop :=
  parse.Consumes room K fun _ _ => True

/-- The parser stays at its token. -/
structure Still (parse : Parse α) : Prop where
  cursor : ∀ s, (parse.next s).cursor = s.cursor
  depth : ∀ s, (parse.next s).depth = s.depth
  stalled : ∀ s, (parse.next s).stalled = s.stalled

theorem Still.onward {parse : Parse α} (still : parse.Still) (s : ParseState) :
    s.Onward (parse.next s) :=
  ⟨fun closed => still.cursor s ▸ closed, Nat.le_of_eq (congrArg Cursor.left (still.cursor s)),
    still.depth s, still.stalled s⟩

theorem Still.bind {parse : Parse α} {rest : α → Parse β} (first : parse.Still)
    (second : ∀ value, (rest value).Still) : (parse >>= rest).Still where
  cursor s := ((second _).cursor _).trans (first.cursor s)
  depth s := ((second _).depth _).trans (first.depth s)
  stalled s := ((second _).stalled _).trans (first.stalled s)

/-- A parser that only looks. -/
theorem still_of_next {parse : Parse α} (same : ∀ s, parse.next s = s) : parse.Still :=
  ⟨fun s => by rw [same], fun s => by rw [same], fun s => by rw [same]⟩

theorem pure_still (value : α) : (pure value : Parse α).Still := still_of_next fun _ => rfl

theorem get_still : (get : Parse ParseState).Still := still_of_next fun _ => rfl

theorem kind_still : kind.Still := still_of_next next_kind

theorem position_still : position.Still := still_of_next next_position

theorem value_still : value.Still := still_of_next next_value

theorem current_still : current.Still := still_of_next next_current

theorem doc_still : doc.Still := still_of_next next_doc

theorem found_still : found.Still := still_of_next next_found

theorem at?_still (kind : TokenKind) : (at? kind).Still := still_of_next (next_at? kind)

theorem ahead?_still (test : Cursor → Bool) : (ahead? test).Still :=
  still_of_next (next_ahead? test)

theorem report_still (message : String) : (report message).Still := by
  refine ⟨fun s => ?_, fun s => ?_, fun s => ?_⟩ <;>
  · unfold report
    rw [next_modify]
    dsimp only
    split <;> rfl

theorem reportExpected_still (what : String) : (reportExpected what).Still :=
  .bind found_still fun _ => report_still _

theorem addNode_still (node : Node) (pos : Nat) : (addNode node pos).Still :=
  ⟨fun _ => rfl, fun _ => rfl, fun _ => rfl⟩

theorem missingNode_still : missingNode.Still :=
  ⟨fun _ => rfl, fun _ => rfl, fun _ => rfl⟩

namespace Consumes

variable {P : β → ParseState → Prop} {Q R : α → ParseState → Prop}

theorem mono {parse : Parse α} (consumes : parse.Consumes room K Q)
    (kinds : ∀ kind, L kind → K kind) (outcomes : ∀ value t, R value t → Q value t) :
    parse.Consumes room L R := fun s ready =>
  ⟨(consumes s ready).1, fun kind outcome =>
    (consumes s ready).2 (kinds _ kind) (outcomes _ _ outcome)⟩

theorem movesOn {parse : Parse α} (consumes : parse.Consumes room K Q) : parse.MovesOn room :=
  fun s ready => ⟨(consumes s ready).1, fun _ => False.elim⟩

theorem atKind {parse : Parse α} (consumes : parse.Consumes room K Q)
    (kinds : ∀ kind, L kind → K kind) : parse.Consumes room L Q :=
  consumes.mono kinds fun _ _ outcome => outcome

/-- Where no token is of the kinds `K`, moving on is enough. -/
theorem elsewhere {parse : Parse α} (moves : parse.MovesOn room) (never : ∀ kind, ¬ K kind) :
    parse.Consumes room K Q :=
  fun s ready => ⟨(moves s ready).1, fun kind => absurd kind (never _)⟩

theorem of_still {parse : Parse α} (still : parse.Still)
    (never : ∀ kind value t, K kind → ¬ Q value t) : parse.Consumes room K Q :=
  fun s _ => ⟨still.onward s, fun kind outcome => absurd outcome (never _ _ _ kind)⟩

theorem pure {value : α} (never : ∀ kind t, K kind → ¬ Q value t) :
    (Pure.pure value : Parse α).Consumes room K Q :=
  fun s _ => ⟨.refl s, fun kind outcome => absurd outcome (never _ s kind)⟩

theorem bind {parse : Parse α} {rest : α → Parse β} (first : parse.MovesOn room)
    (second : ∀ value, (rest value).Consumes room (fun _ => True) P) :
    (parse >>= rest).Consumes room K P := by
  intro s ready
  have onward := (first s ready).1
  obtain ⟨onwardRest, shorter⟩ := second (parse.result s) _ (onward.ready ready)
  exact ⟨onward.trans onwardRest, fun _ outcome =>
    Nat.lt_of_lt_of_le (shorter trivial outcome) onward.left⟩

/-- A first part that consumes for the outcomes of interest is enough. -/
theorem andThen {parse : Parse α} {rest : α → Parse β} (consumes : parse.Consumes room K Q)
    (second : ∀ value, (rest value).MovesOn room)
    (outcomes : ∀ value t, P ((rest value).result t) ((rest value).next t) → Q value t) :
    (parse >>= rest).Consumes room K P := by
  intro s ready
  obtain ⟨onward, shorter⟩ := consumes s ready
  have onwardRest := (second (parse.result s) _ (onward.ready ready)).1
  exact ⟨onward.trans onwardRest, fun kind outcome =>
    Nat.lt_of_le_of_lt onwardRest.left (shorter kind (outcomes _ _ outcome))⟩

theorem first {parse : Parse α} {rest : α → Parse β} (consumes : parse.ConsumesAt room K)
    (second : ∀ value, (rest value).MovesOn room) : (parse >>= rest).Consumes room K P :=
  consumes.andThen second fun _ _ _ => trivial

theorem still {parse : Parse α} {rest : α → Parse β} (first : parse.Still)
    (second : ∀ value, (rest value).Consumes room K P) :
    (parse >>= rest).Consumes room K P := by
  intro s ready
  have onward := first.onward s
  have same := first.cursor s
  obtain ⟨onwardRest, shorter⟩ :=
    second (parse.result s) (parse.next s) (onward.ready ready)
  rw [same] at shorter
  exact ⟨onward.trans onwardRest, shorter⟩

theorem map {parse : Parse α} {f : α → β}
    (consumes : parse.Consumes room K fun value => P (f value)) :
    (f <$> parse).Consumes room K P :=
  consumes

theorem kind {rest : TokenKind → Parse β}
    (second : ∀ kind, (rest kind).Consumes room (fun here => K here ∧ here = kind) P) :
    (Parse.kind >>= rest).Consumes room K P := fun s ready =>
  have here := second s.cursor.kind s ready
  ⟨here.1, fun kind => here.2 ⟨kind, rfl⟩⟩

theorem at? {wanted : TokenKind} {rest : Bool → Parse β}
    (yes : (rest true).Consumes room (fun here => K here ∧ here = wanted) P)
    (no : (rest false).Consumes room (fun here => K here ∧ here ≠ wanted) P) :
    (Parse.at? wanted >>= rest).Consumes room K P := by
  intro s ready
  change s.Onward ((rest (s.cursor.kind == wanted)).next s) ∧
    (_ → P ((rest (s.cursor.kind == wanted)).result s)
      ((rest (s.cursor.kind == wanted)).next s) →
        ((rest (s.cursor.kind == wanted)).next s).cursor.left < s.cursor.left)
  by_cases here : s.cursor.kind = wanted
  · rw [beq_iff_eq.mpr here]
    exact ⟨(yes s ready).1, fun kind => (yes s ready).2 ⟨kind, here⟩⟩
  · rw [beq_eq_false_iff_ne.mpr here]
    exact ⟨(no s ready).1, fun kind => (no s ready).2 ⟨kind, here⟩⟩

/-- A test of the cursor that only tokens of the kinds `L` pass. -/
theorem ahead? {test : Cursor → Bool} {rest : Bool → Parse β}
    (implied : ∀ cursor, test cursor = true → L cursor.kind)
    (yes : (rest true).Consumes room (fun here => K here ∧ L here) P)
    (no : (rest false).Consumes room K P) :
    (Parse.ahead? test >>= rest).Consumes room K P := by
  intro s ready
  change s.Onward ((rest (test s.cursor)).next s) ∧
    (_ → P ((rest (test s.cursor)).result s) ((rest (test s.cursor)).next s) →
      ((rest (test s.cursor)).next s).cursor.left < s.cursor.left)
  cases passed : test s.cursor with
  | true => exact ⟨(yes s ready).1, fun kind => (yes s ready).2 ⟨kind, implied _ passed⟩⟩
  | false => exact no s ready

theorem ite {condition : Prop} [Decidable condition] {whenTrue whenFalse : Parse α}
    (yes : condition → whenTrue.Consumes room K Q)
    (no : ¬ condition → whenFalse.Consumes room K Q) :
    (if condition then whenTrue else whenFalse).Consumes room K Q := by
  split
  · exact yes ‹_›
  · exact no ‹_›

/-- Two ways that join again. -/
theorem join {condition : Prop} [Decidable condition] {whenTrue whenFalse : Parse α}
    {rest : α → Parse β} (yes : condition → whenTrue.MovesOn room)
    (no : ¬ condition → whenFalse.MovesOn room)
    (second : ∀ value, (rest value).Consumes room (fun _ => True) P) :
    (if condition then whenTrue >>= rest else whenFalse >>= rest).Consumes room K P :=
  .ite (fun holds => .bind (yes holds) second) fun fails => .bind (no fails) second

theorem when {condition : Prop} [Decidable condition] {whenTrue : Parse Unit}
    {rest : Unit → Parse β} (yes : condition → whenTrue.MovesOn room)
    (second : (rest ()).Consumes room (fun _ => True) P) :
    (if condition then whenTrue >>= rest else rest ()).Consumes room (fun _ => True) P :=
  .ite (fun holds => .bind (yes holds) fun _ => second) fun _ => second

theorem whenStill {condition : Prop} [Decidable condition] {whenTrue : Parse Unit}
    {rest : Unit → Parse β} (yes : whenTrue.Still) (second : (rest ()).Consumes room K P) :
    (if condition then whenTrue >>= rest else rest ()).Consumes room K P :=
  .ite (fun _ => .still yes fun _ => second) fun _ => second

/-- A first part that consumes or, at tokens of other kinds than `L`, does nothing. -/
theorem orIdle {parse : Parse α} {rest : α → Parse β} {idle : α}
    (consumes : parse.ConsumesAt room L)
    (idles : ∀ s : ParseState, ¬ L s.cursor.kind → parse s = (idle, s))
    (second : ∀ value, (rest value).Consumes room
      (fun here => K here ∧ ¬ L here ∧ value = idle) P) :
    (parse >>= rest).Consumes room K P := by
  intro s ready
  obtain ⟨onward, consumed⟩ :=
    first (P := P) consumes (fun value => (second value).movesOn) s ready
  refine ⟨onward, fun kind outcome => ?_⟩
  by_cases here : L s.cursor.kind
  · exact consumed here outcome
  · simp only [result, next, bind_of (idles s here)] at outcome ⊢
    exact (second idle s ready).2 ⟨kind, here, rfl⟩ outcome

end Consumes

theorem pure_movesOn {value : α} : (pure value : Parse α).MovesOn room :=
  .pure fun _ _ _ => id

theorem Still.movesOn {parse : Parse α} (still : parse.Still) : parse.MovesOn room :=
  .of_still still fun _ _ _ _ => id

theorem advance_consumes : advance.ConsumesAt room (· ≠ .endOfFile) := fun s ready =>
  ⟨⟨fun closed => closed.advance, s.cursor.left_advance_le, rfl, rfl⟩,
    fun inside _ => ready.closed.left_advance_lt inside⟩

/-- A step that consumes a token goes on as it likes. -/
theorem Consumes.advance {rest : Unit → Parse β} {P : β → ParseState → Prop}
    (inside : ¬ K .endOfFile) (second : (rest ()).MovesOn room) :
    (Parse.advance >>= rest).Consumes room K P :=
  .first (advance_consumes.atKind fun _ here ended => inside (ended ▸ here)) fun _ => second

theorem advance_movesOn : advance.MovesOn room := advance_consumes.movesOn

/-- The last step of a loop. -/
theorem Consumes.last {value : σ} :
    (Pure.pure (value, false) : Parse (σ × Bool)).Consumes room K fun out _ => out.2 = true :=
  .pure fun _ _ _ => nofun

theorem Consumes.accept {wanted : TokenKind} {rest : Bool → Parse β}
    {P : β → ParseState → Prop} (inside : wanted ≠ .endOfFile) (yes : (rest true).MovesOn room)
    (no : (rest false).Consumes room (fun here => K here ∧ here ≠ wanted) P) :
    (Parse.accept wanted >>= rest).Consumes room K P := by
  rw [accept_bind]
  refine .at? ?_ no
  exact .advance (fun here => inside here.2.symm) yes

-- At the end of the file `advance` stays there, so these hold of every kind.
theorem accept_movesOn {wanted : TokenKind} : (accept wanted).MovesOn room :=
  .still (at?_still wanted) fun _ =>
    .ite (fun _ => .bind advance_movesOn fun _ => pure_movesOn) fun _ => pure_movesOn

theorem expect_movesOn {wanted : TokenKind} : (expect wanted).MovesOn room :=
  .bind accept_movesOn fun _ => .ite (fun _ => pure_movesOn) fun _ =>
    .still (reportExpected_still _) fun _ => pure_movesOn

theorem acceptIf_movesOn {condition : Bool} {wanted : TokenKind} :
    (acceptIf condition wanted).MovesOn room :=
  .ite (fun _ => accept_movesOn) fun _ => pure_movesOn

theorem Consumes.expect {wanted : TokenKind} {rest : Bool → Parse β}
    {P : β → ParseState → Prop} (inside : wanted ≠ .endOfFile) (yes : (rest true).MovesOn room)
    (no : (rest false).Consumes room (fun here => K here ∧ here ≠ wanted) P) :
    (Parse.expect wanted >>= rest).Consumes room K P := by
  unfold Parse.expect
  rw [bind_assoc]
  refine .accept inside yes ?_
  change (reportExpected _ >>= fun _ => rest false).Consumes room _ P
  exact .still (reportExpected_still _) fun _ => no

theorem expect_consumes {wanted : TokenKind} (inside : wanted ≠ .endOfFile) :
    (expect wanted).ConsumesAt room (· = wanted) := by
  rw [← bind_pure (expect wanted)]
  exact .expect inside pure_movesOn (.pure fun _ _ here => absurd here.1 here.2)

/-- Every step of a loop consumes a token or is the last one. -/
def Steps (room : Nat) (step : σ → Parse (σ × Bool)) : Prop :=
  ∀ state, (step state).Consumes room (fun _ => True) fun out _ => out.2 = true

theorem untilDone_movesOn {start : σ} {step : σ → Parse (σ × Bool)}
    (steps : Steps room step) : (untilDone start step).MovesOn room := by
  intro s ready
  refine ⟨?_, fun _ => False.elim⟩
  refine untilDone_invariant (I := fun _ t => s.Onward t) (P := fun _ t => s.Onward t) ?_
    (.refl s)
  intro state t reached
  obtain ⟨onward, shorter⟩ := steps state t (reached.ready ready)
  split
  · rename_i more
    exact ⟨shorter trivial (congrArg Prod.snd more), reached.trans onward⟩
  · exact reached.trans onward

/-- A loop consumes a token if its first step does. -/
theorem untilDone_consumes {start : σ} {step : σ → Parse (σ × Bool)}
    (steps : Steps room step) (first : (step start).ConsumesAt room K) :
    (untilDone start step).ConsumesAt room K := by
  intro s ready
  refine ⟨(untilDone_movesOn steps s ready).1, fun kind _ => ?_⟩
  obtain ⟨value, more, t, stepped⟩ := exists_step step start s
  obtain ⟨onward, consumed⟩ := first s ready
  simp only [next, stepped] at onward consumed ⊢
  have shorter := consumed kind trivial
  cases more with
  | false =>
      rw [untilDone_of_done stepped]
      exact shorter
  | true =>
      rw [untilDone_of_more stepped shorter]
      exact Nat.lt_of_le_of_lt (untilDone_movesOn steps t (onward.ready ready)).1.left shorter

theorem untilDone_consumes_of_more {start : σ} {step : σ → Parse (σ × Bool)}
    (steps : Steps room step)
    (more : ∀ s : ParseState, K s.cursor.kind → ((step start).result s).2 = true) :
    (untilDone start step).ConsumesAt room K := by
  refine untilDone_consumes steps fun s ready => ?_
  obtain ⟨onward, consumed⟩ := steps start s ready
  exact ⟨onward, fun kind _ => consumed trivial (more s kind)⟩

end Parse

end StaticReflection
