import StaticReflection.Proofs.Parser.Steps

namespace StaticReflection

/-! Parsers that pass over tokens and have nothing to report. -/

/-- What a parser sees of a token. -/
structure Mark where
  kind : TokenKind
  value : String := ""
  bytes : List UInt8 := []
  deriving DecidableEq, Repr

def Token.mark (token : Token) : Mark :=
  ⟨token.kind, token.value, token.bytes⟩

/-- All nodes of one arena are in the other, under the same numbers. -/
def Arena.Extends (arena larger : Arena) : Prop :=
  ∀ id node, arena.node? id = some node → larger.node? id = some node

theorem Arena.Extends.refl (arena : Arena) : arena.Extends arena :=
  fun _ _ found => found

theorem Arena.Extends.trans {first second third : Arena} (one : first.Extends second)
    (two : second.Extends third) : first.Extends third :=
  fun id node found => two id node (one id node found)

theorem Arena.node?_add_size (arena : Arena) (node : Node) (span : Span) :
    (arena.add node span).node? arena.size = some node := by
  simp [node?, add, size]

theorem Arena.extends_add (arena : Arena) (node : Node) (span : Span) :
    arena.Extends (arena.add node span) := by
  intro id found there
  simp only [node?, add, Option.map_eq_some_iff] at there ⊢
  obtain ⟨entry, there, rfl⟩ := there
  have inside : id < arena.entries.size := (Array.getElem?_eq_some_iff.mp there).1
  exact ⟨entry, by rw [Array.getElem?_push_lt inside]; simpa [inside] using there, rfl⟩

namespace ParseState

def marks (s : ParseState) : List Mark :=
  (s.cursor.current :: s.cursor.ahead).map Token.mark

/-- No problem was found in the tokens ahead. -/
def Sound (s : ParseState) : Prop :=
  ∀ token ∈ s.cursor.ahead, token.problems = []

/-- One state comes after the other, with tokens of the given marks between them. -/
structure Passes (s : ParseState) (between : List Mark) (t : ParseState) : Prop where
  marks : s.marks = between ++ t.marks
  sound : s.Sound → t.Sound
  reported : t.reported = s.reported
  scanned : t.scanned = s.scanned
  halted : t.halted = s.halted
  stalled : t.stalled = s.stalled
  depth : t.depth = s.depth
  arena : s.arena.Extends t.arena

theorem Passes.refl (s : ParseState) : s.Passes [] s where
  marks := rfl
  sound := id
  reported := rfl
  scanned := rfl
  halted := rfl
  stalled := rfl
  depth := rfl
  arena := .refl _

theorem Passes.trans {s t u : ParseState} {first second : List Mark}
    (one : s.Passes first t) (two : t.Passes second u) : s.Passes (first ++ second) u where
  marks := by rw [one.marks, two.marks, List.append_assoc]
  sound sound := two.sound (one.sound sound)
  reported := two.reported.trans one.reported
  scanned := two.scanned.trans one.scanned
  halted := two.halted.trans one.halted
  stalled := two.stalled.trans one.stalled
  depth := two.depth.trans one.depth
  arena := one.arena.trans two.arena

/-- A state in which expressions are open and tokens of the given marks are left. -/
structure At (s : ParseState) (depth : Nat) (marks : List Mark) : Prop where
  marks : s.marks = marks
  sound : s.Sound
  depth : s.depth = depth

variable {s t : ParseState} {depth : Nat} {mark next : Mark} {between rest : List Mark}

theorem At.after (here : s.At depth (between ++ rest)) (passes : s.Passes between t) :
    t.At depth rest where
  marks := List.append_cancel_left (passes.marks.symm.trans here.marks)
  sound := passes.sound here.sound
  depth := passes.depth.trans here.depth

theorem At.opened {marks : List Mark} (here : s.At depth marks) :
    ParseState.At { s with depth := s.depth + 1 } (depth + 1) marks where
  marks := here.marks
  sound := here.sound
  depth := congrArg (· + 1) here.depth

theorem At.current (here : s.At depth (mark :: rest)) : s.cursor.current.mark = mark :=
  (List.cons.inj here.marks).1

theorem At.kind (here : s.At depth (mark :: rest)) : s.cursor.kind = mark.kind :=
  congrArg Mark.kind here.current

theorem At.value (here : s.At depth (mark :: rest)) : s.cursor.current.value = mark.value :=
  congrArg Mark.value here.current

theorem At.bytes (here : s.At depth (mark :: rest)) : s.cursor.current.bytes = mark.bytes :=
  congrArg Mark.bytes here.current

theorem At.ahead (here : s.At depth (mark :: next :: rest)) :
    ∃ token ahead, s.cursor.ahead = token :: ahead ∧ token.mark = next ∧
      ahead.map Token.mark = rest :=
  List.map_eq_cons_iff.mp (List.cons.inj here.marks).2

theorem At.peek (here : s.At depth (mark :: next :: rest)) : s.cursor.peek = next.kind := by
  obtain ⟨token, ahead, more, marked, _⟩ := here.ahead
  rw [Cursor.peek, Cursor.advance_cons more, ← marked]
  rfl

theorem Passes.left (passes : s.Passes between t) :
    s.cursor.left = between.length + t.cursor.left := by
  have lengths := congrArg List.length passes.marks
  simp only [ParseState.marks, List.length_append, List.length_map, List.length_cons] at lengths
  rw [s.cursor.counted, t.cursor.counted]
  omega

end ParseState

namespace Parse

open ParseState

variable {α β σ : Type} {s : ParseState} {depth : Nat} {mark next : Mark}
  {first second after : List Mark} {Q : α → Arena → Prop} {P : β → Arena → Prop}

/-- The parser passes tokens of the given marks, and its value and the nodes that it leaves
are as said. -/
structure Yields (parse : Parse α) (s : ParseState) (marks : List Mark)
    (Q : α → Arena → Prop) : Prop where
  passes : s.Passes marks (parse.next s)
  outcome : Q (parse.result s) (parse.next s).arena

namespace Yields

theorem mono {parse : Parse α} {R : α → Arena → Prop} (yields : parse.Yields s first Q)
    (weaker : ∀ value arena, Q value arena → R value arena) : parse.Yields s first R :=
  ⟨yields.passes, weaker _ _ yields.outcome⟩

theorem pure {value : α} (outcome : Q value s.arena) :
    (Pure.pure value : Parse α).Yields s [] Q :=
  ⟨.refl s, outcome⟩

theorem bind {parse : Parse α} {rest : α → Parse β} (one : parse.Yields s first Q)
    (two : ∀ value t, s.Passes first t → Q value t.arena → (rest value).Yields t second P) :
    (parse >>= rest).Yields s (first ++ second) P :=
  have rest := two _ _ one.passes one.outcome
  ⟨one.passes.trans rest.passes, rest.outcome⟩

/-- A last part that passes nothing. -/
theorem andThen {parse : Parse α} {rest : α → Parse β} (one : parse.Yields s first Q)
    (two : ∀ value t, s.Passes first t → Q value t.arena → (rest value).Yields t [] P) :
    (parse >>= rest).Yields s first P := by
  rw [← List.append_nil first]
  exact one.bind two

theorem map {parse : Parse α} {f : α → β} (one : parse.Yields s first Q)
    (outcome : ∀ value arena, Q value arena → P (f value) arena) :
    (f <$> parse).Yields s first P :=
  ⟨one.passes, outcome _ _ one.outcome⟩

/-- A look at the state passes nothing. -/
theorem look {parse : Parse α} {rest : α → Parse β} {value : α} (looks : parse s = (value, s))
    (two : (rest value).Yields s second P) : (parse >>= rest).Yields s second P := by
  have same : (parse >>= rest) s = rest value s := bind_of looks
  constructor
  · rw [next, same]
    exact two.passes
  · rw [result, next, same]
    exact two.outcome

theorem position {rest : Nat → Parse β}
    (two : (rest s.cursor.current.span.start).Yields s second P) :
    (Parse.position >>= rest).Yields s second P :=
  .look rfl two

theorem kind {rest : TokenKind → Parse β} (here : s.At depth (mark :: after))
    (two : (rest mark.kind).Yields s second P) : (Parse.kind >>= rest).Yields s second P :=
  .look (congrArg (·, s) here.kind) two

theorem value {rest : String → Parse β} (here : s.At depth (mark :: after))
    (two : (rest mark.value).Yields s second P) : (Parse.value >>= rest).Yields s second P :=
  .look (congrArg (·, s) here.value) two

theorem at? {wanted : TokenKind} {rest : Bool → Parse β} (here : s.At depth (mark :: after))
    (two : (rest (mark.kind == wanted)).Yields s second P) :
    (Parse.at? wanted >>= rest).Yields s second P :=
  .look (congrArg (fun kind => (kind == wanted, s)) here.kind) two

theorem ahead? {test : Cursor → Bool} {rest : Bool → Parse β} {passed : Bool}
    (tested : test s.cursor = passed) (two : (rest passed).Yields s second P) :
    (Parse.ahead? test >>= rest).Yields s second P :=
  .look (congrArg (·, s) tested) two

theorem adds {node : Node} {pos : Nat} {Q : NodeId → Arena → Prop}
    (outcome : ∀ id arena, s.arena.Extends arena → arena.node? id = some node → Q id arena) :
    (Parse.addNode node pos).Yields s [] Q where
  passes :=
    { ParseState.Passes.refl s with arena := s.arena.extends_add node _ }
  outcome := outcome _ _ (s.arena.extends_add node _) (s.arena.node?_add_size node _)

theorem addNode (node : Node) (pos : Nat) :
    (Parse.addNode node pos).Yields s [] fun id arena => arena.node? id = some node :=
  .adds fun _ _ _ found => found

/-- The state after the current token. -/
theorem advance_passes {left : List Mark} (here : s.At depth (mark :: left))
    (more : left ≠ []) : s.Passes [mark] (Parse.advance.next s) := by
  obtain ⟨next, after, rfl⟩ := List.exists_cons_of_ne_nil more
  obtain ⟨token, ahead, more, marked, others⟩ := here.ahead
  have problems : token.problems = [] := here.sound token (more ▸ List.mem_cons_self)
  have moved : (Parse.advance.next s).cursor = .of token ahead s.cursor.current.span.stop :=
    Cursor.advance_cons more
  constructor
  · rw [here.marks, ParseState.marks, moved]
    simp [marked, others]
  · intro sound following among
    rw [moved] at among
    exact sound following (more ▸ List.mem_cons_of_mem _ among)
  · rfl
  · change (if s.cursor.ahead.isEmpty then [] else s.cursor.advance.current.problems).reverse ++
      s.scanned = s.scanned
    rw [Cursor.advance_cons more]
    simp [problems]
  · rfl
  · rfl
  · rfl
  · exact .refl _

theorem advance {rest : Unit → Parse β} {left : List Mark} (here : s.At depth (mark :: left))
    (more : left ≠ [])
    (two : s.Passes [mark] (Parse.advance.next s) → (Parse.advance.next s).At depth left →
      (rest ()).Yields (Parse.advance.next s) second P) :
    (Parse.advance >>= rest).Yields s (mark :: second) P :=
  have passes := advance_passes here more
  have rest := two passes (At.after here passes)
  ⟨passes.trans rest.passes, rest.outcome⟩

theorem accept {wanted : TokenKind} {rest : Bool → Parse β} {left : List Mark}
    (here : s.At depth (mark :: left)) (wants : mark.kind = wanted) (more : left ≠ [])
    (two : s.Passes [mark] (Parse.advance.next s) → (Parse.advance.next s).At depth left →
      (rest true).Yields (Parse.advance.next s) second P) :
    (Parse.accept wanted >>= rest).Yields s (mark :: second) P := by
  have accepts : Parse.accept wanted s = (true, Parse.advance.next s) := by
    change (if (s.cursor.kind == wanted) = true then _ else _ : Parse Bool) s = _
    rw [if_pos (by rw [here.kind, wants, beq_self_eq_true])]
    rfl
  have passes := advance_passes here more
  have rest := two passes (At.after here passes)
  constructor
  · rw [Parse.next, bind_of accepts]
    exact passes.trans rest.passes
  · rw [Parse.result, Parse.next, bind_of accepts]
    exact rest.outcome

theorem acceptOther {wanted : TokenKind} {rest : Bool → Parse β}
    (here : s.At depth (mark :: after)) (other : mark.kind ≠ wanted)
    (two : (rest false).Yields s second P) :
    (Parse.accept wanted >>= rest).Yields s second P :=
  .look (accept_of_ne (here.kind ▸ other)) two

theorem expect {wanted : TokenKind} {rest : Bool → Parse β} {left : List Mark}
    (here : s.At depth (mark :: left)) (wants : mark.kind = wanted) (more : left ≠ [])
    (two : s.Passes [mark] (Parse.advance.next s) → (Parse.advance.next s).At depth left →
      (rest true).Yields (Parse.advance.next s) second P) :
    (Parse.expect wanted >>= rest).Yields s (mark :: second) P := by
  unfold Parse.expect
  rw [bind_assoc]
  exact .accept here wants more two

/-- The last step of a loop. -/
theorem done {state : σ} {step : σ → Parse (σ × Bool)} {Q : σ → Arena → Prop}
    (last : (step state).Yields s first fun out arena => out.2 = false ∧ Q out.1 arena) :
    (untilDone state step).Yields s first Q := by
  obtain ⟨value, more, t, stepped⟩ := exists_step step state s
  obtain ⟨passes, finished, outcome⟩ := last
  simp only [Parse.result, Parse.next, stepped] at passes finished outcome
  subst finished
  have ends := untilDone_of_done stepped
  constructor
  · rw [Parse.next, ends]
    exact passes
  · rw [Parse.result, Parse.next, ends]
    exact outcome

/-- A step of a loop, and the loop again. -/
theorem more {state : σ} {step : σ → Parse (σ × Bool)} {Q : σ → Arena → Prop}
    (one : (step state).Yields s first fun out _ => out.2 = true) (nonempty : first ≠ [])
    (two : (untilDone ((step state).result s).1 step).Yields ((step state).next s) second Q) :
    (untilDone state step).Yields s (first ++ second) Q := by
  obtain ⟨value, more, t, stepped⟩ := exists_step step state s
  obtain ⟨passes, again⟩ := one
  simp only [Parse.result, Parse.next, stepped] at passes again two
  subst again
  have shorter : t.cursor.left < s.cursor.left := by
    have := List.length_pos_iff.mpr nonempty
    have := passes.left
    omega
  have goes := untilDone_of_more stepped shorter
  constructor
  · rw [Parse.next, goes]
    exact passes.trans two.passes
  · rw [Parse.result, Parse.next, goes]
    exact two.outcome

end Yields

end Parse

end StaticReflection
