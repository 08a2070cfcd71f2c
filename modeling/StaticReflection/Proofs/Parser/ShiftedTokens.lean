import StaticReflection.Proofs.Parser.EqualTrees
import StaticReflection.Proofs.Parser.Steps
import StaticReflection.Proofs.Scanner.TokenContext

namespace StaticReflection

/-! The parser goes by what the tokens are and not by where they stand, and it numbers the
nodes from the first free number on. From the same tokens at other places and a larger first
number it does the same; what it gives is the same up to the numbers. -/

/-- Tokens that differ only in their places. -/
theorem Token.eq_of_bare {token other : Token} (bare : other.bare = token.bare) :
    other = { token with span := other.span, doc := other.doc, problems := other.problems } := by
  obtain ⟨kind, span, lexeme, value, bytes, flags, doc, problems⟩ := token
  obtain ⟨kind, span, lexeme, value, bytes, flags, doc, problems⟩ := other
  obtain ⟨rfl, -, rfl, rfl, rfl, rfl, -, -⟩ := Token.mk.inj bare
  rfl

/-- The cursor without the places of its tokens. -/
def Cursor.bare (cursor : Cursor) : Cursor :=
  .of cursor.current.bare (cursor.ahead.map Token.bare) 0

namespace Cursor

@[simp] theorem bare_kind (cursor : Cursor) : cursor.bare.kind = cursor.kind := rfl

@[simp] theorem bare_value (cursor : Cursor) :
    cursor.bare.current.value = cursor.current.value := rfl

@[simp] theorem bare_isWord (cursor : Cursor) : cursor.bare.isWord = cursor.isWord := rfl

@[simp] theorem bare_isName (cursor : Cursor) : cursor.bare.isName = cursor.isName := rfl

theorem bare_left (cursor : Cursor) : cursor.bare.left = cursor.left := by
  rw [bare, left_of, List.length_map, cursor.counted]

theorem bare_advance (cursor : Cursor) : cursor.bare.advance = cursor.advance.bare := by
  obtain ⟨current, ahead, lastEnd, left, counted⟩ := cursor
  cases ahead <;> rfl

@[simp] theorem advance_bare_kind (cursor : Cursor) :
    cursor.bare.advance.kind = cursor.advance.kind := by
  rw [bare_advance, bare_kind]

@[simp] theorem bare_peek (cursor : Cursor) : cursor.bare.peek = cursor.peek :=
  cursor.advance_bare_kind

end Cursor

/-- The same nodes with numbers that are larger by `n`, after statements that declare
nothing. -/
structure Arena.Echo (n : Nat) (first second : Arena) : Prop where
  nodes : ∀ id, second.node? (id + n) = (first.node? id).map (Node.map (· + n))
  size : second.size = first.size + n
  before : ∀ id < n, ∃ kind, second.node? id = some (.skipped kind)

theorem Arena.Echo.add {n : Nat} {first second : Arena} (echo : first.Echo n second)
    (node : Node) (span otherSpan : Span) :
    (first.add node span).Echo n (second.add (node.map (· + n)) otherSpan) where
  nodes id := by
    rw [node?_add, node?_add, echo.size]
    by_cases last : id = first.size
    · rw [if_pos last, if_pos (congrArg (· + n) last)]
      rfl
    · rw [if_neg last, if_neg fun same => last (Nat.add_right_cancel same), echo.nodes]
  size := by
    rw [size_add, size_add, echo.size]
    omega
  before id early := by
    have other : id ≠ second.size := by
      rw [echo.size]
      omega
    rw [node?_add, if_neg other]
    exact echo.before id early

/-- A statement that declares nothing, and nothing else. -/
theorem Arena.Echo.skipped (firstToken : TokenKind) (span : Span) :
    Arena.Echo 1 {} (Arena.add {} (.skipped firstToken) span) where
  nodes id := by
    rw [node?_add]
    exact if_neg (Nat.succ_ne_zero id)
  size := rfl
  before id early := by
    rw [node?_add]
    exact ⟨firstToken, if_pos (Nat.lt_one_iff.mp early)⟩

/-- The same tokens at other places, and the same nodes with larger numbers. -/
structure ParseState.Echo (n : Nat) (s t : ParseState) : Prop where
  cursor : t.cursor.bare = s.cursor.bare
  arena : s.arena.Echo n t.arena
  halted : t.halted = s.halted
  depth : t.depth = s.depth

theorem ParseState.Echo.kind {n : Nat} {s t : ParseState} (echo : s.Echo n t) :
    t.cursor.kind = s.cursor.kind := by
  rw [← Cursor.bare_kind, echo.cursor, Cursor.bare_kind]

namespace Parse

open ParseState

variable {α β σ : Type} {n : Nat}

/-- The second parser does the same as the first one from a state that echoes, and what it
gives is what the first one gives, moved. -/
def Echoes (n : Nat) (move : α → β) (parse : Parse α) (other : Parse β) : Prop :=
  ∀ s t, Echo n s t →
    other.result t = move (parse.result s) ∧ Echo n (parse.next s) (other.next t)

/-- What the parsers give holds no node. -/
abbrev EchoesAlike (n : Nat) (parse other : Parse α) : Prop :=
  Echoes n id parse other

namespace Echoes

variable {γ δ : Type} {move : α → β} {out : γ → δ}

theorem pure {value : α} : (Echoes n move (Pure.pure value) (Pure.pure (move value))) :=
  fun _ _ echo => ⟨rfl, echo⟩

theorem pureOf {value : α} {moved : β} (same : moved = move value) :
    Echoes n move (Pure.pure value) (Pure.pure moved) :=
  same ▸ pure

/-- A first part whose outcomes are related. -/
theorem related {R : α → β → Prop} {parse : Parse α} {other : Parse β} {rest : α → Parse γ}
    {otherRest : β → Parse δ}
    (first : ∀ s t, Echo n s t →
      R (parse.result s) (other.result t) ∧ Echo n (parse.next s) (other.next t))
    (second : ∀ value moved, R value moved → Echoes n out (rest value) (otherRest moved)) :
    Echoes n out (parse >>= rest) (other >>= otherRest) := by
  intro s t echo
  obtain ⟨same, after⟩ := first s t echo
  exact second _ _ same _ _ after

theorem bind {parse : Parse α} {other : Parse β} {rest : α → Parse γ} {otherRest : β → Parse δ}
    (first : Echoes n move parse other)
    (second : ∀ value, Echoes n out (rest value) (otherRest (move value))) :
    Echoes n out (parse >>= rest) (other >>= otherRest) :=
  related (R := fun value moved => moved = move value) first fun value _ same =>
    same ▸ second value

/-- A first part that gives the same. -/
theorem same {parse other : Parse α} {rest : α → Parse γ} {otherRest : α → Parse δ}
    (first : EchoesAlike n parse other)
    (second : ∀ value, Echoes n out (rest value) (otherRest value)) :
    Echoes n out (parse >>= rest) (other >>= otherRest) :=
  bind first second

theorem none : Echoes n (Option.map move) (Pure.pure none) (Pure.pure none) :=
  pure

theorem map {parse : Parse α} {other : Parse β} {f : α → γ} {g : β → δ}
    (first : Echoes n move parse other) (along : ∀ value, g (move value) = out (f value)) :
    Echoes n out (f <$> parse) (g <$> other) := by
  intro s t echo
  obtain ⟨same, after⟩ := first s t echo
  exact ⟨by rw [result_map, result_map, same, along], after⟩

theorem some {parse : Parse α} {other : Parse β} (first : Echoes n move parse other) :
    Echoes n (Option.map move) (some <$> parse) (some <$> other) :=
  map first fun _ => rfl

/-- Places may differ, and nothing depends on them. -/
theorem position {rest : Nat → Parse γ} {otherRest : Nat → Parse δ}
    (second : ∀ pos otherPos, Echoes n out (rest pos) (otherRest otherPos)) :
    Echoes n out (Parse.position >>= rest) (Parse.position >>= otherRest) :=
  fun s t echo => second _ _ s t echo

/-- The states themselves, which echo. -/
theorem get {rest : ParseState → Parse γ} {otherRest : ParseState → Parse δ}
    (second : ∀ s t, Echo n s t → Echoes n out (rest s) (otherRest t)) :
    Echoes n out (MonadState.get >>= rest) (MonadState.get >>= otherRest) :=
  fun s t echo => second s t echo s t echo

theorem ite {condition : Prop} [Decidable condition] {yes no : Parse γ} {otherYes otherNo : Parse δ}
    (holds : condition → Echoes n out yes otherYes)
    (fails : ¬ condition → Echoes n out no otherNo) :
    Echoes n out (if condition then yes else no) (if condition then otherYes else otherNo) := by
  split
  · exact holds ‹_›
  · exact fails ‹_›

/-- Two ways that join again. -/
theorem join {condition : Prop} [Decidable condition] {yes no : Parse α}
    {otherYes otherNo : Parse β} {rest : α → Parse γ} {otherRest : β → Parse δ}
    (holds : Echoes n move yes otherYes) (fails : Echoes n move no otherNo)
    (second : ∀ value, Echoes n out (rest value) (otherRest (move value))) :
    Echoes n out (if condition then yes >>= rest else no >>= rest)
      (if condition then otherYes >>= otherRest else otherNo >>= otherRest) :=
  ite (fun _ => bind holds second) fun _ => bind fails second

theorem when {condition : Prop} [Decidable condition] {yes otherYes : Parse Unit}
    {rest : Unit → Parse γ} {otherRest : Unit → Parse δ} (holds : EchoesAlike n yes otherYes)
    (second : Echoes n out (rest ()) (otherRest ())) :
    Echoes n out (if condition then yes >>= rest else rest ())
      (if condition then otherYes >>= otherRest else otherRest ()) :=
  ite (fun _ => same holds fun _ => second) fun _ => second

/-- A look at the state. -/
theorem of_looks {parse : Parse α} {other : Parse β} (still : ∀ s, parse.next s = s)
    (stillToo : ∀ t, other.next t = t)
    (same : ∀ {s t}, Echo n s t → other.result t = move (parse.result s)) :
    Echoes n move parse other := fun s t echo =>
  ⟨same echo, by rw [still, stillToo]; exact echo⟩

end Echoes

/-! Steps. -/

theorem kind_echoes : EchoesAlike n kind kind :=
  .of_looks next_kind next_kind fun echo => echo.kind

theorem value_echoes : EchoesAlike n value value :=
  .of_looks next_value next_value fun echo => congrArg (·.current.value) echo.cursor

theorem at?_echoes {kind : TokenKind} : EchoesAlike n (at? kind) (at? kind) :=
  .of_looks (next_at? kind) (next_at? kind) fun echo =>
    congrArg (· == kind) echo.kind

/-- The current token is the same but for its place. -/
theorem Echoes.current {γ δ : Type} {out : γ → δ} {rest : Token → Parse γ}
    {otherRest : Token → Parse δ}
    (second : ∀ token span doc problems, Echoes n out (rest token)
      (otherRest { token with span, doc, problems })) :
    Echoes n out (Parse.current >>= rest) (Parse.current >>= otherRest) := by
  intro s t echo
  have bare := congrArg Cursor.current echo.cursor
  change t.cursor.current.bare = s.cursor.current.bare at bare
  have after := second s.cursor.current t.cursor.current.span t.cursor.current.doc
    t.cursor.current.problems s t echo
  rw [← Token.eq_of_bare bare] at after
  exact after

theorem left_echoes : EchoesAlike n left left :=
  .of_looks next_left next_left fun {s t} echo => by
    have same := congrArg Cursor.left echo.cursor
    rw [Cursor.bare_left, Cursor.bare_left] at same
    exact same

theorem doc_echoes : EchoesAlike n doc doc :=
  .of_looks next_doc next_doc fun {s t} echo => by
    have same := congrArg (fun cursor : Cursor => cursor.current.doc.map (·.text)) echo.cursor
    change (t.cursor.current.doc.map DocComment.bare).map (·.text) =
      (s.cursor.current.doc.map DocComment.bare).map (·.text) at same
    rw [Option.map_map, Option.map_map] at same
    exact same

theorem found_echoes : EchoesAlike n found found :=
  .of_looks next_found next_found fun {s t} echo => by
    have kind := congrArg (·.current.kind) echo.cursor
    have lexeme := congrArg (·.current.lexeme) echo.cursor
    change t.cursor.current.kind = s.cursor.current.kind at kind
    change t.cursor.current.lexeme = s.cursor.current.lexeme at lexeme
    change (if (t.cursor.current.kind == .endOfFile) = true then _ else _ : Parse String).result t =
      (if (s.cursor.current.kind == .endOfFile) = true then _ else _ : Parse String).result s
    rw [kind, lexeme]
    split <;> rfl

/-- A test of what the tokens are. -/
theorem ahead?_echoes {test : Cursor → Bool}
    (bare : ∀ cursor, test cursor.bare = test cursor) :
    EchoesAlike n (ahead? test) (ahead? test) :=
  .of_looks (next_ahead? test) (next_ahead? test) fun {s t} echo => by
    rw [result_ahead?, result_ahead?, ← bare, echo.cursor, bare]
    rfl

theorem advance_echoes : EchoesAlike n advance advance := fun s t echo => by
  refine ⟨rfl, ?_, echo.arena, echo.halted, echo.depth⟩
  change t.cursor.advance.bare = s.cursor.advance.bare
  rw [← Cursor.bare_advance, ← Cursor.bare_advance, echo.cursor]

theorem report_echoes {message otherMessage : String} :
    EchoesAlike n (report message) (report otherMessage) := fun s t echo => by
  refine ⟨rfl, ?_⟩
  unfold report
  rw [next_modify, next_modify]
  dsimp only
  split <;> split <;> exact ⟨echo.cursor, echo.arena, echo.halted, echo.depth⟩

theorem reportExpected_echoes {what : String} :
    EchoesAlike n (reportExpected what) (reportExpected what) :=
  .same found_echoes fun _ => report_echoes

theorem stall_echoes : EchoesAlike n stall stall := fun _ _ echo =>
  ⟨rfl, echo.cursor, echo.arena, echo.halted, echo.depth⟩

theorem addNode_echoes {node : Node} {pos otherPos : Nat} :
    Echoes n (· + n) (addNode node pos) (addNode (node.map (· + n)) otherPos) :=
  fun _ _ echo =>
    ⟨echo.arena.size, echo.cursor, echo.arena.add node _ _, echo.halted, echo.depth⟩

theorem missingNode_echoes : Echoes n (· + n) missingNode missingNode :=
  fun _ _ echo =>
    ⟨echo.arena.size, echo.cursor, echo.arena.add .missing _ _, echo.halted, echo.depth⟩

theorem accept_echoes {kind : TokenKind} : EchoesAlike n (accept kind) (accept kind) :=
  .same at?_echoes fun _ =>
    .ite (fun _ => .same advance_echoes fun _ => .pure) fun _ => .pure

theorem acceptIf_echoes {condition : Bool} {kind : TokenKind} :
    EchoesAlike n (acceptIf condition kind) (acceptIf condition kind) :=
  .ite (fun _ => accept_echoes) fun _ => .pure

theorem expect_echoes {kind : TokenKind} : EchoesAlike n (expect kind) (expect kind) :=
  .same accept_echoes fun _ => .ite (fun _ => .pure) fun _ =>
    .same reportExpected_echoes fun _ => .pure

/-! Loops. -/

theorem repeatUpTo_related {R : σ → σ → Prop} {step otherStep : σ → Parse (σ × Bool)}
    (steps : ∀ state other, R state other → ∀ s t, Echo n s t →
      R ((step state).result s).1 ((otherStep other).result t).1 ∧
        ((otherStep other).result t).2 = ((step state).result s).2 ∧
        Echo n ((step state).next s) ((otherStep other).next t))
    {bound : Nat} {state other : σ} (related : R state other) {s t : ParseState}
    (echo : Echo n s t) :
    R ((repeatUpTo step bound state).result s) ((repeatUpTo otherStep bound other).result t) ∧
      Echo n ((repeatUpTo step bound state).next s)
        ((repeatUpTo otherStep bound other).next t) := by
  have stalls {s t : ParseState} (echo : Echo n s t) :
      Echo n { s with stalled := true } { t with stalled := true } :=
    (stall_echoes s t echo).2
  induction bound generalizing state other s t with
  | zero => exact ⟨related, stalls echo⟩
  | succ bound ih =>
      have out := steps state other related s t echo
      obtain ⟨value, more, u, stepped⟩ := exists_step step state s
      obtain ⟨otherValue, otherMore, v, otherStepped⟩ := exists_step otherStep other t
      simp only [result, next, stepped, otherStepped] at out ⊢
      obtain ⟨after, rfl, echoAfter⟩ := out
      have left := (left_echoes s t echo).1
      have leftAfter := (left_echoes u v echoAfter).1
      rw [result_left, result_left, id] at left leftAfter
      rw [repeatUpTo_succ, repeatUpTo_succ, again_of stepped, again_of otherStepped, left,
        leftAfter]
      split
      · exact ⟨after, echoAfter⟩
      split
      · exact ih after echoAfter
      · exact ⟨after, stalls echoAfter⟩

/-- A loop whose states are related all along. -/
theorem untilDone_related_echo {R : σ → σ → Prop} {step otherStep : σ → Parse (σ × Bool)}
    (steps : ∀ state other, R state other → ∀ s t, Echo n s t →
      R ((step state).result s).1 ((otherStep other).result t).1 ∧
        ((otherStep other).result t).2 = ((step state).result s).2 ∧
        Echo n ((step state).next s) ((otherStep other).next t))
    {state other : σ} (related : R state other) {s t : ParseState} (echo : Echo n s t) :
    R ((untilDone state step).result s) ((untilDone other otherStep).result t) ∧
      Echo n ((untilDone state step).next s) ((untilDone other otherStep).next t) := by
  have left := (left_echoes s t echo).1
  rw [result_left, result_left, id] at left
  unfold untilDone
  rw [result_bind, result_bind, next_bind, next_bind, result_left, result_left, left]
  exact repeatUpTo_related steps related echo

theorem untilDone_echoes (move : σ → σ) {step otherStep : σ → Parse (σ × Bool)}
    (steps : ∀ state, Echoes n (Prod.map move id) (step state) (otherStep (move state)))
    {start : σ} : Echoes n move (untilDone start step) (untilDone (move start) otherStep) := by
  intro s t echo
  refine untilDone_related_echo (R := fun state other => other = move state) ?_ rfl echo
  rintro state _ rfl s t echo
  obtain ⟨out, after⟩ := steps state s t echo
  rw [out]
  exact ⟨rfl, rfl, after⟩

end Parse

end StaticReflection
