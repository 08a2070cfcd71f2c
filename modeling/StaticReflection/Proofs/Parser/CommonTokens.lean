import Mathlib.Data.List.Infix
import StaticReflection.Proofs.Parser.Progress
import StaticReflection.Proofs.Scanner.CommonTokens

namespace StaticReflection

open Parse

/-! Two parses that go on in different ways after a while are the same until then. What
matters is only whether the word that ends the code has been consumed: the tokens at which
the ways part come after it. -/

/-- The token is the word that ends the code. -/
def Token.Halts (token : Token) : Prop :=
  token.kind = .identifier ∧ sameFolded token.value "__halt_compiler" = true

theorem Token.Halts.sameFolded_eq_false {token : Token} (halts : token.Halts) {word : String}
    (other : sameFolded "__halt_compiler" word = false) : sameFolded token.value word = false := by
  have folded := beq_iff_eq.mp halts.2
  rw [sameFolded, folded]
  exact other

/-- Two ways in which the same tokens go on, and the end of the shorter text. -/
structure Fork where
  rest : List Token
  other : List Token
  limit : Nat
  /-- The word that ends the code comes before. -/
  quiet : ∀ token ∈ rest, ¬ token.Halts

namespace ParseState

/-- The tokens that are not consumed. -/
def tokens (s : ParseState) : List Token :=
  s.cursor.current :: s.cursor.ahead

/-- The word that ends the code is still to come. -/
def Live (s : ParseState) : Prop :=
  ∃ token ∈ s.tokens, token.Halts

/-- The same state before other tokens. -/
def onto (s : ParseState) (ahead : List Token) : ParseState :=
  { s with cursor := .of s.cursor.current ahead s.cursor.lastEnd }

/-- Whatever is reported, now or later, is before the given offset, or at it. -/
structure Within (limit : Nat) (s : ParseState) : Prop where
  tokens : ∀ token ∈ s.tokens, token.Within limit
  reported : ∀ entry ∈ s.reported, entry.2 ≤ limit
  scanned : ∀ problem ∈ s.scanned, problem.pos ≤ limit

/-- Two states that differ in what comes after the fork. -/
structure Paired (fork : Fork) (room : Nat) (s t : ParseState) : Prop where
  shared : ∃ shared, s.cursor.ahead = shared ++ fork.rest ∧ t = s.onto (shared ++ fork.other)
  ready : s.Ready room
  within : s.Within fork.limit

variable {fork : Fork} {room : Nat} {s t u v : ParseState}

theorem Live.of_suffix (live : t.Live) (suffix : t.tokens <:+ s.tokens) : s.Live := by
  obtain ⟨token, among, halts⟩ := live
  exact ⟨token, suffix.subset among, halts⟩

/-- Where the ways part right after the current token, it is the word itself. -/
theorem Live.current (live : s.Live) (quiet : ∀ token ∈ s.cursor.ahead, ¬ token.Halts) :
    s.cursor.current.Halts := by
  obtain ⟨token, among, halts⟩ := live
  obtain rfl | later := List.mem_cons.mp among
  · exact halts
  · exact absurd halts (quiet token later)

theorem Paired.left_lt_iff (before : Paired fork room s t) (after : Paired fork room u v) :
    v.cursor.left < t.cursor.left ↔ u.cursor.left < s.cursor.left := by
  obtain ⟨shared, ahead, rfl⟩ := before.shared
  obtain ⟨fewer, later, rfl⟩ := after.shared
  rw [u.cursor.counted, s.cursor.counted, ahead, later]
  simp only [onto, Cursor.left_of, List.length_append]
  omega

end ParseState

namespace Parse

open ParseState

variable {α β σ : Type} {fork : Fork} {room : Nat} {halts : Prop}

/-- From paired states the parser gives the same and leaves paired states, unless it
consumes the word that ends the code. -/
structure Agrees (fork : Fork) (room : Nat) (halts : Prop) (parse : Parse α) : Prop where
  suffix : ∀ s, (parse.next s).tokens <:+ s.tokens
  halted : ∀ s, halts ∨ (parse.next s).halted = s.halted
  same : ∀ {s t}, Paired fork room s t → (parse.next s).Live →
    parse.result t = parse.result s ∧ Paired fork room (parse.next s) (parse.next t)

/-- A parser that looks at nothing but the current token. -/
structure Looks (parse : Parse α) : Prop where
  next : ∀ s, parse.next s = s
  result : ∀ s ahead, parse.result (s.onto ahead) = parse.result s

theorem kind_looks : kind.Looks := ⟨fun _ => rfl, fun _ _ => rfl⟩

theorem current_looks : current.Looks := ⟨fun _ => rfl, fun _ _ => rfl⟩

theorem position_looks : position.Looks := ⟨fun _ => rfl, fun _ _ => rfl⟩

theorem value_looks : value.Looks := ⟨fun _ => rfl, fun _ _ => rfl⟩

theorem doc_looks : doc.Looks := ⟨fun _ => rfl, fun _ _ => rfl⟩

theorem found_looks : found.Looks := by
  refine ⟨next_found, fun s ahead => ?_⟩
  change (if (s.cursor.current.kind == .endOfFile) = true then _ else _ : Parse String).result _ =
    (if (s.cursor.current.kind == .endOfFile) = true then _ else _ : Parse String).result s
  split <;> rfl

theorem at?_looks (kind : TokenKind) : (at? kind).Looks := ⟨fun _ => rfl, fun _ _ => rfl⟩

/-- A test of the current token. -/
theorem ahead?_looks {test : Cursor → Bool} (same : ∀ s ahead,
    test (ParseState.onto s ahead).cursor = test s.cursor) :
    (ahead? test).Looks :=
  ⟨fun _ => rfl, same⟩

namespace Agrees

theorem pure {value : α} : (Pure.pure value : Parse α).Agrees fork room halts :=
  ⟨fun _ => List.suffix_rfl, fun _ => .inr rfl, fun paired _ => ⟨rfl, paired⟩⟩

theorem bind {parse : Parse α} {rest : α → Parse β} (first : parse.Agrees fork room halts)
    (second : ∀ value, (rest value).Agrees fork room halts) :
    (parse >>= rest).Agrees fork room halts where
  suffix s := ((second _).suffix _).trans (first.suffix s)
  halted s := by
    obtain may | same := first.halted s
    · exact .inl may
    · rw [← same]
      exact (second _).halted _
  same {s t} paired live := by
    obtain ⟨result, middle⟩ := first.same paired (live.of_suffix ((second _).suffix _))
    rw [result_bind, result_bind, next_bind, next_bind, result]
    exact (second _).same middle live

theorem map {parse : Parse α} {f : α → β} (agrees : parse.Agrees fork room halts) :
    (f <$> parse).Agrees fork room halts :=
  bind agrees fun _ => pure

theorem look {parse : Parse α} {rest : α → Parse β} (looks : parse.Looks)
    (second : ∀ value, (rest value).Agrees fork room halts) :
    (parse >>= rest).Agrees fork room halts := by
  refine bind ⟨fun s => ?_, fun s => ?_, fun {s t} paired _ => ?_⟩ second
  · rw [looks.next]
  · rw [looks.next]
    exact .inr rfl
  · obtain ⟨shared, -, rfl⟩ := paired.shared
    rw [looks.next, looks.next, looks.result]
    exact ⟨rfl, paired⟩

theorem get {rest : ParseState → Parse β}
    (same : ∀ s ahead, rest (ParseState.onto s ahead) = rest s)
    (second : ∀ s, (rest s).Agrees fork room halts) :
    (MonadState.get >>= rest).Agrees fork room halts where
  suffix s := (second s).suffix s
  halted s := (second s).halted s
  same {s t} paired live := by
    obtain ⟨shared, -, rfl⟩ := paired.shared
    change (rest (s.onto _)).result _ = (rest s).result s ∧
      Paired fork room ((rest s).next s) ((rest (s.onto _)).next _)
    rw [same]
    exact (second s).same paired live

theorem ite {condition : Prop} [Decidable condition] {whenTrue whenFalse : Parse α}
    (yes : condition → whenTrue.Agrees fork room halts)
    (no : ¬ condition → whenFalse.Agrees fork room halts) :
    (if condition then whenTrue else whenFalse).Agrees fork room halts := by
  split
  · exact yes ‹_›
  · exact no ‹_›

/-- Two ways that join again. -/
theorem join {condition : Prop} [Decidable condition] {whenTrue whenFalse : Parse α}
    {rest : α → Parse β} (yes : whenTrue.Agrees fork room halts)
    (no : whenFalse.Agrees fork room halts)
    (second : ∀ value, (rest value).Agrees fork room halts) :
    (if condition then whenTrue >>= rest else whenFalse >>= rest).Agrees fork room halts :=
  ite (fun _ => bind yes second) fun _ => bind no second

theorem when {condition : Prop} [Decidable condition] {whenTrue : Parse Unit}
    {rest : Unit → Parse β} (yes : whenTrue.Agrees fork room halts)
    (second : (rest ()).Agrees fork room halts) :
    (if condition then whenTrue >>= rest else rest ()).Agrees fork room halts :=
  ite (fun _ => bind yes fun _ => second) fun _ => second

end Agrees

theorem Looks.agrees {parse : Parse α} (looks : parse.Looks) : parse.Agrees fork room halts := by
  rw [← bind_pure parse]
  exact .look looks fun _ => .pure

/-! Steps. -/

/-- A step that stays at its token. -/
theorem agrees_of_onto {parse : Parse α} (cursor : ∀ s, (parse.next s).cursor = s.cursor)
    (depth : ∀ s, (parse.next s).depth = s.depth)
    (halted : ∀ s, halts ∨ (parse.next s).halted = s.halted)
    (within : ∀ s : ParseState, s.Within fork.limit → (parse.next s).Within fork.limit)
    (result : ∀ s ahead, parse.result (ParseState.onto s ahead) = parse.result s)
    (next : ∀ s ahead, parse.next (ParseState.onto s ahead) = (parse.next s).onto ahead) :
    parse.Agrees fork room halts where
  suffix s := by
    rw [ParseState.tokens, cursor]
    exact List.suffix_rfl
  halted := halted
  same {s t} paired _ := by
    obtain ⟨shared, ahead, rfl⟩ := paired.shared
    refine ⟨result s _, ⟨shared, ?_, next s _⟩, ?_, within s paired.within⟩
    · rw [cursor, ahead]
    · have ready := paired.ready
      exact ⟨(cursor s).symm ▸ ready.closed, (depth s).symm ▸ ready.bounded,
        (depth s).symm ▸ ready.deep⟩

theorem addNode_agrees {node : Node} {pos : Nat} :
    (addNode node pos).Agrees fork room halts :=
  agrees_of_onto (fun _ => rfl) (fun _ => rfl) (fun _ => .inr rfl)
    (fun _ within => ⟨within.tokens, within.reported, within.scanned⟩) (fun _ _ => rfl)
    fun _ _ => rfl

theorem missingNode_agrees : missingNode.Agrees fork room halts :=
  agrees_of_onto (fun _ => rfl) (fun _ => rfl) (fun _ => .inr rfl)
    (fun _ within => ⟨within.tokens, within.reported, within.scanned⟩) (fun _ _ => rfl)
    fun _ _ => rfl

theorem stall_agrees : stall.Agrees fork room halts :=
  agrees_of_onto (fun _ => rfl) (fun _ => rfl) (fun _ => .inr rfl)
    (fun _ within => ⟨within.tokens, within.reported, within.scanned⟩) (fun _ _ => rfl)
    fun _ _ => rfl

theorem report_agrees {message : String} : (report message).Agrees fork room halts := by
  have still := report_still message
  refine agrees_of_onto still.cursor still.depth (fun s => .inr ?_) (fun s within => ?_)
    (fun _ _ => rfl) fun s ahead => ?_
  · unfold report
    rw [next_modify]
    dsimp only
    split <;> rfl
  · unfold report
    rw [next_modify]
    dsimp only
    split
    · exact within
    · refine ⟨within.tokens, List.forall_mem_cons.mpr ⟨?_, within.reported⟩, within.scanned⟩
      exact (within.tokens _ List.mem_cons_self).start
  · unfold report
    rw [next_modify, next_modify]
    change (if (s.reported.head?.map (·.2) == some s.cursor.current.span.start) = true then _
      else _) = ParseState.onto (if _ then _ else _) ahead
    split <;> rfl

theorem reportExpected_agrees {what : String} : (reportExpected what).Agrees fork room halts :=
  .look found_looks fun _ => report_agrees

theorem next_advance_of_cons {s : ParseState} {token : Token} {ahead : List Token}
    (more : s.cursor.ahead = token :: ahead) :
    advance.next s = { s with
      cursor := .of token ahead s.cursor.current.span.stop
      scanned := token.problems.reverse ++ s.scanned } := by
  unfold advance
  rw [next_modify, Cursor.advance_cons more, more]
  rfl

theorem tokens_advance_of_nil {s : ParseState} (last : s.cursor.ahead = []) :
    (advance.next s).tokens = [s.cursor.current] := by
  change s.cursor.advance.current :: s.cursor.advance.ahead = _
  generalize s.cursor = cursor at last
  obtain ⟨current, ahead, lastEnd, left, counted⟩ := cursor
  subst last
  rfl

theorem tokens_advance_of_cons {s : ParseState} {token : Token} {ahead : List Token}
    (more : s.cursor.ahead = token :: ahead) : (advance.next s).tokens = token :: ahead := by
  rw [next_advance_of_cons more]
  rfl

theorem advance_suffix (s : ParseState) : (advance.next s).tokens <:+ s.tokens := by
  cases more : s.cursor.ahead with
  | nil =>
      rw [tokens_advance_of_nil more, ParseState.tokens, more]
  | cons token ahead =>
      rw [tokens_advance_of_cons more, ParseState.tokens, more]
      exact List.suffix_cons _ _

/-- At the last token before the fork, which is the word itself, the word is consumed. -/
theorem not_live_advance {s : ParseState} (closed : s.cursor.Closed)
    (quiet : ∀ token ∈ s.cursor.ahead, ¬ token.Halts) : ¬ (advance.next s).Live := by
  rintro ⟨token, among, halts⟩
  cases more : s.cursor.ahead with
  | nil =>
      rw [tokens_advance_of_nil more, List.mem_singleton] at among
      have ended : s.cursor.current.kind = .endOfFile := by
        rw [Cursor.Closed, more] at closed
        exact closed
      rw [among] at halts
      cases halts.1.symm.trans ended
  | cons first ahead =>
      rw [tokens_advance_of_cons more, ← more] at among
      exact quiet token among halts

theorem advance_agrees : advance.Agrees fork room halts where
  suffix := advance_suffix
  halted _ := .inr rfl
  same {s t} paired live := by
    obtain ⟨shared, ahead, rfl⟩ := paired.shared
    cases shared with
    | nil =>
        rw [List.nil_append] at ahead
        exact absurd live (not_live_advance paired.ready.closed (ahead ▸ fork.quiet))
    | cons token shared =>
        have ready := (advance_consumes s paired.ready).1.ready paired.ready
        have next := next_advance_of_cons ahead
        refine ⟨rfl, ⟨shared, ?_, ?_⟩, ready, ?_, paired.within.reported, ?_⟩
        · rw [next]
          rfl
        · rw [next]
          rfl
        · exact fun token among => paired.within.tokens token ((advance_suffix s).subset among)
        · rw [next]
          refine List.forall_mem_append.mpr ⟨fun problem found => ?_, paired.within.scanned⟩
          have among : token ∈ s.tokens := by simp [ParseState.tokens, ahead]
          exact (paired.within.tokens token among).problems problem (List.mem_reverse.mp found)

/-- Another token than the word that ends the code is passed in both. -/
theorem paired_advance {s t : ParseState} (paired : s.Paired fork room t) (live : s.Live)
    (other : ¬ s.cursor.current.Halts) :
    (advance.next s).Live ∧ Paired fork room (advance.next s) (advance.next t) := by
  have still : (advance.next s).Live := by
    obtain ⟨token, among, isHalt⟩ := live
    obtain rfl | later := List.mem_cons.mp among
    · exact absurd isHalt other
    · obtain ⟨first, ahead, more⟩ := List.exists_cons_of_ne_nil (List.ne_nil_of_mem later)
      exact ⟨token, tokens_advance_of_cons more ▸ more ▸ later, isHalt⟩
  have advances : advance.Agrees fork room True := advance_agrees
  exact ⟨still, (advances.same paired still).2⟩

theorem Agrees.accept {kind : TokenKind} {rest : Bool → Parse β}
    (second : ∀ found, (rest found).Agrees fork room halts) :
    (Parse.accept kind >>= rest).Agrees fork room halts := by
  rw [accept_bind]
  exact .look (at?_looks kind) fun _ =>
    .ite (fun _ => .bind advance_agrees fun _ => second true) fun _ => second false

theorem accept_agrees {kind : TokenKind} : (accept kind).Agrees fork room halts := by
  rw [← bind_pure (accept kind)]
  exact .accept fun _ => .pure

theorem acceptIf_agrees {condition : Bool} {kind : TokenKind} :
    (acceptIf condition kind).Agrees fork room halts :=
  .ite (fun _ => accept_agrees) fun _ => .pure

theorem expect_agrees {kind : TokenKind} : (expect kind).Agrees fork room halts := by
  unfold expect
  refine .accept fun found => .ite (fun _ => .pure) fun _ => ?_
  exact .bind reportExpected_agrees fun _ => .pure

/-! Looking ahead. -/

/-- The parser consumes the current token if it is the word that ends the code. -/
def Spends (room : Nat) (parse : Parse α) : Prop :=
  ∀ s : ParseState, s.Ready room → s.cursor.current.Halts →
    (∀ token ∈ s.cursor.ahead, ¬ token.Halts) → ¬ (parse.next s).Live

namespace Spends

theorem first {parse : Parse α} {rest : α → Parse β} (spends : parse.Spends room)
    (second : ∀ value, (rest value).Agrees fork room halts) : (parse >>= rest).Spends room :=
  fun s ready halts quiet live =>
    spends s ready halts quiet (live.of_suffix ((second _).suffix _))

theorem map {parse : Parse α} {f : α → β} (spends : parse.Spends room) :
    (f <$> parse).Spends room :=
  spends

theorem still {parse : Parse α} {rest : α → Parse β} (still : parse.Still)
    (second : ∀ value, (rest value).Spends room) : (parse >>= rest).Spends room := by
  intro s ready halts quiet
  rw [next_bind]
  have ready := (still.onward s).ready ready
  have same := still.cursor s
  generalize parse.next s = t at ready same ⊢
  rw [← same] at halts quiet
  exact second _ t ready halts quiet

theorem ite {condition : Prop} [Decidable condition] {whenTrue whenFalse : Parse α}
    (yes : condition → whenTrue.Spends room) (no : ¬ condition → whenFalse.Spends room) :
    (if condition then whenTrue else whenFalse).Spends room := by
  split
  · exact yes ‹_›
  · exact no ‹_›

theorem of_consumes {parse : Parse α} {K : TokenKind → Prop} (consumes : parse.ConsumesAt room K)
    (word : K .identifier) (agrees : parse.Agrees fork room halts) : parse.Spends room := by
  rintro s ready halts quiet ⟨token, among, isHalt⟩
  have kind : K s.cursor.kind := by
    rw [Cursor.kind, halts.1]
    exact word
  have shorter := (consumes s ready).2 kind trivial
  rw [Cursor.counted, Cursor.counted] at shorter
  obtain whole | later := List.suffix_cons_iff.mp (agrees.suffix s)
  · rw [ParseState.tokens, List.cons.injEq] at whole
    rw [whole.2] at shorter
    exact Nat.lt_irrefl _ shorter
  · exact quiet token (later.subset among) isHalt

end Spends

theorem advance_spends : advance.Spends room :=
  fun _ ready _ quiet => not_live_advance ready.closed quiet

/-- A test of the current token and the kind of the next one. -/
def LooksOneAhead (test : Cursor → Bool) : Prop :=
  ∃ f : Token → TokenKind → Bool, ∀ cursor : Cursor, test cursor = f cursor.current cursor.peek

theorem LooksOneAhead.same {test : Cursor → Bool} (near : LooksOneAhead test) {s : ParseState}
    {token : Token} {ahead : List Token} (more : s.cursor.ahead = token :: ahead)
    (other : List Token) : test (s.onto (token :: other)).cursor = test s.cursor := by
  obtain ⟨f, test_eq⟩ := near
  have next : s.cursor.peek = token.kind := by
    rw [Cursor.peek, Cursor.advance_cons more]
    rfl
  rw [test_eq, test_eq, next]
  rfl

theorem LooksOneAhead.settled {test : Cursor → Bool} (near : LooksOneAhead test)
    (other : ∀ cursor : Cursor, cursor.current.Halts → test cursor = false) {s t : ParseState}
    (paired : s.Paired fork room t) (live : s.Live) : test t.cursor = test s.cursor := by
  obtain ⟨shared, ahead, rfl⟩ := paired.shared
  cases shared with
  | nil =>
      have here := live.current (ahead ▸ fork.quiet)
      rw [other _ here, other (s.onto _).cursor here]
  | cons token shared => exact near.same ahead _

theorem Agrees.ahead? {test : Cursor → Bool} {rest : Bool → Parse β}
    (same : ∀ {s t}, Paired fork room s t → ((rest (test s.cursor)).next s).Live →
      test t.cursor = test s.cursor)
    (second : ∀ passed, (rest passed).Agrees fork room halts) :
    (Parse.ahead? test >>= rest).Agrees fork room halts where
  suffix s := (second _).suffix s
  halted s := (second _).halted s
  same {s t} paired live := by
    change (rest (test t.cursor)).result t = (rest (test s.cursor)).result s ∧
      Paired fork room ((rest (test s.cursor)).next s) ((rest (test t.cursor)).next t)
    rw [same paired live]
    exact (second _).same paired live

theorem Agrees.aheadLive {test : Cursor → Bool} {rest : Bool → Parse β}
    (same : ∀ {s t}, Paired fork room s t → s.Live → test t.cursor = test s.cursor)
    (second : ∀ passed, (rest passed).Agrees fork room halts) :
    (Parse.ahead? test >>= rest).Agrees fork room halts :=
  .ahead? (fun paired live => same paired (live.of_suffix ((second _).suffix _))) second

/-- A test that the word that ends the code does not pass. -/
theorem Agrees.aheadOther {test : Cursor → Bool} {rest : Bool → Parse β}
    (near : LooksOneAhead test)
    (other : ∀ cursor : Cursor, cursor.current.Halts → test cursor = false)
    (second : ∀ passed, (rest passed).Agrees fork room halts) :
    (Parse.ahead? test >>= rest).Agrees fork room halts :=
  .aheadLive (near.settled other) second

/-- A test before a step that consumes the word that ends the code. -/
theorem Agrees.aheadSpent {test : Cursor → Bool} {rest : Bool → Parse β}
    (near : LooksOneAhead test) (spends : ∀ passed, (rest passed).Spends room)
    (second : ∀ passed, (rest passed).Agrees fork room halts) :
    (Parse.ahead? test >>= rest).Agrees fork room halts := by
  refine .ahead? (fun {s t} paired live => ?_) second
  obtain ⟨shared, ahead, rfl⟩ := paired.shared
  cases shared with
  | nil =>
      have quiet : ∀ token ∈ s.cursor.ahead, ¬ token.Halts := ahead ▸ fork.quiet
      have here := (live.of_suffix ((second _).suffix s)).current quiet
      exact absurd live (spends _ s paired.ready here quiet)
  | cons token shared => exact near.same ahead _

theorem Agrees.aheadAdvance {test : Cursor → Bool} {rest : Bool → Parse β}
    (near : LooksOneAhead test) (second : ∀ passed, (rest passed).Agrees fork room halts) :
    (Parse.ahead? test >>= fun passed => advance >>= fun _ => rest passed).Agrees fork room halts :=
  .aheadSpent near (fun passed => advance_spends.first fun _ => second passed)
    fun passed => .bind advance_agrees fun _ => second passed

/-! Loops. -/

/-- What every step relates is related by the whole loop. -/
theorem untilDone_related {R : ParseState → ParseState → Prop}
    (trans : ∀ {s t u}, R s t → R t u → R s u) (stalls : ∀ s, R s { s with stalled := true })
    {step : σ → Parse (σ × Bool)} (steps : ∀ state s, R s ((step state).next s)) (start : σ)
    (s : ParseState) : R s ((untilDone start step).next s) := by
  generalize bound : s.cursor.left = count
  induction count using Nat.strongRecOn generalizing start s with
  | ind count ih =>
      obtain ⟨value, more, t, stepped⟩ := exists_step step start s
      have first := steps start s
      simp only [next, stepped, untilDone_eq step start, again_of stepped] at first ⊢
      split
      · exact first
      · split
        · rename_i shorter
          exact trans first (ih _ (bound ▸ shorter) value t rfl)
        · exact trans first (stalls t)

section Loops

variable {step : σ → Parse (σ × Bool)} (steps : ∀ state, (step state).Agrees fork room halts)
include steps

theorem untilDone_suffix (start : σ) (s : ParseState) :
    ((untilDone start step).next s).tokens <:+ s.tokens :=
  untilDone_related (R := fun s t => t.tokens <:+ s.tokens)
    (fun first second => second.trans first) (fun _ => List.suffix_rfl)
    (fun state => (steps state).suffix) start s

theorem untilDone_halted (start : σ) (s : ParseState) :
    halts ∨ ((untilDone start step).next s).halted = s.halted :=
  untilDone_related (R := fun s t => halts ∨ t.halted = s.halted)
    (fun first second => first.elim .inl fun same => same ▸ second) (fun _ => .inr rfl)
    (fun state => (steps state).halted) start s

theorem live_step_of_untilDone {start : σ} {s : ParseState}
    (live : ((untilDone start step).next s).Live) : ((step start).next s).Live := by
  obtain ⟨value, more, t, stepped⟩ := exists_step step start s
  simp only [next, stepped, untilDone_eq step start, again_of stepped] at live ⊢
  split at live
  · exact live
  · split at live
    · exact live.of_suffix (untilDone_suffix steps value t)
    · exact live

theorem untilDone_spends {start : σ} (first : (step start).Spends room) :
    (untilDone start step).Spends room :=
  fun s ready halts quiet live => first s ready halts quiet (live_step_of_untilDone steps live)

theorem untilDone_agrees {start : σ} : (untilDone start step).Agrees fork room halts := by
  refine ⟨untilDone_suffix steps start, untilDone_halted steps start, fun {s t} paired live => ?_⟩
  generalize bound : s.cursor.left = count
  induction count using Nat.strongRecOn generalizing start s t with
  | ind count ih =>
      have middle := live_step_of_untilDone steps live
      obtain ⟨outcome, after⟩ := (steps start).same paired middle
      obtain ⟨value, more, u, stepped⟩ := exists_step step start s
      generalize along : step start t = read
      obtain ⟨_, v⟩ := read
      simp only [result, next, stepped, along] at outcome after middle
      subst outcome
      simp only [result, next, untilDone_eq step start, again_of stepped, again_of along,
        paired.left_lt_iff after] at live ⊢
      split
      · exact ⟨rfl, after⟩
      · rename_i more
        rw [if_neg more] at live
        split
        · rename_i shorter
          rw [if_pos shorter] at live
          exact ih _ (bound ▸ shorter) after live rfl
        · have stalls : stall.Agrees fork room halts := stall_agrees
          exact ⟨rfl, (stalls.same after middle).2⟩

end Loops

end Parse

end StaticReflection
