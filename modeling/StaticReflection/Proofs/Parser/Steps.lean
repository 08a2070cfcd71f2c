import StaticReflection.Grammar.File

namespace StaticReflection

/-! What the steps of a parser give and what they leave behind. -/

namespace Cursor

theorem advance_cons {cursor : Cursor} {token : Token} {ahead : List Token}
    (more : cursor.ahead = token :: ahead) :
    cursor.advance = .of token ahead cursor.current.span.stop := by
  obtain ⟨current, _, lastEnd, left, counted⟩ := cursor
  cases more
  cases counted
  rfl

@[simp] theorem advance_of (current token : Token) (ahead : List Token) (lastEnd : Nat) :
    (of current (token :: ahead) lastEnd).advance = of token ahead current.span.stop := rfl

@[simp] theorem current_of (current : Token) (ahead : List Token) (lastEnd : Nat) :
    (of current ahead lastEnd).current = current := rfl

@[simp] theorem ahead_of (current : Token) (ahead : List Token) (lastEnd : Nat) :
    (of current ahead lastEnd).ahead = ahead := rfl

@[simp] theorem left_of (current : Token) (ahead : List Token) (lastEnd : Nat) :
    (of current ahead lastEnd).left = ahead.length := rfl

@[simp] theorem kind_of (current : Token) (ahead : List Token) (lastEnd : Nat) :
    (of current ahead lastEnd).kind = current.kind := rfl

end Cursor

namespace Parse

variable {α β σ : Type}

def result (parse : Parse α) (s : ParseState) : α :=
  (parse s).1

def next (parse : Parse α) (s : ParseState) : ParseState :=
  (parse s).2

theorem bind_of {parse : Parse α} {rest : α → Parse β} {s t : ParseState} {value : α}
    (stepped : parse s = (value, t)) : (parse >>= rest) s = rest value t := by
  change (match parse s with | (value, t) => rest value t) = _
  rw [stepped]

theorem map_of {f : α → β} {parse : Parse α} {s t : ParseState} {value : α}
    (stepped : parse s = (value, t)) : (f <$> parse) s = (f value, t) := by
  change (f (parse s).1, (parse s).2) = _
  rw [stepped]

theorem kind_bind (rest : TokenKind → Parse β) (s : ParseState) :
    (kind >>= rest) s = rest s.cursor.kind s := rfl

theorem position_bind (rest : Nat → Parse β) (s : ParseState) :
    (position >>= rest) s = rest s.cursor.current.span.start s := rfl

theorem ahead?_bind (test : Cursor → Bool) (rest : Bool → Parse β) (s : ParseState) :
    (ahead? test >>= rest) s = rest (test s.cursor) s := rfl

theorem accept_of_ne {kind : TokenKind} {s : ParseState} (other : s.cursor.kind ≠ kind) :
    accept kind s = (false, s) := by
  change (if (s.cursor.kind == kind) = true then _ else _ : Parse Bool) s = _
  rw [if_neg (by simpa using other)]
  rfl

theorem accept_bind (kind : TokenKind) (rest : Bool → Parse β) : (accept kind >>= rest) = (do
    if ← at? kind then
      advance
      rest true
    else rest false) := by
  funext s
  change ((if (s.cursor.kind == kind) = true then _ else _ : Parse Bool) >>= rest) s =
    (if (s.cursor.kind == kind) = true then _ else _ : Parse β) s
  split <;> rfl

@[simp] theorem result_pure (value : α) (s : ParseState) :
    (pure value : Parse α).result s = value := rfl

@[simp] theorem next_pure (value : α) (s : ParseState) :
    (pure value : Parse α).next s = s := rfl

@[simp] theorem result_bind (parse : Parse α) (rest : α → Parse β) (s : ParseState) :
    (parse >>= rest).result s = (rest (parse.result s)).result (parse.next s) := rfl

@[simp] theorem next_bind (parse : Parse α) (rest : α → Parse β) (s : ParseState) :
    (parse >>= rest).next s = (rest (parse.result s)).next (parse.next s) := rfl

@[simp] theorem result_map (f : α → β) (parse : Parse α) (s : ParseState) :
    (f <$> parse).result s = f (parse.result s) := rfl

@[simp] theorem next_map (f : α → β) (parse : Parse α) (s : ParseState) :
    (f <$> parse).next s = parse.next s := rfl

@[simp] theorem result_get (s : ParseState) : (get : Parse ParseState).result s = s := rfl

@[simp] theorem next_get (s : ParseState) : (get : Parse ParseState).next s = s := rfl

@[simp] theorem next_modify (change : ParseState → ParseState) (s : ParseState) :
    (modify change : Parse Unit).next s = change s := rfl

@[simp] theorem result_kind (s : ParseState) : kind.result s = s.cursor.kind := rfl

@[simp] theorem next_kind (s : ParseState) : kind.next s = s := rfl

@[simp] theorem result_current (s : ParseState) : current.result s = s.cursor.current := rfl

@[simp] theorem next_current (s : ParseState) : current.next s = s := rfl

@[simp] theorem result_position (s : ParseState) :
    position.result s = s.cursor.current.span.start := rfl

@[simp] theorem next_position (s : ParseState) : position.next s = s := rfl

@[simp] theorem result_value (s : ParseState) : value.result s = s.cursor.current.value := rfl

@[simp] theorem next_value (s : ParseState) : value.next s = s := rfl

@[simp] theorem next_doc (s : ParseState) : doc.next s = s := rfl

@[simp] theorem result_at? (kind : TokenKind) (s : ParseState) :
    (at? kind).result s = (s.cursor.kind == kind) := rfl

@[simp] theorem next_at? (kind : TokenKind) (s : ParseState) : (at? kind).next s = s := rfl

@[simp] theorem result_ahead? (test : Cursor → Bool) (s : ParseState) :
    (ahead? test).result s = test s.cursor := rfl

@[simp] theorem next_ahead? (test : Cursor → Bool) (s : ParseState) :
    (ahead? test).next s = s := rfl

@[simp] theorem result_left (s : ParseState) : left.result s = s.cursor.left := rfl

@[simp] theorem next_left (s : ParseState) : left.next s = s := rfl

@[simp] theorem next_stall (s : ParseState) :
    stall.next s = { s with stalled := true } := rfl

@[simp] theorem next_found (s : ParseState) : found.next s = s := by
  unfold found
  rw [next_bind, next_current]
  split <;> rfl

/-! Loops. The bound on the number of steps is never what ends a loop. -/

/-- One step of a loop, and the rest of it. -/
def again (step : σ → Parse (σ × Bool)) (loop : σ → Parse σ) (state : σ) : Parse σ := do
  let before ← left
  let (next, more) ← step state
  if !more then return next
  else if (← left) < before then loop next
  else
    stall
    return next

theorem repeatUpTo_succ (step : σ → Parse (σ × Bool)) (bound : Nat) (state : σ) :
    repeatUpTo step (bound + 1) state = again step (repeatUpTo step bound) state := rfl

theorem again_of {step : σ → Parse (σ × Bool)} {loop : σ → Parse σ} {state value : σ}
    {more : Bool} {s t : ParseState} (stepped : step state s = ((value, more), t)) :
    again step loop state s =
      if more = false then (value, t)
      else if t.cursor.left < s.cursor.left then loop value t
      else (value, { t with stalled := true }) := by
  change (match step state s with
    | ((value, more), t) => (if !more then pure value else left >>= fun now =>
        if now < s.cursor.left then loop value else stall >>= fun _ => pure value : Parse σ) t)
          = _
  rw [stepped]
  cases more with
  | false => rfl
  | true =>
      change (if t.cursor.left < s.cursor.left then loop value
        else stall >>= fun _ => pure value : Parse σ) t = _
      split <;> rfl

theorem exists_step (step : σ → Parse (σ × Bool)) (state : σ) (s : ParseState) :
    ∃ value more t, step state s = ((value, more), t) :=
  ⟨_, _, _, rfl⟩

theorem repeatUpTo_of_left_lt {step : σ → Parse (σ × Bool)} {bound other : Nat} {state : σ}
    {s : ParseState} (enough : s.cursor.left < bound) (enoughToo : s.cursor.left < other) :
    repeatUpTo step bound state s = repeatUpTo step other state s := by
  induction bound generalizing other state s with
  | zero => omega
  | succ bound ih =>
      obtain ⟨other, rfl⟩ : ∃ fewer, other = fewer + 1 := ⟨other - 1, by omega⟩
      obtain ⟨value, more, t, stepped⟩ := exists_step step state s
      rw [repeatUpTo_succ, repeatUpTo_succ, again_of stepped, again_of stepped]
      split
      · rfl
      · split
        · exact ih (by omega) (by omega)
        · rfl

/-- A loop is its first step and, if that asks for more, the loop again. -/
theorem untilDone_eq (step : σ → Parse (σ × Bool)) (state : σ) :
    untilDone state step = again step (untilDone · step) state := by
  funext s
  change repeatUpTo step (s.cursor.left + 1) state s = _
  obtain ⟨value, more, t, stepped⟩ := exists_step step state s
  rw [repeatUpTo_succ, again_of stepped, again_of stepped]
  split
  · rfl
  · split
    · rename_i shorter
      exact repeatUpTo_of_left_lt shorter (Nat.lt_succ_self _)
    · rfl

theorem untilDone_of_done {step : σ → Parse (σ × Bool)} {state value : σ} {s t : ParseState}
    (stepped : step state s = ((value, false), t)) : untilDone state step s = (value, t) := by
  rw [untilDone_eq, again_of stepped]
  rfl

theorem untilDone_of_more {step : σ → Parse (σ × Bool)} {state value : σ} {s t : ParseState}
    (stepped : step state s = ((value, true), t)) (shorter : t.cursor.left < s.cursor.left) :
    untilDone state step s = untilDone value step t := by
  rw [untilDone_eq, again_of stepped, if_neg (by simp), if_pos shorter]

/-- What holds at the start and survives every step that asks for more, which has to
consume a token, holds until the last step, and the outcome is that of a last step. -/
theorem untilDone_invariant {I P : σ → ParseState → Prop} {step : σ → Parse (σ × Bool)}
    (steps : ∀ state s, I state s →
      let t := (step state).next s
      match (step state).result s with
      | (value, true) => t.cursor.left < s.cursor.left ∧ I value t
      | (value, false) => P value t)
    {state : σ} {s : ParseState} (holds : I state s) :
    P ((untilDone state step).result s) ((untilDone state step).next s) := by
  generalize bound : s.cursor.left = count
  induction count using Nat.strongRecOn generalizing state s with
  | ind count ih =>
      obtain ⟨value, more, t, stepped⟩ := exists_step step state s
      have outcome := steps state s holds
      simp only [result, next, stepped] at outcome ⊢
      cases more with
      | false =>
          rw [untilDone_of_done stepped]
          exact outcome
      | true =>
          obtain ⟨shorter, holdsStill⟩ := outcome
          rw [untilDone_of_more stepped shorter]
          exact ih _ (bound ▸ shorter) holdsStill rfl

end Parse

end StaticReflection
