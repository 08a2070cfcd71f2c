import StaticReflection.Proofs.Scanner.ByteLexemes

namespace StaticReflection

/-! Strings that are read byte by byte. An escape may end within a character, and the search for
a quote may run past the end; neither shows in the token. -/

open Text

variable {bytes : List UInt8} {pos : Nat} {rest : Text}

/-! Single quotes. -/

theorem head?_of_take_one {c : Char} {text : List Char} (front : text.take 1 = [c]) :
    text.head? = some c := by
  have head := congrArg List.head? front
  rwa [List.head?_take, if_neg Nat.one_ne_zero] at head

/-- One round looks at the characters that the bytes belong to. -/
theorem byteSingleQuotedBody?_succ (here : RestAt bytes pos rest) (read : List Char)
    (rounds : Nat) :
    byteSingleQuotedBody? bytes read (rounds + 1) pos =
      if rest = [] then some (read.reverse, pos, false)
      else if rest.head? = some '\'' then some (read.reverse, pos + 1, true)
      else if rest.take 2 = ['\\', '\''] then
        byteSingleQuotedBody? bytes ('\'' :: read) rounds (pos + 2)
      else if rest.take 2 = ['\\', '\\'] then
        byteSingleQuotedBody? bytes ('\\' :: read) rounds (pos + 2)
      else
        let c := rest.head?.getD '\x00'
        byteSingleQuotedBody? bytes (c :: read) rounds (pos + c.utf8Size) := by
  rw [byteSingleQuotedBody?, here.ahead_eq, here.cut_rest]
  simp only [shown_eq_nil_iff, head?_shown_eq_iff (c := '\'') (by decide),
    take_two_eq_iff (c := '\\') (d := '\'') (by decide) (by decide),
    take_two_eq_iff (c := '\\') (d := '\\') (by decide) (by decide)]
  rfl

theorem byteSingleQuotedBody?_eq (here : RestAt bytes pos rest) {rounds : Nat}
    (enough : rest.length < rounds) (read : List Char) (length : Nat) :
    ∃ count, (singleQuoted read length rest).2.1 = length + count ∧
      byteSingleQuotedBody? bytes read rounds pos =
        some ((singleQuoted read length rest).1, pos + rest.width count,
          (singleQuoted read length rest).2.2) := by
  fun_induction singleQuoted read length rest generalizing rounds pos with
  | case1 read length =>
      obtain ⟨rounds, rfl⟩ : ∃ fewer, rounds = fewer + 1 := ⟨rounds - 1, by omega⟩
      exact ⟨0, rfl, byteSingleQuotedBody?_succ here read rounds⟩
  | case2 read length text =>
      obtain ⟨rounds, rfl⟩ : ∃ fewer, rounds = fewer + 1 := ⟨rounds - 1, by omega⟩
      exact ⟨1, rfl, byteSingleQuotedBody?_succ here read rounds⟩
  | case3 read length text ih =>
      obtain ⟨rounds, rfl⟩ : ∃ fewer, rounds = fewer + 1 := ⟨rounds - 1, by omega⟩
      have after := (here.tail rfl (by decide)).tail rfl (by decide)
      obtain ⟨count, taken, same⟩ :=
        ih after (Nat.lt_of_succ_lt (Nat.lt_of_succ_lt_succ enough))
      refine ⟨count + 2, by omega, ?_⟩
      rw [byteSingleQuotedBody?_succ here, width_pair (by decide) (by decide), ← Nat.add_assoc]
      exact same
  | case4 read length text ih =>
      obtain ⟨rounds, rfl⟩ : ∃ fewer, rounds = fewer + 1 := ⟨rounds - 1, by omega⟩
      have after := (here.tail rfl (by decide)).tail rfl (by decide)
      obtain ⟨count, taken, same⟩ :=
        ih after (Nat.lt_of_succ_lt (Nat.lt_of_succ_lt_succ enough))
      refine ⟨count + 2, by omega, ?_⟩
      rw [byteSingleQuotedBody?_succ here, width_pair (by decide) (by decide), ← Nat.add_assoc]
      exact same
  | case5 read length c text other quote backslash ih =>
      obtain ⟨rounds, rfl⟩ : ∃ fewer, rounds = fewer + 1 := ⟨rounds - 1, by omega⟩
      have after := here.advance 1
      rw [width_cons, width_zero] at after
      obtain ⟨count, taken, same⟩ := ih after (Nat.lt_of_succ_lt_succ enough)
      have single : (c :: text).head? ≠ some '\'' := fun head => other (Option.some.inj head)
      have pairs : (c :: text).take 2 ≠ ['\\', '\''] ∧ (c :: text).take 2 ≠ ['\\', '\\'] := by
        constructor
        · intro pair
          obtain ⟨rfl, second⟩ := List.cons_eq_cons.mp pair
          obtain ⟨text, rfl⟩ := List.head?_eq_some_iff.mp (head?_of_take_one second)
          exact quote text rfl rfl
        · intro pair
          obtain ⟨rfl, second⟩ := List.cons_eq_cons.mp pair
          obtain ⟨text, rfl⟩ := List.head?_eq_some_iff.mp (head?_of_take_one second)
          exact backslash text rfl rfl
      refine ⟨count + 1, by omega, ?_⟩
      rw [byteSingleQuotedBody?_succ here, if_neg (List.cons_ne_nil _ _), if_neg single,
        if_neg pairs.1, if_neg pairs.2, width_cons, ← Nat.add_assoc]
      exact same

theorem byteSingleQuoted?_eq (here : RestAt bytes pos ('\'' :: rest)) :
    byteSingleQuoted? bytes pos =
      some ((lexSingleQuoted ('\'' :: rest)).inBytes ('\'' :: rest)) := by
  have after := here.tail rfl (by decide)
  have left := here.length_eq
  rw [byteSize_cons, utf8Size_of_narrow (by decide)] at left
  have enough : rest.length < bytes.length - pos + 1 := by
    have atLeast := length_le_byteSize rest
    omega
  obtain ⟨count, taken, same⟩ := byteSingleQuotedBody?_eq after enough [] 1
  rw [byteSingleQuoted?, same, lexSingleQuoted, List.tail_cons]
  generalize singleQuoted [] 1 rest = read at taken
  obtain ⟨body, length, closed⟩ := read
  dsimp only at taken
  subst taken
  simp only [Lexeme.inBytes, Lexeme.ofBytes]
  rw [Nat.add_comm 1 count, width_cons, utf8Size_of_narrow (by decide)]
  simp only [Option.bind_eq_bind, Option.bind_some, Option.pure_def, Nat.add_assoc,
    Nat.add_sub_cancel_left]

/-! The search for a closing quote. -/

section Quotes

variable {quote : Char}

theorem byteQuoteStop_quote (pos : Nat) (interpolated : Bool) (text : List Char) :
    byteQuoteStop quote pos interpolated (quote :: text) = (pos, interpolated) := by
  cases text <;> simp [byteQuoteStop]

theorem byteQuoteStop_cons {c : Char} (other : c ≠ quote) (plain : c ≠ '\\') (pos : Nat)
    (interpolated : Bool) (text : List Char) :
    byteQuoteStop quote pos interpolated (c :: text) =
      byteQuoteStop quote (pos + 1) (interpolated || opensExpression c text) text := by
  cases text <;> simp [byteQuoteStop, other, plain]

theorem byteQuoteStop_pair (plain : quote ≠ '\\') (pos : Nat) (interpolated : Bool) (c : Char)
    (text : List Char) :
    byteQuoteStop quote pos interpolated ('\\' :: c :: text) =
      byteQuoteStop quote (pos + 2) interpolated text := by
  rw [byteQuoteStop, if_neg plain.symm, if_pos rfl]

/-- Bytes of other characters are passed one by one, and none of them begins anything. -/
theorem byteQuoteStop_wide (narrow : ¬ IsWide quote) {more : List Char}
    (wide : ∀ c ∈ more, IsWide c) (pos : Nat) (interpolated : Bool) (text : List Char) :
    byteQuoteStop quote pos interpolated (more ++ text) =
      byteQuoteStop quote (pos + more.length) interpolated text := by
  induction more generalizing pos with
  | nil => rfl
  | cons c more ih =>
      obtain ⟨here, others⟩ := List.forall_mem_cons.mp wide
      have apart : ∀ d, ¬ IsWide d → c ≠ d := fun d narrow same => narrow (same ▸ here)
      have nothing : opensExpression c (more ++ text) = false := by
        simp [opensExpression, apart '$' (by decide), apart '\x7b' (by decide)]
      rw [List.cons_append, byteQuoteStop_cons (apart quote narrow) (apart '\\' (by decide)),
        nothing, Bool.or_false, ih others, List.length_cons, Nat.add_assoc, Nat.add_comm 1]

theorem opensExpression_shown (c : Char) (text : Text) :
    opensExpression c text.shown = opensExpression c text := by
  have byteWise : ByteWise fun next => isNameStart next || next == '\x7b' := by
    intro c d wide wideToo
    have apart : ∀ c, IsWide c → (c == '\x7b') = false := fun c wide =>
      beq_eq_false_iff_ne.mpr fun same => absurd (same ▸ wide) (by decide)
    simp only [isNameStart_byteWise c d wide wideToo, apart c wide, apart d wideToo]
  have dollar : (text.shown.head? == some '$') = (text.head? == some '$') := by
    rw [Bool.eq_iff_iff, beq_iff_eq, beq_iff_eq]
    exact head?_shown_eq_iff (by decide) text
  rw [opensExpression, opensExpression, any_head?_shown text byteWise, dollar]

/-- An escape takes a character in effect: what the second of its bytes leaves of the character
is passed over. -/
theorem byteQuoteStop_escape (narrow : ¬ IsWide quote) (plain : quote ≠ '\\') (pos : Nat)
    (interpolated : Bool) (c : Char) (text : Text) :
    byteQuoteStop quote pos interpolated (shown ('\\' :: c :: text)) =
      byteQuoteStop quote (pos + (1 + c.utf8Size)) interpolated text.shown := by
  rw [shown_cons_of_narrow (by decide)]
  by_cases wide : IsWide c
  · obtain ⟨d, more, _, others, same, size⟩ := shown_cons_of_wide wide text
    rw [same, byteQuoteStop_pair plain, byteQuoteStop_wide narrow others, ← size, Nat.add_assoc,
      Nat.add_comm more.length, ← Nat.add_assoc 1]
  · rw [shown_cons_of_narrow wide, byteQuoteStop_pair plain, utf8Size_of_narrow wide]

theorem byteQuoteStop_plain (narrow : ¬ IsWide quote) {c : Char} (other : c ≠ quote)
    (plain : c ≠ '\\') (pos : Nat) (interpolated : Bool) (text : Text) :
    byteQuoteStop quote pos interpolated (shown (c :: text)) =
      byteQuoteStop quote (pos + c.utf8Size) (interpolated || opensExpression c text)
        text.shown := by
  by_cases wide : IsWide c
  · obtain ⟨narrow', _⟩ | ⟨_, all⟩ := byteChars_utf8EncodeChar c
    · exact absurd wide narrow'
    have apart : ∀ d, ¬ IsWide d → c ≠ d := fun d narrow same => narrow (same ▸ wide)
    have nothing : opensExpression c text = false := by
      simp [opensExpression, apart '$' (by decide), apart '\x7b' (by decide)]
    have size : (byteChars (String.utf8EncodeChar c)).length = c.utf8Size := by
      rw [byteChars, List.length_map, String.length_utf8EncodeChar]
    rw [shown_cons, byteQuoteStop_wide narrow all, size, nothing, Bool.or_false]
  · rw [shown_cons_of_narrow wide, byteQuoteStop_cons other plain, opensExpression_shown,
      utf8Size_of_narrow wide]

theorem byteQuoteStop_of_closed (narrow : ¬ IsWide quote) (plain : quote ≠ '\\')
    {text : Text} {length stop : Nat} (closed : quotedLength? quote length text = some stop)
    (pos : Nat) (interpolated : Bool) :
    ∃ count, stop = length + count ∧ (text.drop count).head? = some quote ∧
      (byteQuoteStop quote pos interpolated text.shown).1 = pos + text.width count := by
  fun_induction quotedLength? quote length text generalizing pos interpolated with
  | case1 => cases closed
  | case2 length c text ih =>
      obtain ⟨count, rfl, front, same⟩ := ih closed (pos + (1 + c.utf8Size)) interpolated
      refine ⟨count + 2, by omega, front, ?_⟩
      rw [byteQuoteStop_escape narrow plain, same, width_cons, width_cons,
        utf8Size_of_narrow (show ¬ IsWide '\\' by decide)]
      omega
  | case3 length text =>
      cases closed
      refine ⟨0, rfl, rfl, ?_⟩
      rw [shown_cons_of_narrow narrow, byteQuoteStop_quote]
      rfl
  | case4 length c text unescaped other ih =>
      have plain : c ≠ '\\' := by
        rintro rfl
        cases text with
        | nil => cases closed
        | cons d text => exact unescaped d text rfl rfl
      obtain ⟨count, rfl, front, same⟩ := ih closed (pos + c.utf8Size) _
      refine ⟨count + 1, by omega, front, ?_⟩
      rw [byteQuoteStop_plain narrow other plain, same, width_cons, Nat.add_assoc]

/-- Without a closing quote the search comes to the end of the text, or past it. -/
theorem byteQuoteStop_of_open (narrow : ¬ IsWide quote) (plain : quote ≠ '\\') {text : Text}
    {length : Nat} (unclosed : quotedLength? quote length text = none) (pos : Nat)
    (interpolated : Bool) :
    pos + text.byteSize ≤ (byteQuoteStop quote pos interpolated text.shown).1 := by
  fun_induction quotedLength? quote length text generalizing pos interpolated with
  | case1 => exact Nat.le_refl _
  | case2 length c text ih =>
      rw [byteQuoteStop_escape narrow plain, byteSize_cons, byteSize_cons,
        utf8Size_of_narrow (show ¬ IsWide '\\' by decide), ← Nat.add_assoc 1, ← Nat.add_assoc]
      exact ih unclosed _ _
  | case3 => cases unclosed
  | case4 length c text unescaped other ih =>
      by_cases backslash : c = '\\'
      · subst backslash
        cases text with
        | nil =>
            rw [shown_cons_of_narrow (by decide), shown_nil, byteQuoteStop, if_neg other,
              if_pos rfl]
            exact Nat.le_succ _
        | cons d text => exact (unescaped d text rfl rfl).elim
      · rw [byteQuoteStop_plain narrow other backslash, byteSize_cons, ← Nat.add_assoc]
        exact ih unclosed _ _

theorem byteQuoteStop_interpolated (text : Text) (pos length : Nat) (interpolated : Bool) :
    (byteQuoteStop '"' pos interpolated text.shown).2 =
      (doubleQuotedExtent length interpolated text).interpolated := by
  fun_induction doubleQuotedExtent length interpolated text generalizing pos with
  | case1 => rfl
  | case2 length interpolated c text ih =>
      rw [byteQuoteStop_escape (by decide) (by decide)]
      exact ih _
  | case3 length interpolated text =>
      rw [shown_cons_of_narrow (by decide), byteQuoteStop_quote]
  | case4 length interpolated c text unescaped other ih =>
      by_cases backslash : c = '\\'
      · subst backslash
        cases text with
        | nil =>
            rw [shown_cons_of_narrow (by decide), shown_nil, byteQuoteStop, if_neg other,
              if_pos rfl]
            simp [doubleQuotedExtent, opensExpression]
        | cons d text => exact (unescaped d text rfl rfl).elim
      · rw [byteQuoteStop_plain (by decide) other backslash]
        exact ih _

theorem ahead_of_length_le {bytes : List UInt8} {pos : Nat} (past : bytes.length ≤ pos) :
    ahead bytes pos = [] := by
  rw [ahead, List.drop_eq_nil_iff, byteChars, List.length_map]
  exact past

/-- What the search for the closing quote comes to, and what stands there. -/
theorem RestAt.quoteStop_of_closed {rest : Text} {count : Nat} (here : RestAt bytes pos rest)
    (narrow : ¬ IsWide quote) (plain : quote ≠ '\\')
    (closed : quotedLength? quote 0 rest = some count) (interpolated : Bool) :
    (byteQuoteStop quote pos interpolated (ahead bytes pos)).1 = pos + rest.width count ∧
      (ahead bytes (pos + rest.width count)).head? = some quote ∧
      rest.width (count + 1) = rest.width count + 1 := by
  obtain ⟨stop, same, front, stops⟩ := byteQuoteStop_of_closed narrow plain closed pos interpolated
  obtain rfl : count = stop := same.trans (Nat.zero_add stop)
  refine ⟨here.ahead_eq ▸ stops, ?_, ?_⟩
  · rw [(here.advance count).ahead_eq, head?_shown_eq_iff narrow]
    exact front
  · obtain ⟨text, after⟩ := List.head?_eq_some_iff.mp front
    rw [width_add, after, width_cons, utf8Size_of_narrow narrow]
    rfl

theorem RestAt.quoteStop_of_open {rest : Text} (here : RestAt bytes pos rest)
    (narrow : ¬ IsWide quote) (plain : quote ≠ '\\')
    (unclosed : quotedLength? quote 0 rest = none) (interpolated : Bool) :
    bytes.length ≤ (byteQuoteStop quote pos interpolated (ahead bytes pos)).1 := by
  rw [here.ahead_eq, here.length_eq]
  exact byteQuoteStop_of_open narrow plain unclosed pos interpolated

end Quotes

theorem byteDoubleQuoted?_eq (here : RestAt bytes pos ('"' :: rest)) :
    byteDoubleQuoted? bytes pos =
      some ((lexDoubleQuoted ('"' :: rest)).inBytes ('"' :: rest)) := by
  have after := here.tail rfl (by decide)
  have left := after.length_eq
  have noted := byteQuoteStop_interpolated rest (pos + 1) 0 false
  rw [← after.ahead_eq] at noted
  unfold byteDoubleQuoted?
  cases closed : quotedLength? '"' 0 rest with
  | some count =>
      obtain ⟨stops, front, wider⟩ :=
        after.quoteStop_of_closed (by decide) (by decide) closed false
      rw [doubleQuotedExtent_of_closed closed] at noted
      have inside := width_add_byteSize_drop rest count
      generalize byteQuoteStop '"' (pos + 1) false (ahead bytes (pos + 1)) = found at noted stops
      obtain ⟨stop, interpolated⟩ := found
      dsimp only at noted stops ⊢
      subst noted stops
      rw [front, Nat.min_eq_left (by omega), after.cut_eq, lexDoubleQuoted_of_closed closed]
      have length : pos + 1 + width rest count + 1 - pos = width ('"' :: rest) (count + 2) := by
        rw [width_cons, wider, utf8Size_of_narrow (by decide)]
        omega
      simp only [beq_self_eq_true, if_true, length, Bool.false_or, Nat.sub_zero]
      split <;> rfl
  | none =>
      have past := after.quoteStop_of_open (by decide) (by decide) closed false
      rw [doubleQuotedExtent_of_open closed] at noted
      generalize byteQuoteStop '"' (pos + 1) false (ahead bytes (pos + 1)) = found at noted past
      obtain ⟨stop, interpolated⟩ := found
      dsimp only at noted past ⊢
      subst noted
      rw [ahead_of_length_le past, Nat.min_eq_right past, after.cut_rest,
        lexDoubleQuoted_of_open closed]
      have length : bytes.length - pos = width ('"' :: rest) (rest.length + 1) := by
        rw [width_cons, width_length, utf8Size_of_narrow (by decide)]
        omega
      have apart : ((none : Option Char) == some '"') = false := rfl
      simp only [List.head?_nil, apart, Bool.false_eq_true, if_false, length, Bool.false_or]
      split <;> rfl

theorem byteShellCommand?_eq (here : RestAt bytes pos ('\x60' :: rest)) :
    byteShellCommand? bytes pos =
      some ((lexShellCommand ('\x60' :: rest)).inBytes ('\x60' :: rest)) := by
  have after := here.tail rfl (by decide)
  have left := after.length_eq
  unfold byteShellCommand? lexShellCommand
  rw [List.tail_cons]
  cases closed : quotedLength? '\x60' 0 rest with
  | some count =>
      obtain ⟨stops, front, wider⟩ :=
        after.quoteStop_of_closed (by decide) (by decide) closed false
      have inside := width_add_byteSize_drop rest count
      have more := width_add_byteSize_drop rest (count + 1)
      generalize byteQuoteStop '\x60' (pos + 1) false (ahead bytes (pos + 1)) = found at stops
      obtain ⟨stop, interpolated⟩ := found
      dsimp only at stops ⊢
      subst stops
      have length : min (pos + 1 + width rest count + 1) bytes.length - pos =
          width ('\x60' :: rest) (count + 2) := by
        rw [width_cons, wider, utf8Size_of_narrow (by decide)]
        omega
      rw [front]
      simp only [beq_self_eq_true, if_true, length]
      rw [here.cut_eq]
      rfl
  | none =>
      have past := after.quoteStop_of_open (by decide) (by decide) closed false
      generalize byteQuoteStop '\x60' (pos + 1) false (ahead bytes (pos + 1)) = found at past
      obtain ⟨stop, interpolated⟩ := found
      dsimp only at past ⊢
      rw [ahead_of_length_le past]
      have length : min stop bytes.length - pos = width ('\x60' :: rest) (rest.length + 1) := by
        rw [width_cons, width_length, utf8Size_of_narrow (by decide)]
        omega
      have apart : ((none : Option Char) == some '\x60') = false := rfl
      simp only [List.head?_nil, apart, Bool.false_eq_true, if_false, length]
      rw [here.cut_eq]
      rfl

end StaticReflection
