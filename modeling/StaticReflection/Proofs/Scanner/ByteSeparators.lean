import StaticReflection.Proofs.Scanner.ByteTokens

namespace StaticReflection

/-! The scanner on bytes finds what the scanner on characters finds: what separates tokens has
the same extent, and so have the tokens. No slice of the text is taken within a character. -/

open Text

variable {bytes : List UInt8} {pos : Nat} {text : Text}

/-! Loops pass the bytes of a character outside of ASCII one by one. -/

theorem blockCommentEnd?_cons {c : Char} {text : List Char}
    (goes : c ≠ '*' ∨ text.head? ≠ some '/') (length : Nat) :
    blockCommentEnd? length (c :: text) = blockCommentEnd? (length + 1) text := by
  rw [blockCommentEnd?]
  rintro text rfl rfl
  exact goes.elim (absurd rfl) (absurd rfl)

theorem lineCommentLength_cons {c : Char} {text : List Char}
    (goes : ¬ (c == '\n' || c == '\r' || (c == '?' && text.head? == some '>'))) :
    lineCommentLength (c :: text) = lineCommentLength text + 1 := by
  rw [lineCommentLength, if_neg goes]

theorem findOpenTag_cons {c : Char} {text : List Char}
    (goes : c ≠ '<' ∨ text.head? ≠ some '?') (passed : Nat) :
    findOpenTag passed (c :: text) = findOpenTag (passed + 1) text := by
  rw [findOpenTag]
  rintro text rfl rfl
  exact goes.elim (absurd rfl) (absurd rfl)

section Wide

variable {more : List Char} (wide : ∀ c ∈ more, IsWide c)

include wide

theorem blockCommentEnd?_wide (length : Nat) (text : List Char) :
    blockCommentEnd? length (more ++ text) = blockCommentEnd? (length + more.length) text := by
  induction more generalizing length with
  | nil => rfl
  | cons c more ih =>
      obtain ⟨here, others⟩ := List.forall_mem_cons.mp wide
      rw [List.cons_append, blockCommentEnd?_cons (.inl (here.ne (by decide))), ih others,
        List.length_cons, Nat.add_assoc, Nat.add_comm 1]

theorem lineCommentLength_wide (text : List Char) :
    lineCommentLength (more ++ text) = more.length + lineCommentLength text := by
  induction more with
  | nil => exact (Nat.zero_add _).symm
  | cons c more ih =>
      obtain ⟨here, others⟩ := List.forall_mem_cons.mp wide
      have goes : ¬ (c == '\n' || c == '\r' ||
          (c == '?' && (more ++ text).head? == some '>')) := by
        simp [here.ne (d := '\n') (by decide), here.ne (d := '\r') (by decide),
          here.ne (d := '?') (by decide)]
      rw [List.cons_append, lineCommentLength_cons goes, ih others, List.length_cons,
        Nat.add_right_comm]

theorem findOpenTag_wide (passed : Nat) (text : List Char) :
    findOpenTag passed (more ++ text) = findOpenTag (passed + more.length) text := by
  induction more generalizing passed with
  | nil => rfl
  | cons c more ih =>
      obtain ⟨here, others⟩ := List.forall_mem_cons.mp wide
      rw [List.cons_append, findOpenTag_cons (.inl (here.ne (by decide))), ih others,
        List.length_cons, Nat.add_assoc, Nat.add_comm 1]

end Wide

/-! Comments. -/

theorem blockCommentEnd?_shown (text : Text) (length seen : Nat) :
    (blockCommentEnd? length text = none ∧ blockCommentEnd? seen text.shown = none) ∨
      ∃ count, blockCommentEnd? length text = some (length + count) ∧
        blockCommentEnd? seen text.shown = some (seen + text.width count) := by
  fun_induction blockCommentEnd? length text generalizing seen with
  | case1 length text =>
      refine .inr ⟨2, rfl, ?_⟩
      rw [shown_cons_of_narrow (by decide), shown_cons_of_narrow (by decide), width_cons,
        width_cons]
      rfl
  | case2 length c text goes ih =>
      have other : c ≠ '*' ∨ text.head? ≠ some '/' := by
        by_contra both
        simp only [not_or, not_not] at both
        obtain ⟨rfl, head⟩ := both
        obtain ⟨text, rfl⟩ := List.head?_eq_some_iff.mp head
        exact goes text rfl rfl
      have passes : blockCommentEnd? seen (shown (c :: text)) =
          blockCommentEnd? (seen + c.utf8Size) (shown text) := by
        by_cases wide : IsWide c
        · obtain ⟨more, others, same, size⟩ := shown_cons_wide wide text
          rw [same, blockCommentEnd?_wide others, size]
        · rw [shown_cons_of_narrow wide, utf8Size_of_narrow wide, blockCommentEnd?_cons]
          exact other.imp_right (mt (head?_shown_eq_iff (by decide) text).mp)
      rw [passes]
      refine (ih (seen + c.utf8Size)).imp id ?_
      rintro ⟨count, found, foundToo⟩
      refine ⟨count + 1, ?_, ?_⟩
      · rw [found, Nat.add_assoc, Nat.add_comm 1]
      · rw [foundToo, width_cons, Nat.add_assoc]
  | case3 => exact .inl ⟨rfl, rfl⟩

theorem lineCommentLength_shown (text : Text) :
    lineCommentLength text.shown = text.width (lineCommentLength text) := by
  induction text with
  | nil => rfl
  | cons c text ih =>
      by_cases wide : IsWide c
      · obtain ⟨more, others, same, size⟩ := shown_cons_wide wide text
        have goes : ¬ (c == '\n' || c == '\r' || (c == '?' && text.head? == some '>')) := by
          simp [wide.ne (d := '\n') (by decide), wide.ne (d := '\r') (by decide),
            wide.ne (d := '?') (by decide)]
        rw [same, lineCommentLength_wide others, lineCommentLength_cons goes, width_cons, ih, size]
      · have closing : ((shown text).head? == some '>') = (text.head? == some '>') := by
          rw [Bool.eq_iff_iff, beq_iff_eq, beq_iff_eq]
          exact head?_shown_eq_iff (by decide) text
        rw [shown_cons_of_narrow wide, lineCommentLength, lineCommentLength, closing]
        split
        · rfl
        · rw [width_cons, utf8Size_of_narrow wide, ih, Nat.add_comm 1]

theorem isTagSpace_narrow : Narrow isTagSpace := by
  intro c passes
  simp only [isTagSpace, Bool.or_eq_true, beq_iff_eq] at passes
  obtain (((rfl | rfl) | rfl) | rfl) | rfl := passes <;> decide

theorem isSeparatorSpace_narrow : Narrow isSeparatorSpace := by
  intro c passes
  simp only [isSeparatorSpace, Bool.or_eq_true, beq_iff_eq] at passes
  obtain ((((rfl | rfl) | rfl) | rfl) | rfl) | rfl := passes <;> decide

/-! Tags. -/

theorem closeTagLength_eq (text : List Char) :
    closeTagLength text = 2 + if (text.drop 2).head? = some '\n' then 1
      else if (text.drop 2).take 2 = ['\r', '\n'] then 2 else 0 := by
  unfold closeTagLength
  split
  · rename_i rest front
    rw [front]
    rfl
  · rename_i rest front
    rw [front]
    rfl
  · rename_i feed ret
    have single : (text.drop 2).head? ≠ some '\n' := by
      intro front
      obtain ⟨rest, after⟩ := List.head?_eq_some_iff.mp front
      exact feed rest after
    have pair : (text.drop 2).take 2 ≠ ['\r', '\n'] := by
      intro front
      have rest := List.take_append_drop 2 (text.drop 2)
      rw [front] at rest
      exact ret _ rest.symm
    rw [if_neg single, if_neg pair]

theorem closeTagLength_shown (marked : NarrowFor text 2) :
    closeTagLength text.shown = closeTagLength text ∧ NarrowFor text (closeTagLength text) := by
  rw [closeTagLength_eq, closeTagLength_eq, marked.drop_shown]
  simp only [head?_shown_eq_iff (c := '\n') (by decide),
    take_two_eq_iff (c := '\r') (d := '\n') (by decide) (by decide)]
  refine ⟨trivial, marked.add ?_⟩
  split
  · rename_i feed
    obtain ⟨rest, after⟩ := List.head?_eq_some_iff.mp feed
    exact after ▸ NarrowFor.zero.cons (by decide)
  split
  · rename_i pair
    exact .of_take ['\r', '\n'] (by decide) pair
  · exact .zero

theorem isWide_toLower {c : Char} (wide : IsWide c) : IsWide c.toLower := by
  have same : c.toLower = c := by
    refine dif_neg fun upper => ?_
    have small : c.toNat ≤ 90 := upper.2
    exact absurd wide (narrow_of_le small (by decide))
  rwa [same]

/-- The rest of a tag after the two characters that begin one. -/
def OpensCode (text : List Char) : Prop :=
  (text.take 3).map Char.toLower = ['p', 'h', 'p'] ∧ (text[3]?).all isTagSpace = true

theorem narrowFor_php (word : (text.take 3).map Char.toLower = ['p', 'h', 'p']) :
    NarrowFor text 3 := by
  refine ⟨?_, fun c among wide => ?_⟩
  · have long := congrArg List.length word
    rw [List.length_map, List.length_take] at long
    simp only [List.length_cons, List.length_nil] at long
    omega
  · have folded : c.toLower ∈ ['p', 'h', 'p'] := word ▸ List.mem_map_of_mem among
    have narrow : AllNarrow ['p', 'h', 'p'] := by decide
    exact narrow _ folded (isWide_toLower wide)

theorem opensCode_shown (text : Text) : OpensCode text.shown ↔ OpensCode text := by
  have word := map_take_shown_eq_iff (fun c => isWide_toLower) ['p', 'h', 'p'] (by decide) text
  refine ⟨fun opens => ?_, fun opens => ?_⟩
  · have same := word.mp opens.1
    have space := opens.2
    rw [(narrowFor_php same).getElem?_shown, all_head?_shown _ isTagSpace_narrow.byteWise,
      List.head?_drop] at space
    exact ⟨same, space⟩
  · refine ⟨word.mpr opens.1, ?_⟩
    rw [(narrowFor_php opens.1).getElem?_shown, all_head?_shown _ isTagSpace_narrow.byteWise,
      List.head?_drop]
    exact opens.2

/-- The tag has a character more than its word, unless the text ends with the word. -/
theorem OpensCode.length_shown (opens : OpensCode text) :
    min 6 (text.shown.length + 2) = min 6 (text.length + 2) ∧
      NarrowFor ('<' :: '?' :: text) (min 6 (text.length + 2)) := by
  have word := narrowFor_php opens.1
  have long := word.inside
  have atLeast := length_le_byteSize text
  have tag {count : Nat} (narrow : NarrowFor text count) :
      NarrowFor ('<' :: '?' :: text) (count + 2) :=
    (narrow.cons (by decide)).cons (by decide)
  rw [Text.length_shown]
  cases after : text.drop 3 with
  | nil =>
      have short := List.drop_eq_nil_iff.mp after
      have size := word.width_eq
      rw [width, List.take_of_length_le short] at size
      have five : min 6 (text.length + 2) = 5 := by omega
      rw [size, five]
      exact ⟨rfl, tag word⟩
  | cons c rest =>
      have space := opens.2
      rw [← List.head?_drop, after] at space
      have four : NarrowFor text 4 :=
        word.add (after ▸ NarrowFor.zero.cons (isTagSpace_narrow c space))
      have longer := four.inside
      have six : min 6 (text.length + 2) = 6 := by omega
      rw [six, Nat.min_eq_left (by omega)]
      exact ⟨rfl, tag four⟩

/-- What the search for a tag finds among characters, and among bytes. -/
inductive OpenTag.Matches (text : Text) (passed seen : Nat) : OpenTag → OpenTag → Prop
  | none : Matches text passed seen .none .none
  | code (count : Nat) :
      Matches text passed seen (.code (passed + count)) (.code (seen + text.width count))
  | echo (count : Nat) (tag : NarrowFor (text.drop count) 3) :
      Matches text passed seen (.echo (passed + count)) (.echo (seen + text.width count))

theorem OpenTag.Matches.append (before : Text) {passed seen size : Nat} {tag tagToo : OpenTag}
    (after : Matches text (passed + before.length) (seen + size) tag tagToo)
    (sized : before.byteSize = size) : Matches (before ++ text) passed seen tag tagToo := by
  subst sized
  cases after with
  | none => exact .none
  | code count =>
      rw [Nat.add_assoc, Nat.add_assoc, ← width_append_add]
      exact .code _
  | echo count tag =>
      rw [Nat.add_assoc, Nat.add_assoc, ← width_append_add]
      refine .echo _ ?_
      rwa [List.drop_length_add_append]

theorem findOpenTag_matches (text : Text) (passed seen : Nat) :
    OpenTag.Matches text passed seen (findOpenTag passed text) (findOpenTag seen text.shown) := by
  fun_induction findOpenTag passed text generalizing seen with
  | case1 => exact .none
  | case2 passed text prints =>
      rw [shown_cons_of_narrow (by decide), shown_cons_of_narrow (by decide), findOpenTag,
        if_pos ((head?_shown_eq_iff (by decide) text).mpr prints)]
      obtain ⟨rest, rfl⟩ := List.head?_eq_some_iff.mp prints
      exact .echo 0 (.of_take ['<', '?', '='] (by decide) rfl)
  | case3 passed text prints opens =>
      have word : OpensCode text := by simpa [OpensCode] using opens
      have wordToo : OpensCode (shown text) := (opensCode_shown text).mpr word
      rw [shown_cons_of_narrow (by decide), shown_cons_of_narrow (by decide), findOpenTag,
        if_neg (mt (head?_shown_eq_iff (by decide) text).mp prints),
        if_pos (by simpa [OpensCode] using wordToo), word.length_shown.1]
      have size := word.length_shown.2.width_eq
      generalize min 6 (List.length text + 2) = length at size ⊢
      have found : OpenTag.Matches ('<' :: '?' :: text) passed seen (.code (passed + length))
          (.code (seen + width ('<' :: '?' :: text) length)) := .code length
      rwa [size] at found
  | case4 passed text prints other ih =>
      have word : ¬ OpensCode (shown text) := fun opens =>
        other (by simpa [OpensCode] using (opensCode_shown text).mp opens)
      rw [shown_cons_of_narrow (by decide), shown_cons_of_narrow (by decide), findOpenTag,
        if_neg (mt (head?_shown_eq_iff (by decide) text).mp prints),
        if_neg (fun opens => word (by simpa [OpensCode] using opens))]
      exact OpenTag.Matches.append ['<', '?'] (ih _) rfl
  | case5 passed c text goes ih =>
      have other : c ≠ '<' ∨ text.head? ≠ some '?' := by
        by_contra both
        simp only [not_or, not_not] at both
        obtain ⟨rfl, head⟩ := both
        obtain ⟨text, rfl⟩ := List.head?_eq_some_iff.mp head
        exact goes text rfl rfl
      have passes : findOpenTag seen (shown (c :: text)) =
          findOpenTag (seen + c.utf8Size) (shown text) := by
        by_cases wide : IsWide c
        · obtain ⟨more, others, same, size⟩ := shown_cons_wide wide text
          rw [same, findOpenTag_wide others, size]
        · rw [shown_cons_of_narrow wide, utf8Size_of_narrow wide, findOpenTag_cons]
          exact other.imp_right (mt (head?_shown_eq_iff (by decide) text).mp)
      rw [passes]
      exact OpenTag.Matches.append [c] (ih _) (Nat.zero_add _)

/-! What stands at the front. -/

/-- What stands at the front of a text, with its length in bytes. -/
def Front.inBytes (text : Text) : Front → Front
  | .done => .done
  | .blank length => .blank (text.width length)
  | .blockComment length closed isDoc => .blockComment (text.width length) closed isDoc
  | .closeTag length => .closeTag (text.width length)
  | .token => .token

theorem frontOf_wide {c : Char} (wide : IsWide c) (text : List Char) :
    frontOf (c :: text) = .token := by
  have apart (d : Char) (narrow : ¬ IsWide d) : (c == d) = false :=
    beq_eq_false_iff_ne.mpr (wide.ne narrow)
  simp [frontOf, isSeparatorSpace_narrow.fails wide, apart '#' (by decide),
    apart '/' (by decide), apart '?' (by decide)]

/-- A block comment after the two characters that begin it. -/
theorem blockComment_shown (rest : Text) :
    (blockCommentEnd? 2 rest.shown).getD (rest.shown.length + 2) =
        width ('/' :: '*' :: rest) ((blockCommentEnd? 2 rest).getD (rest.length + 2)) ∧
      (blockCommentEnd? 2 rest.shown).isSome = (blockCommentEnd? 2 rest).isSome := by
  obtain ⟨unclosed, unclosedToo⟩ | ⟨count, closed, closedToo⟩ := blockCommentEnd?_shown rest 2 2
  · rw [unclosed, unclosedToo, Option.getD_none, Option.getD_none, length_shown,
      width_pair (by decide) (by decide), width_length, Nat.add_comm]
    exact ⟨rfl, rfl⟩
  · rw [closed, closedToo, Option.getD_some, Option.getD_some, Nat.add_comm 2 count,
      width_pair (by decide) (by decide)]
    exact ⟨rfl, rfl⟩

theorem isDoc_shown (rest : Text) :
    (rest.shown[0]? == some '*' && (rest.shown[1]?).any isTagSpace) =
      (rest[0]? == some '*' && (rest[1]?).any isTagSpace) := by
  rw [← List.head?_eq_getElem?, ← List.head?_eq_getElem?, beq_head?_shown (by decide)]
  by_cases star : rest.head? = some '*'
  · obtain ⟨rest, rfl⟩ := List.head?_eq_some_iff.mp star
    rw [shown_cons_of_narrow (by decide), List.getElem?_cons_succ, List.getElem?_cons_succ,
      ← List.head?_eq_getElem?, ← List.head?_eq_getElem?,
      any_head?_shown _ isTagSpace_narrow.byteWise]
  · rw [beq_eq_false_iff_ne.mpr star, Bool.false_and, Bool.false_and]

theorem frontOf_shown (text : Text) : frontOf text.shown = (frontOf text).inBytes text := by
  cases text with
  | nil => rfl
  | cons c text =>
      by_cases wide : IsWide c
      · obtain ⟨d, more, first, _, same, _⟩ := shown_cons_of_wide wide text
        rw [same, frontOf_wide wide, frontOf_wide first]
        rfl
      have line := lineCommentLength_shown (c :: text)
      rw [shown_cons_of_narrow wide] at line ⊢
      have bracket : ((shown text).head? != some '[') = (text.head? != some '[') :=
        congrArg not (beq_head?_shown (by decide) text)
      unfold frontOf
      dsimp only
      rw [line, bracket, beq_head?_shown (by decide), beq_head?_shown (by decide),
        beq_head?_shown (by decide)]
      split
      · rw [Front.inBytes, width_cons, utf8Size_of_narrow wide]
        rfl
      split
      · rfl
      split
      · rename_i opens
        rw [Bool.and_eq_true, beq_iff_eq, beq_iff_eq] at opens
        obtain ⟨rfl, star⟩ := opens
        obtain ⟨rest, rfl⟩ := List.head?_eq_some_iff.mp star
        obtain ⟨length, closed⟩ := blockComment_shown rest
        rw [shown_cons_of_narrow (by decide), List.tail_cons, closed, List.length_cons, length]
        simp only [List.getElem?_cons_succ, isDoc_shown]
        rfl
      split
      · rename_i closes
        rw [Bool.and_eq_true, beq_iff_eq, beq_iff_eq] at closes
        obtain ⟨rfl, angle⟩ := closes
        obtain ⟨rest, rfl⟩ := List.head?_eq_some_iff.mp angle
        have marked : NarrowFor ('?' :: '>' :: rest) 2 :=
          (NarrowFor.zero.cons (by decide)).cons (by decide)
        obtain ⟨same, narrow⟩ := closeTagLength_shown marked
        rw [shown_cons_of_narrow (by decide)] at same
        rw [same, Front.inBytes, narrow.width_eq]
      · rfl

end StaticReflection
