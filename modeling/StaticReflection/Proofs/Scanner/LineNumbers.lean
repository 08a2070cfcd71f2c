import Mathlib.Data.Set.Card
import StaticReflection.Proofs.Parser.CommonStatements
import StaticReflection.Source.File

namespace StaticReflection

/-! Lines, counted by what ends them. The starts of lines increase, so an offset lies between two
of them, and a search finds which. -/

/-! Increasing tables. -/

section Tables

variable {table : List Nat} {offset place : Nat}

/-- The numbers up to an offset stand at the front of an increasing table. -/
theorem countP_splits (increasing : table.Pairwise (· < ·)) (offset : Nat) :
    (∀ start ∈ table.take (table.countP (· ≤ offset)), start ≤ offset) ∧
      ∀ start ∈ table.drop (table.countP (· ≤ offset)), offset < start := by
  induction table with
  | nil => exact ⟨nofun, nofun⟩
  | cons first rest ih =>
      obtain ⟨least, increasing⟩ := List.pairwise_cons.mp increasing
      by_cases early : first ≤ offset
      · rw [List.countP_cons_of_pos (by simpa using early), List.take_succ_cons,
          List.drop_succ_cons, List.forall_mem_cons]
        exact ⟨⟨early, (ih increasing).1⟩, (ih increasing).2⟩
      · have late : ∀ start ∈ first :: rest, offset < start := by
          rw [List.forall_mem_cons]
          exact ⟨by omega, fun start among => by have := least start among; omega⟩
        have unbroken : (first :: rest).countP (· ≤ offset) = 0 :=
          List.countP_eq_zero.mpr fun start among => by simpa using late start among
        rw [unbroken]
        exact ⟨nofun, late⟩

theorem countP_eq_of_splits (inside : place ≤ table.length)
    (before : ∀ start ∈ table.take place, start ≤ offset)
    (after : ∀ start ∈ table.drop place, offset < start) :
    table.countP (· ≤ offset) = place := by
  have front : (table.take place).countP (· ≤ offset) = place := by
    rw [List.countP_eq_length.mpr fun start among => by simpa using before start among]
    exact List.length_take_of_le inside
  have back : (table.drop place).countP (· ≤ offset) = 0 :=
    List.countP_eq_zero.mpr fun start among => by simpa using after start among
  calc table.countP (· ≤ offset)
    _ = (table.take place ++ table.drop place).countP (· ≤ offset) := by
      rw [List.take_append_drop]
    _ = place := by rw [List.countP_append, front, back, Nat.add_zero]

theorem countP_of_getElem? (increasing : table.Pairwise (· < ·))
    (there : table[place]? = some offset) : table.countP (· ≤ offset) = place + 1 := by
  obtain ⟨inside, value⟩ := List.getElem?_eq_some_iff.mp there
  have whole : table = table.take place ++ offset :: table.drop (place + 1) := by
    rw [← value, ← List.drop_eq_getElem_cons inside, List.take_append_drop]
  rw [whole, List.pairwise_append, List.pairwise_cons] at increasing
  obtain ⟨-, ⟨back, -⟩, front⟩ := increasing
  refine countP_eq_of_splits inside (fun start among => ?_) back
  rw [List.take_add_one, there, List.mem_append] at among
  obtain earlier | same := among
  · exact Nat.le_of_lt (front start earlier offset List.mem_cons_self)
  · exact Nat.le_of_eq (List.mem_singleton.mp same)

end Tables

/-- The line to which a search for an offset among the starts of lines leads. It comes upon the
offset itself, or upon the place where the offset would have to be put in. -/
inductive SearchLeadsTo (starts : List Nat) (offset : Nat) : Nat → Prop
  | found (place : Nat) (there : starts[place]? = some offset) :
      SearchLeadsTo starts offset (place + 1)
  | missing (place : Nat) (inside : place ≤ starts.length)
      (before : ∀ start ∈ starts.take place, start < offset)
      (after : ∀ start ∈ starts.drop place, offset < start) :
      SearchLeadsTo starts offset (place - 1 + 1)

/-! Line ends. -/

/-- What ends a line: a line feed, a carriage return, or the two together in this order. They
count as one then, and neither ends a line by itself. -/
structure LineEnd (text : Text) where
  before : Text
  mark : Text
  after : Text
  whole : text = before ++ mark ++ after
  known : mark = ['\r', '\n'] ∨ (mark = ['\n'] ∧ before.getLast? ≠ some '\r') ∨
    (mark = ['\r'] ∧ after.head? ≠ some '\n')

/-- The offset after a line end. -/
def LineEnd.stop {text : Text} (ending : LineEnd text) : Nat :=
  Text.byteSize (ending.before ++ ending.mark)

/-- A line ends with the character when the rest of the text comes after it. -/
def EndsLine (c : Char) (after : Text) : Prop :=
  c = '\n' ∨ (c = '\r' ∧ after.head? ≠ some '\n')

section Starts

variable {offset start : Nat} {text : Text} {c : Char}

theorem mem_lineStartsAfter_cons : start ∈ lineStartsAfter offset (c :: text) ↔
    (EndsLine c text ∧ start = offset + c.utf8Size) ∨
      start ∈ lineStartsAfter (offset + c.utf8Size) text := by
  rw [lineStartsAfter, EndsLine]
  split <;> simp_all

/-- Lines start where a character ends one. -/
theorem mem_lineStartsAfter : start ∈ lineStartsAfter offset text ↔
    ∃ before c after, text = before ++ c :: after ∧ EndsLine c after ∧
      start = offset + Text.byteSize (before ++ [c]) := by
  induction text generalizing offset with
  | nil => simp [lineStartsAfter]
  | cons c text ih =>
      rw [mem_lineStartsAfter_cons, ih]
      constructor
      · rintro (⟨ends, rfl⟩ | ⟨before, d, after, rfl, ends, rfl⟩)
        · exact ⟨[], c, text, rfl, ends, by simp⟩
        · exact ⟨c :: before, d, after, rfl, ends, by simp [Nat.add_assoc]⟩
      · rintro ⟨before, d, after, whole, ends, rfl⟩
        cases before with
        | nil =>
            obtain ⟨rfl, rfl⟩ := List.cons.inj whole
            exact .inl ⟨ends, by simp⟩
        | cons first before =>
            obtain ⟨rfl, rfl⟩ := List.cons.inj whole
            exact .inr ⟨before, d, after, rfl, ends, by simp [Nat.add_assoc]⟩

theorem le_of_mem_lineStartsAfter (among : start ∈ lineStartsAfter offset text) :
    start ≤ offset + text.byteSize := by
  obtain ⟨before, c, after, rfl, -, rfl⟩ := mem_lineStartsAfter.mp among
  rw [show before ++ c :: after = before ++ [c] ++ after by simp, Text.byteSize_append _ after]
  omega

theorem length_lineStartsAfter_le (offset : Nat) (text : Text) :
    (lineStartsAfter offset text).length ≤ text.byteSize := by
  induction text generalizing offset with
  | nil => exact Nat.le_refl 0
  | cons c text ih =>
      have size := c.utf8Size_pos
      have later := ih (offset + c.utf8Size)
      rw [lineStartsAfter, Text.byteSize_cons]
      split
      · rw [List.length_cons]
        omega
      · omega

theorem lineStartsAfter_increasing (offset : Nat) (text : Text) :
    (lineStartsAfter offset text).Pairwise (· < ·) := by
  induction text generalizing offset with
  | nil => exact .nil
  | cons c text ih =>
      rw [lineStartsAfter]
      split
      · exact List.pairwise_cons.mpr ⟨fun start among => lt_of_mem_lineStartsAfter among, ih _⟩
      · exact ih _

end Starts

namespace LineEnd

variable {text : Text}

theorem stop_mem (ending : LineEnd text) : ending.stop ∈ lineStartsAfter 0 text := by
  obtain ⟨before, mark, after, rfl, known⟩ := ending
  rw [mem_lineStartsAfter]
  obtain rfl | ⟨rfl, -⟩ | ⟨rfl, alone⟩ := known
  · exact ⟨before ++ ['\r'], '\n', after, by simp, .inl rfl, by simp [stop]⟩
  · exact ⟨before, '\n', after, by simp, .inl rfl, by simp [stop]⟩
  · exact ⟨before, '\r', after, by simp, .inr ⟨rfl, alone⟩, by simp [stop]⟩

theorem exists_stop_eq {start : Nat} (among : start ∈ lineStartsAfter 0 text) :
    ∃ ending : LineEnd text, ending.stop = start := by
  obtain ⟨before, c, after, whole, ends, rfl⟩ := mem_lineStartsAfter.mp among
  obtain rfl | ⟨rfl, alone⟩ := ends
  · by_cases pair : before.getLast? = some '\r'
    · obtain ⟨front, rfl⟩ := List.getLast?_eq_some_iff.mp pair
      exact ⟨⟨front, ['\r', '\n'], after, by simpa using whole, .inl rfl⟩, by simp [stop]⟩
    · exact ⟨⟨before, ['\n'], after, by simpa using whole, .inr (.inl ⟨rfl, pair⟩)⟩,
        by simp [stop]⟩
  · exact ⟨⟨before, ['\r'], after, by simpa using whole, .inr (.inr ⟨rfl, alone⟩)⟩,
      by simp [stop]⟩

/-- What stands up to the end of a line says how the line ends. -/
theorem mark_eq (ending : LineEnd text) : ending.mark =
    if (ending.before ++ ending.mark).getLast? = some '\r' then ['\r']
    else if (ending.before ++ ending.mark).dropLast.getLast? = some '\r' then ['\r', '\n']
    else ['\n'] := by
  obtain ⟨before, mark, after, whole, known⟩ := ending
  obtain rfl | ⟨rfl, alone⟩ | ⟨rfl, alone⟩ := known
  · simp
  · simp [alone]
  · simp

theorem stop_injective : Function.Injective (stop : LineEnd text → Nat) := by
  intro first second same
  have front (ending : LineEnd text) :
      text.takeBytes ending.stop = ending.before ++ ending.mark :=
    (congrArg (Text.takeBytes ending.stop) ending.whole).trans (Text.takeBytes_byteSize _ _)
  have upTo : first.before ++ first.mark = second.before ++ second.mark := by
    rw [← front first, ← front second, same]
  have mark : first.mark = second.mark := by rw [first.mark_eq, second.mark_eq, upTo]
  have before : first.before = second.before := by
    rw [mark] at upTo
    exact List.append_cancel_right upTo
  have after : first.after = second.after := by
    have whole := first.whole.symm.trans second.whole
    rw [upTo] at whole
    exact List.append_cancel_left whole
  cases first
  cases second
  rw [mk.injEq]
  exact ⟨before, mark, after⟩

theorem ncard_stop_le (text : Text) (offset : Nat) :
    {ending : LineEnd text | ending.stop ≤ offset}.ncard =
      (lineStartsAfter 0 text).countP (· ≤ offset) := by
  have image : stop '' {ending : LineEnd text | ending.stop ≤ offset} =
      ((lineStartsAfter 0 text).filter (· ≤ offset)).toFinset := by
    ext start
    rw [Finset.mem_coe, List.mem_toFinset, List.mem_filter, decide_eq_true_eq]
    constructor
    · rintro ⟨ending, early, rfl⟩
      exact ⟨ending.stop_mem, early⟩
    · rintro ⟨among, early⟩
      obtain ⟨ending, rfl⟩ := exists_stop_eq among
      exact ⟨ending, early, rfl⟩
  have distinct : ((lineStartsAfter 0 text).filter (· ≤ offset)).Nodup :=
    ((lineStartsAfter_increasing 0 text).filter _).nodup
  rw [← Set.ncard_image_of_injective _ stop_injective, image, Set.ncard_coe_finset,
    List.toFinset_card_of_nodup distinct, List.countP_eq_length_filter]

end LineEnd

/-! Lines of a text. -/

namespace LineMap

variable {text : Text}

theorem starts_increasing (text : Text) : (ofText text).starts.Pairwise (· < ·) :=
  List.pairwise_cons.mpr
    ⟨fun _ among => lt_of_mem_lineStartsAfter among, lineStartsAfter_increasing 0 text⟩

theorem lineOf_eq (text : Text) (offset : Nat) :
    (ofText text).lineOf offset = (lineStartsAfter 0 text).countP (· ≤ offset) + 1 :=
  List.countP_cons_of_pos (by simp)

theorem monotone_lineOf (lines : LineMap) : Monotone lines.lineOf :=
  fun earlier later order => List.countP_mono_left fun start _ early => by
    simp only [decide_eq_true_eq] at early ⊢
    omega

/-- The line of an offset starts at or before it, and the next line after it. -/
theorem start?_lineOf (text : Text) (offset : Nat) :
    (∃ start ≤ offset, (ofText text).start? ((ofText text).lineOf offset) = some start) ∧
      ∀ next, (ofText text).start? ((ofText text).lineOf offset + 1) = some next →
        offset < next := by
  obtain ⟨before, after⟩ := countP_splits (starts_increasing text) offset
  have count := lineOf_eq text offset
  have inside : (ofText text).lineOf offset ≤ (ofText text).starts.length := List.countP_le_length
  unfold start?
  constructor
  · rw [if_neg (by omega), List.getElem?_eq_getElem (by omega)]
    refine ⟨_, before _ ?_, rfl⟩
    rw [List.mem_take_iff_getElem]
    exact ⟨(ofText text).lineOf offset - 1, by change _ < min (lineOf _ _) _; omega, rfl⟩
  · intro next there
    rw [if_neg (Nat.succ_ne_zero _), Nat.add_sub_cancel] at there
    refine after next ?_
    rw [List.mem_iff_getElem?]
    exact ⟨0, by rw [List.getElem?_drop, Nat.add_zero]; exact there⟩

theorem searchLeadsTo_iff (text : Text) (offset line : Nat) :
    SearchLeadsTo (ofText text).starts offset line ↔ line = (ofText text).lineOf offset := by
  have increasing := starts_increasing text
  have positive : 0 < (ofText text).lineOf offset := by
    rw [lineOf_eq]
    exact Nat.succ_pos _
  constructor
  · intro leads
    cases leads with
    | found place there => exact (countP_of_getElem? increasing there).symm
    | missing place inside before after =>
        have count : (ofText text).lineOf offset = place :=
          countP_eq_of_splits inside (fun start among => Nat.le_of_lt (before start among)) after
        omega
  · rintro rfl
    obtain ⟨before, after⟩ := countP_splits increasing offset
    by_cases known : offset ∈ (ofText text).starts
    · obtain ⟨place, there⟩ := List.mem_iff_getElem?.mp known
      rw [lineOf, countP_of_getElem? increasing there]
      exact .found place there
    · have missing := SearchLeadsTo.missing ((ofText text).lineOf offset) List.countP_le_length
        (fun start among => Nat.lt_of_le_of_ne (before start among) fun same =>
          known (same ▸ List.mem_of_mem_take among)) after
      rwa [Nat.sub_add_cancel positive] at missing

end LineMap

/-- Every node has a first and a last line, in this order. -/
theorem SourceFile.exists_nodeLines (file : SourceFile) {node : NodeId}
    (among : node < file.arena.size) :
    ∃ first last, file.nodeLines? node = some (first, last) ∧ first ≤ last := by
  have entry : file.arena.entries[node]? = some file.arena.entries[node] :=
    Array.getElem?_eq_getElem among
  rw [nodeLines?, Arena.span?, entry]
  exact ⟨_, _, rfl, file.lines.monotone_lineOf (Nat.le_max_right _ _)⟩

/-- The line of an offset is one more than the number of line ends up to it. It starts at or
before the offset, and the next line after it, and every search among the starts of the lines
leads to it. The starts are offsets in the text, so that there are no more lines than bytes
and one. A later offset is on no earlier line, and no node ends on a line before its first. -/
theorem lines_numbered_by_line_ends (text : Text) :
    let lines := LineMap.ofText text
    (∀ offset, lines.lineOf offset =
      1 + {ending : LineEnd text | ending.stop ≤ offset}.ncard) ∧
    (∀ offset, (∃ start ≤ offset, lines.start? (lines.lineOf offset) = some start) ∧
      ∀ next, lines.start? (lines.lineOf offset + 1) = some next → offset < next) ∧
    (∀ offset line, SearchLeadsTo lines.starts offset line ↔ line = lines.lineOf offset) ∧
    (∀ start ∈ lines.starts, start ≤ text.byteSize) ∧ lines.count ≤ text.byteSize + 1 ∧
    Monotone lines.lineOf ∧
    ∀ path node, node < (SourceFile.parse path text).arena.size →
      ∃ first last, (SourceFile.parse path text).nodeLines? node = some (first, last) ∧
        first ≤ last := by
  intro lines
  refine ⟨fun offset => ?_, LineMap.start?_lineOf text, LineMap.searchLeadsTo_iff text,
    fun start among => ?_, ?_, lines.monotone_lineOf,
    fun path node among => (SourceFile.parse path text).exists_nodeLines among⟩
  · rw [LineEnd.ncard_stop_le, Nat.add_comm]
    exact LineMap.lineOf_eq text offset
  · obtain rfl | later := List.mem_cons.mp among
    · exact Nat.zero_le _
    · exact (Nat.zero_add text.byteSize) ▸ le_of_mem_lineStartsAfter later
  · exact Nat.succ_le_succ (length_lineStartsAfter_le 0 text)

/-- All three line ends in one file, with offsets between the characters of a pair and past
the end of the text. -/
theorem lines_of_mixed_line_ends :
    let text := "<?php\r\nclass A \x7b\r\x7d\n".toList
    let lines := LineMap.ofText text
    lines.lineOf 6 = 1 ∧ lines.start? 2 = some 7 ∧ 6 < 7 ∧
      {ending : LineEnd text | ending.stop ≤ 100}.ncard = 3 ∧
      lines.lineOf 6 ≤ lines.lineOf 100 ∧
      ∃ first last, (SourceFile.parse "/a.php" text).nodeLines? 0 = some (first, last) ∧
        first ≤ last := by
  intro text lines
  obtain ⟨counted, between, -, -, -, order, nodes⟩ := lines_numbered_by_line_ends text
  have first : lines.lineOf 6 = 1 := by decide +kernel
  have next : lines.start? 2 = some 7 := by decide +kernel
  have all : lines.lineOf 100 = 4 := by decide +kernel
  have before : 6 < 7 := (between 6).2 7 (by rw [first]; exact next)
  have ends : {ending : LineEnd text | ending.stop ≤ 100}.ncard = 3 := by
    have total := counted 100
    rw [all] at total
    omega
  have parsed : 0 < (SourceFile.parse "/a.php" text).arena.size := by decide +kernel
  exact ⟨first, next, before, ends, order (by decide), nodes "/a.php" 0 parsed⟩

end StaticReflection
