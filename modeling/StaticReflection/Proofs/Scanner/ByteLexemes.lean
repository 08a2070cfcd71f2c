import StaticReflection.Proofs.Scanner.ByteText
import StaticReflection.Proofs.Scanner.Locality

namespace StaticReflection

/-! Every token that is read byte by byte is the one that is read character by character, with
the bytes of the same piece of text. -/

/-- The lexeme at the front of a text with its length in bytes. -/
def Lexeme.inBytes (lexeme : Lexeme) (text : Text) : Lexeme :=
  { lexeme with length := text.width lexeme.length }

/-! The tests that the scanner makes. -/

theorem isNamePart_byteWise : ByteWise isNamePart := by
  have passes : ∀ c, IsWide c → isNamePart c = true := fun c wide => by
    simp [isNamePart, show 128 ≤ c.toNat from wide]
  intro c d wide wideToo
  rw [passes c wide, passes d wideToo]

theorem isNameStart_byteWise : ByteWise isNameStart := by
  have passes : ∀ c, IsWide c → isNameStart c = true := fun c wide => by
    simp [isNameStart, show 128 ≤ c.toNat from wide]
  intro c d wide wideToo
  rw [passes c wide, passes d wideToo]

theorem narrow_of_le {c : Char} {bound : Nat} (least : c.toNat ≤ bound) (small : bound < 128) :
    ¬ IsWide c :=
  Nat.not_le.mpr (Nat.lt_of_le_of_lt least small)

theorem isDigit_narrow : Narrow Char.isDigit := by
  intro c passes
  simp only [Char.isDigit, Bool.and_eq_true, decide_eq_true_eq, UInt32.le_iff_toNat_le] at passes
  exact narrow_of_le passes.2 (by decide)

theorem isAlpha_narrow : Narrow Char.isAlpha := by
  intro c passes
  obtain upper | lower := (Bool.or_eq_true _ _).mp passes
  · have bounds := of_decide_eq_true upper
    exact narrow_of_le (UInt32.le_iff_toNat_le.mp bounds.2) (by decide)
  · have bounds := (Bool.and_eq_true _ _).mp lower
    exact narrow_of_le (UInt32.le_iff_toNat_le.mp (of_decide_eq_true bounds.2)) (by decide)

theorem isIndent_narrow : Narrow isIndent := by
  intro c passes
  simp only [isIndent, Bool.or_eq_true, beq_iff_eq] at passes
  obtain rfl | rfl := passes <;> decide

theorem isDecimalPart_narrow : Narrow isDecimalPart := by
  intro c passes
  rw [isDecimalPart, Bool.or_eq_true, beq_iff_eq] at passes
  obtain digit | rfl := passes
  · exact isDigit_narrow c digit
  · decide

theorem digitPart_narrow (base : Nat) : Narrow fun c => c == '_' || (digitOf? base c).isSome := by
  intro c passes
  rw [Bool.or_eq_true, beq_iff_eq] at passes
  obtain rfl | digit := passes
  · decide
  · unfold digitOf? digitValue? at digit
    split at digit
    · exact isDigit_narrow c ‹_›
    split at digit
    · rename_i letter
      exact narrow_of_le (UInt32.le_iff_toNat_le.mp letter.2) (by decide)
    split at digit
    · rename_i letter
      exact narrow_of_le (UInt32.le_iff_toNat_le.mp letter.2) (by decide)
    · cases digit

/-! Names. -/

section Names

variable {bytes : List UInt8} {pos : Nat} {rest : Text}

theorem startsName_shown (text : Text) : startsName text.shown = startsName text :=
  text.any_head?_shown isNameStart_byteWise

theorem byteVariable?_eq (here : RestAt bytes pos ('$' :: rest)) :
    byteVariable? bytes pos =
      some ((lexVariable ('$' :: rest)).inBytes ('$' :: rest)) := by
  have after := here.tail rfl (by decide)
  rw [byteVariable?, after.ahead_eq, Text.length_takeWhile_shown _ isNamePart_byteWise,
    after.cut_eq, Text.take_length_takeWhile]
  simp only [Lexeme.inBytes, lexVariable, List.tail_cons, Text.width_cons]
  rw [utf8Size_of_narrow (by decide), Nat.add_comm 1]
  rfl

theorem moreSegments_of_head {text : List Char} (plain : text.head? ≠ some '\\') (fuel : Nat) :
    moreSegments fuel text = 0 := by
  unfold moreSegments
  split
  · rfl
  · exact absurd rfl plain
  · rfl

theorem moreSegments_shown {fuel more : Nat} {text : Text} (enough : text.length ≤ fuel)
    (enoughToo : text.byteSize ≤ more) :
    moreSegments more text.shown = text.width (moreSegments fuel text) ∧
      moreSegments fuel text ≤ text.length := by
  induction fuel generalizing more text with
  | zero =>
      obtain rfl := List.length_eq_zero_iff.mp (Nat.le_zero.mp enough)
      rw [moreSegments_of_head (by simp), moreSegments_of_head (by simp)]
      exact ⟨rfl, Nat.le_refl _⟩
  | succ fuel ih =>
      by_cases separator : text.head? = some '\\'
      · obtain ⟨text, rfl⟩ : ∃ after, text = '\\' :: after := List.head?_eq_some_iff.mp separator
        rw [Text.byteSize_cons, utf8Size_of_narrow (by decide)] at enoughToo
        obtain ⟨more, rfl⟩ : ∃ fewer, more = fewer + 1 := ⟨more - 1, by omega⟩
        rw [Text.shown_cons_of_narrow (by decide), moreSegments, moreSegments, startsName_shown]
        split
        · dsimp only
          rw [Text.length_takeWhile_shown _ isNamePart_byteWise, Text.drop_shown]
          generalize count : (text.takeWhile isNamePart).length = segment
          have inside : segment ≤ text.length := count ▸ (List.takeWhile_prefix _).length_le
          have split := Text.width_add_byteSize_drop text segment
          have fewer : (text.drop segment).length ≤ fuel := by
            rw [List.length_drop]
            simp only [List.length_cons] at enough
            omega
          obtain ⟨same, within⟩ := ih fewer (show _ ≤ more by omega)
          rw [same, Nat.add_right_comm, Nat.add_right_comm segment, Text.width_cons, Text.width_add,
            utf8Size_of_narrow (by decide), Nat.add_comm 1]
          rw [List.length_drop] at within
          simp only [List.length_cons]
          exact ⟨trivial, by omega⟩
        · exact ⟨rfl, Nat.zero_le _⟩
      · have plain : text.shown.head? ≠ some '\\' :=
          mt (Text.head?_shown_eq_iff (by decide) text).mp separator
        rw [moreSegments_of_head separator, moreSegments_of_head plain]
        exact ⟨rfl, Nat.zero_le _⟩

open Text in
theorem nameExtent_shown (text : Text) :
    nameExtent text.shown = (text.width (nameExtent text).1, (nameExtent text).2) := by
  unfold nameExtent
  simp only [Text.head?_shown_eq_iff (c := '\\') (by decide)]
  have leading : NarrowFor text (if text.head? = some '\\' then 1 else 0) :=
    .ite fun separator => ⟨_, separator, by decide⟩
  generalize (if text.head? = some '\\' then 1 else 0) = lead at leading ⊢
  rw [leading.drop_shown, length_takeWhile_shown _ isNamePart_byteWise]
  generalize ((text.drop lead).takeWhile isNamePart).length = segment
  have first : lead + width (text.drop lead) segment = text.width (lead + segment) := by
    rw [width_add, leading.width_eq]
  rw [first, drop_shown]
  have least : byteSize (text.drop (lead + segment)) ≤
      (shown (text.drop (lead + segment))).length := Nat.le_of_eq (length_shown _).symm
  obtain ⟨more, within⟩ := moreSegments_shown (Nat.le_refl _) least
  rw [more]
  generalize moreSegments (text.drop (lead + segment)).length _ = further at within ⊢
  rw [← width_add, drop_shown]
  have opens : (shown (text.drop (lead + segment + further))).take 2 = ['\\', '\x7b'] ↔
      (text.drop (lead + segment + further)).take 2 = ['\\', '\x7b'] :=
    take_shown_eq_iff ['\\', '\x7b'] (by decide) _
  simp only [opens]
  have grouping : NarrowFor (text.drop (lead + segment + further))
      (if (text.drop (lead + segment + further)).take 2 = ['\\', '\x7b'] then 1 else 0) := by
    refine .ite fun group => ⟨'\\', ?_, by decide⟩
    have head := congrArg List.head? group
    rwa [List.head?_take, if_neg (by decide)] at head
  generalize (if (text.drop (lead + segment + further)).take 2 = ['\\', '\x7b'] then 1 else 0) =
    group at grouping ⊢
  have zero := width_eq_zero within
  rw [width_add text (lead + segment + further), grouping.width_eq, Prod.mk.injEq]
  refine ⟨rfl, decide_eq_decide.mpr ?_⟩
  omega

theorem byteName?_eq (here : RestAt bytes pos rest) :
    byteName? bytes pos = some ((lexName rest).inBytes rest) := by
  rw [byteName?, here.ahead_eq, nameExtent_shown]
  dsimp only
  rw [here.cut_eq]
  rfl

end Names

/-! Numbers. -/

section Numbers

open Text

variable {bytes : List UInt8} {pos : Nat} {rest text : Text}

theorem markedBase?_of_wide {c : Char} (wide : IsWide c) (text : List Char) :
    markedBase? ('0' :: c :: text) = none := by
  have apart : ∀ d, ¬ IsWide d → (c == d) = false := fun d narrow =>
    beq_eq_false_iff_ne.mpr fun same => narrow (same ▸ wide)
  simp [markedBase?, apart 'x' (by decide), apart 'X' (by decide), apart 'b' (by decide),
    apart 'B' (by decide), apart 'o' (by decide), apart 'O' (by decide)]

theorem markedBase?_of_head {text : List Char} (apart : text.head? ≠ some '0') :
    markedBase? text = none := by
  unfold markedBase?
  split
  · exact absurd rfl apart
  · rfl

/-- The base is told by two characters of ASCII. -/
theorem markedBase?_shown (text : Text) :
    markedBase? text.shown = markedBase? text ∧
      (markedBase? text ≠ none → NarrowFor text 2) := by
  by_cases zero : text.head? = some '0'
  · obtain ⟨text, rfl⟩ := List.head?_eq_some_iff.mp zero
    rw [shown_cons_of_narrow (by decide)]
    cases text with
    | nil => exact ⟨rfl, fun marked => absurd rfl marked⟩
    | cons c text =>
        by_cases wide : IsWide c
        · obtain ⟨d, more, first, _, same, _⟩ := shown_cons_of_wide wide text
          rw [same, markedBase?_of_wide first, markedBase?_of_wide wide]
          exact ⟨rfl, fun marked => absurd rfl marked⟩
        · rw [shown_cons_of_narrow wide]
          exact ⟨rfl, fun _ => (NarrowFor.zero.cons wide).cons (by decide)⟩
  · have zeroToo : text.shown.head? ≠ some '0' :=
      mt (head?_shown_eq_iff (by decide) text).mp zero
    rw [markedBase?_of_head zero, markedBase?_of_head zeroToo]
    exact ⟨rfl, fun marked => absurd rfl marked⟩

theorem exponentLength_of_wide {c : Char} (wide : IsWide c) (text : List Char) :
    exponentLength (c :: text) = 0 := by
  have apart : ∀ d, ¬ IsWide d → (c == d) = false := fun d narrow =>
    beq_eq_false_iff_ne.mpr fun same => narrow (same ▸ wide)
  simp [exponentLength, apart 'e' (by decide), apart 'E' (by decide)]

theorem exponentLength_shown (text : Text) :
    exponentLength text.shown = exponentLength text ∧ NarrowFor text (exponentLength text) := by
  cases text with
  | nil => exact ⟨rfl, .zero⟩
  | cons c text =>
      by_cases wide : IsWide c
      · obtain ⟨d, more, first, _, same, _⟩ := shown_cons_of_wide wide text
        rw [same, exponentLength_of_wide first, exponentLength_of_wide wide]
        exact ⟨rfl, .zero⟩
      · rw [shown_cons_of_narrow wide]
        unfold exponentLength
        simp only [head?_shown_eq_iff (c := '+') (by decide),
          head?_shown_eq_iff (c := '-') (by decide)]
        have signing : NarrowFor text
            (if (decide (text.head? = some '+') || decide (text.head? = some '-')) = true
              then 1 else 0) := by
          refine .ite fun sign => ?_
          rw [Bool.or_eq_true, decide_eq_true_eq, decide_eq_true_eq] at sign
          obtain plus | minus := sign
          · exact ⟨_, plus, by decide⟩
          · exact ⟨_, minus, by decide⟩
        generalize (if (decide (text.head? = some '+') || decide (text.head? = some '-')) = true
          then 1 else 0) = sign at signing ⊢
        rw [signing.drop_shown, any_head?_shown _ isDigit_narrow.byteWise,
          takeWhile_shown_of_narrow isDecimalPart_narrow]
        refine ⟨rfl, ?_⟩
        split
        · split
          · rw [Nat.add_assoc, Nat.add_comm 1]
            exact (signing.add (.takeWhile isDecimalPart_narrow _)).cons wide
          · exact .zero
        · exact .zero

theorem fractionLength_of_head {text : List Char} (apart : text.head? ≠ some '.') :
    fractionLength text = 0 := by
  unfold fractionLength
  split
  · exact absurd rfl apart
  · rfl

theorem fractionLength_shown (text : Text) :
    fractionLength text.shown = fractionLength text ∧ NarrowFor text (fractionLength text) := by
  by_cases point : text.head? = some '.'
  · obtain ⟨text, rfl⟩ := List.head?_eq_some_iff.mp point
    rw [shown_cons_of_narrow (by decide), fractionLength, fractionLength,
      takeWhile_shown_of_narrow isDecimalPart_narrow]
    simp only [head?_shown_eq_iff (c := '.') (by decide)]
    refine ⟨trivial, ?_⟩
    split
    · exact .zero
    · rw [Nat.add_comm]
      exact (NarrowFor.takeWhile isDecimalPart_narrow text).cons (by decide)
  · have pointToo : text.shown.head? ≠ some '.' :=
      mt (head?_shown_eq_iff (by decide) text).mp point
    rw [fractionLength_of_head point, fractionLength_of_head pointToo]
    exact ⟨rfl, .zero⟩

theorem numberExtent_shown (text : Text) :
    numberExtent text.shown = numberExtent text ∧ NarrowFor text (numberExtent text).2 := by
  obtain ⟨same, marking⟩ := markedBase?_shown text
  rw [numberExtent_eq, numberExtent_eq, same]
  cases marked : markedBase? text with
  | some base =>
      have front := marking (by rw [marked]; nofun)
      dsimp only
      rw [front.drop_shown, takeWhile_shown_of_narrow (digitPart_narrow base)]
      exact ⟨rfl, front.add (.takeWhile (digitPart_narrow base) _)⟩
  | none =>
      have whole := NarrowFor.takeWhile isDecimalPart_narrow text
      have point := fractionLength_shown (text.drop (text.takeWhile isDecimalPart).length)
      dsimp only
      rw [takeWhile_shown_of_narrow isDecimalPart_narrow, whole.drop_shown, point.1,
        point.2.drop_shown, (exponentLength_shown _).1]
      exact ⟨rfl, (whole.add point.2).add (by
        rw [← List.drop_drop]
        exact (exponentLength_shown _).2)⟩

theorem byteNumber?_eq (here : RestAt bytes pos rest) :
    byteNumber? bytes pos = some ((lexNumber rest).inBytes rest) := by
  obtain ⟨same, narrow⟩ := numberExtent_shown rest
  rw [byteNumber?, here.ahead_eq, same, lexNumber]
  cases extent : numberExtent rest with
  | mk kind length =>
      rw [extent] at narrow
      have piece := here.cut_eq length
      rw [narrow.width_eq] at piece
      rw [Lexeme.inBytes]
      dsimp only
      rw [piece, narrow.width_eq]
      rfl

end Numbers

end StaticReflection
