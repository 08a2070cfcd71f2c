import StaticReflection.Proofs.Scanner.ByteLexemes
import StaticReflection.Proofs.Scanner.Heredocs

namespace StaticReflection

/-! Heredocs that are read byte by byte. Their lines are cut out of the text at line feeds, and
the indentation off a line after blanks, so that no cut parts a character. -/

open Text

variable {bytes : List UInt8} {pos : Nat} {text rest : Text}

/-! The opening. -/

theorem isQuote_narrow : Narrow fun c => c == '\'' || c == '"' := by
  intro c passes
  rw [Bool.or_eq_true, beq_iff_eq, beq_iff_eq] at passes
  obtain rfl | rfl := passes <;> decide

theorem head?_filter_shown {test : Char → Bool} (narrow : Narrow test) (text : Text) :
    text.shown.head?.filter test = text.head?.filter test := by
  cases text with
  | nil => rfl
  | cons c text =>
      by_cases wide : IsWide c
      · obtain ⟨d, more, first, _, same, _⟩ := shown_cons_of_wide wide text
        rw [same, List.head?_cons, List.head?_cons, Option.filter_some, Option.filter_some,
          narrow.fails wide, narrow.fails first]
        rfl
      · rw [shown_cons_of_narrow wide]
        rfl

theorem lineEndLength_of_head {text : List Char} (feed : text.head? ≠ some '\n')
    (ret : text.head? ≠ some '\r') : lineEndLength text = 0 := by
  unfold lineEndLength
  split
  · exact absurd rfl feed
  · exact absurd rfl ret
  · exact absurd rfl ret
  · rfl

theorem lineEndLength_return {text : List Char} (alone : text.head? ≠ some '\n') :
    lineEndLength ('\r' :: text) = 1 := by
  unfold lineEndLength
  split
  · rfl
  · rename_i text same
    obtain rfl := (List.cons.inj same).2
    exact absurd rfl alone
  · rfl
  · rename_i other
    exact (other text rfl).elim

theorem lineEndLength_shown (text : Text) :
    lineEndLength text.shown = lineEndLength text ∧ NarrowFor text (lineEndLength text) := by
  by_cases feed : text.head? = some '\n'
  · obtain ⟨text, rfl⟩ := List.head?_eq_some_iff.mp feed
    rw [shown_cons_of_narrow (by decide)]
    exact ⟨rfl, NarrowFor.zero.cons (by decide)⟩
  by_cases ret : text.head? = some '\r'
  · obtain ⟨text, rfl⟩ := List.head?_eq_some_iff.mp ret
    rw [shown_cons_of_narrow (by decide)]
    by_cases second : text.head? = some '\n'
    · obtain ⟨text, rfl⟩ := List.head?_eq_some_iff.mp second
      rw [shown_cons_of_narrow (by decide)]
      exact ⟨rfl, (NarrowFor.zero.cons (by decide)).cons (by decide)⟩
    · rw [lineEndLength_return second,
        lineEndLength_return (mt (head?_shown_eq_iff (by decide) text).mp second)]
      exact ⟨rfl, NarrowFor.zero.cons (by decide)⟩
  · rw [lineEndLength_of_head feed ret,
      lineEndLength_of_head (mt (head?_shown_eq_iff (by decide) text).mp feed)
        (mt (head?_shown_eq_iff (by decide) text).mp ret)]
    exact ⟨rfl, .zero⟩

/-- A label begins after a quote, if there is one. -/
theorem labelStart_eq (text : List Char) :
    labelStart text =
      let start := 3 + ((text.drop 3).takeWhile isIndent).length
      let quote := (text[start]?).filter fun c => c == '\'' || c == '"'
      start + if quote.isSome then 1 else 0 := by
  rw [labelStart]
  dsimp only
  cases text[3 + ((text.drop 3).takeWhile isIndent).length]? with
  | none => rfl
  | some c =>
      rw [Option.any_some, Option.filter_some]
      split <;> rfl

theorem narrowFor_labelStart (marked : NarrowFor text 3) :
    labelStart text.shown = labelStart text ∧ NarrowFor text (labelStart text) := by
  have blanks := marked.add (.takeWhile isIndent_narrow (text.drop 3))
  rw [labelStart_eq, labelStart_eq, marked.drop_shown, takeWhile_shown_of_narrow isIndent_narrow]
  dsimp only
  generalize 3 + ((text.drop 3).takeWhile isIndent).length = start at blanks ⊢
  rw [blanks.getElem?_shown, head?_filter_shown isQuote_narrow, List.head?_drop]
  refine ⟨rfl, blanks.add (.ite fun quoted => ?_)⟩
  obtain ⟨c, found⟩ := Option.isSome_iff_exists.mp quoted
  obtain ⟨here, quote⟩ := Option.filter_eq_some_iff.mp found
  exact ⟨c, List.head?_drop.trans here, isQuote_narrow c quote⟩

theorem startsName_takeWhile (text : List Char) :
    startsName (text.takeWhile isNamePart) = startsName text := by
  rw [startsName, startsName, List.head?_takeWhile]
  cases text.head? with
  | none => rfl
  | some c =>
      rw [Option.filter_some]
      cases start : isNameStart c with
      | true =>
          rw [if_pos (isNamePart_of_isNameStart start)]
      | false =>
          rw [Option.any_some, start]
          split
          · exact start
          · rfl

/-- The label of an opening is all of the name that begins where a label can. -/
theorem heredocOpening_label (text : List Char) :
    (startsName (text.drop (labelStart text)) = false → HeredocOpening.read? text = none) ∧
      ∀ opening, HeredocOpening.read? text = some opening →
        opening.label = (text.drop (labelStart text)).takeWhile isNamePart := by
  rw [heredocOpening_eq, labelStart_eq]
  dsimp only
  rw [startsName_takeWhile]
  generalize 3 + ((text.drop 3).takeWhile isIndent).length = start
  generalize (text[start]?).filter (fun c => c == '\'' || c == '"') = quote
  generalize (if quote.isSome then 1 else 0) = quoteLength
  refine ⟨fun nothing => by rw [nothing]; rfl, fun opening => ?_⟩
  split
  · nofun
  split
  · nofun
  split
  · nofun
  · rintro ⟨⟩
    rfl

theorem heredocOpening_shown (marked : NarrowFor text 3) :
    HeredocOpening.read? text.shown = (HeredocOpening.read? text).map fun opening =>
      ⟨shown opening.label, opening.raw, text.width opening.length⟩ := by
  have blanks := marked.add (.takeWhile isIndent_narrow (text.drop 3))
  rw [heredocOpening_eq, heredocOpening_eq, marked.drop_shown,
    takeWhile_shown_of_narrow isIndent_narrow]
  dsimp only
  generalize 3 + ((text.drop 3).takeWhile isIndent).length = start at blanks ⊢
  rw [blanks.getElem?_shown, head?_filter_shown isQuote_narrow, List.head?_drop]
  have opened : ∀ c, (text[start]?).filter (fun c => c == '\'' || c == '"') = some c →
      (text.drop start).head? = some c ∧ ¬ IsWide c := by
    intro c found
    obtain ⟨here, quote⟩ := Option.filter_eq_some_iff.mp found
    exact ⟨List.head?_drop.trans here, isQuote_narrow c quote⟩
  generalize (text[start]?).filter (fun c => c == '\'' || c == '"') = quote at opened ⊢
  have quoted : NarrowFor text (start + if quote.isSome then 1 else 0) := by
    refine blanks.add (.ite fun isSome => ?_)
    obtain ⟨c, found⟩ := Option.isSome_iff_exists.mp isSome
    exact ⟨c, opened c found⟩
  generalize lead : start + (if quote.isSome then 1 else 0) = first at quoted ⊢
  rw [quoted.drop_shown, takeWhile_shown _ isNamePart_byteWise, startsName_shown, length_shown]
  have label := take_length_takeWhile isNamePart (text.drop first)
  generalize (text.drop first).takeWhile isNamePart = name at label ⊢
  have named : first + byteSize name = text.width (first + name.length) := by
    rw [width_add, quoted.width_eq, width, label]
  rw [named]
  generalize first + name.length = labelEnd
  split
  · rfl
  have closes : (quote.isSome && text.shown[text.width labelEnd]? != quote) =
      (quote.isSome && text[labelEnd]? != quote) := by
    cases quote with
    | none => rfl
    | some c =>
        rw [← List.head?_drop, drop_shown, ← List.head?_drop, Bool.eq_iff_iff]
        simp only [Option.isSome_some, Bool.true_and, bne_iff_ne]
        exact not_congr (head?_shown_eq_iff (opened c rfl).2 _)
  rw [closes]
  split
  · rfl
  rename_i closed
  have after : NarrowFor (text.drop labelEnd) (if quote.isSome then 1 else 0) := by
    refine .ite fun isSome => ?_
    obtain ⟨c, rfl⟩ := Option.isSome_iff_exists.mp isSome
    exact ⟨c, by simpa using closed, (opened c rfl).2⟩
  generalize (if quote.isSome then 1 else 0) = quoteLength at after ⊢
  have ending := lineEndLength_shown (text.drop (labelEnd + quoteLength))
  have last : text.width labelEnd + quoteLength = text.width (labelEnd + quoteLength) := by
    rw [width_add, after.width_eq]
  have whole : text.width (labelEnd + quoteLength) +
      lineEndLength (text.drop (labelEnd + quoteLength)) =
      text.width (labelEnd + quoteLength + lineEndLength (text.drop (labelEnd + quoteLength))) := by
    rw [width_add _ (labelEnd + quoteLength), ending.2.width_eq]
  rw [last, drop_shown, ending.1, whole]
  split <;> rfl

/-! The lines. -/

section Lines

variable {label line after : Text} {start indent : Nat}

theorem RestAt.pass (here : RestAt bytes start (line ++ after)) :
    RestAt bytes (start + line.byteSize) after := by
  have passed := here.advance line.length
  rwa [show width (line ++ after) line.length = line.byteSize from width_append_add line after 0,
    List.drop_left] at passed

theorem RestAt.cut_front (here : RestAt bytes start (line ++ after)) :
    cut? bytes start (start + line.byteSize) = some line := by
  have piece := here.cut_eq line.length
  rwa [show width (line ++ after) line.length = line.byteSize from width_append_add line after 0,
    List.take_left] at piece

/-- The first line of a text, and the others if there are any. -/
theorem exists_line (text : Text) :
    '\n' ∉ text ∧ text.splitOn '\n' = [text] ∨
      ∃ line after, text = line ++ '\n' :: after ∧ '\n' ∉ line ∧
        text.splitOn '\n' = line :: after.splitOn '\n' := by
  by_cases broken : '\n' ∈ text
  · obtain ⟨line, after, rfl, unbroken⟩ := List.eq_append_cons_of_mem broken
    exact .inr ⟨line, after, rfl, unbroken,
      List.splitOn_append_cons_self_of_not_mem unbroken after⟩
  · exact .inl ⟨broken, List.splitOn_eq_singleton broken⟩

theorem width_closing (closes : closingIndent? label line = some indent) (after : Text) :
    width (line ++ after) (indent + label.length) = indent + label.byteSize := by
  obtain ⟨more, trimmed, -, count⟩ := closingIndent?_eq_some_iff.mp closes
  have split := List.takeWhile_append_dropWhile (p := isIndent) (l := line)
  have whole := congrArg List.length split
  rw [trimmed] at split
  rw [trimmed, List.length_append] at whole
  have blanks : (line.takeWhile isIndent).length = indent := by omega
  have narrow : byteSize (line.takeWhile isIndent) = (line.takeWhile isIndent).length :=
    byteSize_of_narrow fun c among => isIndent_narrow c (List.mem_takeWhile_imp among)
  rw [← split, ← blanks, List.append_assoc, List.append_assoc, width_append_add, narrow]
  exact congrArg _ (width_append_add label _ 0)

theorem byteHeredocLines?_succ (here : RestAt bytes start (line ++ after)) (unbroken : '\n' ∉ line)
    (ends : after = [] ∨ after.head? = some '\n') (read : List Text) (rounds : Nat) :
    byteHeredocLines? bytes label read (rounds + 1) start =
      match closingIndent? label line with
      | some indent => some (some ⟨read, indent, start + indent + label.byteSize⟩)
      | none =>
          if after = [] then some none
          else byteHeredocLines? bytes label (read ++ [dropCarriageReturn line]) rounds
            (start + line.byteSize + 1) := by
  have byteWise : ByteWise fun c => decide (c ≠ '\n') := by
    have passes : ∀ c, IsWide c → decide (c ≠ '\n') = true := fun c wide =>
      decide_eq_true fun same => absurd (same ▸ wide) (by decide)
    exact fun c d wide wideToo => (passes c wide).trans (passes d wideToo).symm
  have front : (line ++ after).takeWhile (fun c => decide (c ≠ '\n')) = line := by
    have passes : ∀ c ∈ line, decide (c ≠ '\n') = true := fun c among =>
      decide_eq_true fun same => unbroken (same ▸ among)
    rw [List.takeWhile_append_of_pos passes]
    obtain rfl | feed := ends
    · rw [List.takeWhile_nil, List.append_nil]
    · obtain ⟨rest, rfl⟩ := List.head?_eq_some_iff.mp feed
      rw [List.takeWhile_cons_of_neg (by decide), List.append_nil]
  have left := here.length_eq
  rw [byteSize_append] at left
  have last : bytes.length ≤ start + line.byteSize ↔ after = [] := by
    rw [← shown_eq_nil_iff, ← List.length_eq_zero_iff, length_shown]
    omega
  rw [byteHeredocLines?, if_neg (by omega), here.ahead_eq, takeWhile_shown _ byteWise, front,
    length_shown]
  dsimp only
  rw [here.cut_front]
  simp only [last]
  rfl

theorem RestAt.nextLine (here : RestAt bytes start (line ++ '\n' :: after)) :
    RestAt bytes (start + line.byteSize + 1) after :=
  here.pass.tail rfl (by decide)

/-- No line closes the heredoc. -/
theorem byteHeredocLines?_of_open (here : RestAt bytes start text) {rounds : Nat}
    (enough : text.length < rounds)
    (inside : ∀ line ∈ text.splitOn '\n', closingIndent? label line = none) (read : List Text) :
    byteHeredocLines? bytes label read rounds start = some none := by
  induction rounds generalizing start text read with
  | zero => exact absurd enough (Nat.not_lt_zero _)
  | succ rounds ih =>
      obtain ⟨unbroken, split⟩ | ⟨line, after, rfl, unbroken, split⟩ := exists_line text
      · rw [split, List.forall_mem_singleton] at inside
        rw [← List.append_nil text] at here
        rw [byteHeredocLines?_succ here unbroken (.inl rfl), inside]
        rfl
      · rw [split, List.forall_mem_cons] at inside
        rw [byteHeredocLines?_succ here unbroken (.inr rfl), inside.1]
        simp only [List.length_append, List.length_cons] at enough
        exact ih here.nextLine (by omega) inside.2 _

/-- The lines before the one that closes the heredoc are read. -/
theorem byteHeredocLines?_of_closing {lines others : List Text} {closing : Text}
    (here : RestAt bytes start text) {rounds : Nat} (enough : text.length < rounds)
    (split : text.splitOn '\n' = lines ++ closing :: others)
    (inside : ∀ line ∈ lines, closingIndent? label line = none)
    (closes : closingIndent? label closing = some indent) (read : List Text) :
    byteHeredocLines? bytes label read rounds start =
      some (some ⟨read ++ lines.map dropCarriageReturn, indent,
        start + text.width (lines.flatten.length + lines.length + indent + label.length)⟩) := by
  obtain ⟨rounds, rfl⟩ : ∃ fewer, rounds = fewer + 1 := ⟨rounds - 1, by omega⟩
  induction lines generalizing start text read rounds with
  | nil =>
      obtain ⟨after, ends, unbroken, rfl⟩ : ∃ after, (after = [] ∨ after.head? = some '\n') ∧
          '\n' ∉ closing ∧ text = closing ++ after := by
        obtain ⟨unbroken, same⟩ | ⟨line, after, rfl, unbroken, same⟩ := exists_line text
        · obtain ⟨rfl, -⟩ := List.cons.inj (same.symm.trans split)
          exact ⟨[], .inl rfl, unbroken, (List.append_nil _).symm⟩
        · obtain ⟨rfl, -⟩ := List.cons.inj (same.symm.trans split)
          exact ⟨'\n' :: after, .inr rfl, unbroken, rfl⟩
      rw [byteHeredocLines?_succ here unbroken ends, closes]
      simp only [List.map_nil, List.append_nil, List.flatten_nil, List.length_nil, Nat.zero_add]
      rw [width_closing closes, Nat.add_assoc]
  | cons line lines ih =>
      rw [List.forall_mem_cons] at inside
      obtain ⟨unbroken, same⟩ | ⟨first, after, rfl, unbroken, same⟩ := exists_line text
      · obtain ⟨-, nothing⟩ := List.cons.inj (same.symm.trans split)
        exact absurd nothing.symm (by simp)
      · obtain ⟨rfl, more⟩ := List.cons.inj (same.symm.trans split)
        rw [byteHeredocLines?_succ here unbroken (.inr rfl), inside.1]
        simp only [List.length_append, List.length_cons] at enough
        obtain ⟨rounds, rfl⟩ : ∃ fewer, rounds = fewer + 1 := ⟨rounds - 1, by omega⟩
        have length : (first :: lines).flatten.length + (first :: lines).length + indent +
            label.length =
              first.length + (lines.flatten.length + lines.length + indent + label.length + 1) := by
          simp only [List.flatten_cons, List.length_append, List.length_cons]
          omega
        have passed := ih here.nextLine more inside.2 (read ++ [dropCarriageReturn first]) rounds
          (by omega)
        rw [length, width_append_add, width_cons, utf8Size_of_narrow (by decide), List.map_cons,
          ← Nat.add_assoc, ← Nat.add_assoc (start + first.byteSize)]
        rw [List.append_assoc] at passed
        exact passed

theorem take_takeWhile_shown (line : Text) (count : Nat) :
    (line.shown.take count).takeWhile isIndent = (line.take count).takeWhile isIndent := by
  rw [← List.take_takeWhile, ← List.take_takeWhile, takeWhile_shown_of_narrow isIndent_narrow]

theorem byteDropIndent?_eq (indent : Nat) (line : Text) :
    byteDropIndent? indent line = some (dropIndent indent line) := by
  have here : RestAt (Utf8.encode line) 0 line := ⟨[], rfl, rfl⟩
  have blanks := NarrowFor.takeWhile isIndent_narrow line
  have fewer : ((line.take indent).takeWhile isIndent).length ≤
      (line.takeWhile isIndent).length := by
    rw [← List.take_takeWhile]
    exact List.length_take_le' _ _
  have after := here.advance ((line.take indent).takeWhile isIndent).length
  rw [(blanks.of_le fewer).width_eq, Nat.zero_add] at after
  rw [byteDropIndent?, show byteChars (Utf8.encode line) = line.shown from rfl,
    take_takeWhile_shown]
  exact after.cut_rest

/-- A line closes the heredoc, and none before it does, or none does at all. -/
theorem closing_or_open (label : Text) (lines : List Text) :
    (∀ line ∈ lines, closingIndent? label line = none) ∨
      ∃ before closing others indent, lines = before ++ closing :: others ∧
        (∀ line ∈ before, closingIndent? label line = none) ∧
        closingIndent? label closing = some indent := by
  induction lines with
  | nil => exact .inl nofun
  | cons line lines ih =>
      cases closes : closingIndent? label line with
      | some indent => exact .inr ⟨[], line, lines, indent, rfl, nofun, closes⟩
      | none =>
          obtain inside | ⟨before, closing, others, indent, rfl, inside, last⟩ := ih
          · exact .inl (List.forall_mem_cons.mpr ⟨closes, inside⟩)
          · exact .inr ⟨line :: before, closing, others, indent, rfl,
              List.forall_mem_cons.mpr ⟨closes, inside⟩, last⟩

end Lines

theorem byteHeredoc?_eq (here : RestAt bytes pos text) (marked : NarrowFor text 3) :
    byteHeredoc? bytes pos = some ((lexHeredoc? text).map (·.inBytes text)) := by
  obtain ⟨same, narrow⟩ := narrowFor_labelStart marked
  obtain ⟨without, label⟩ := heredocOpening_label text
  unfold byteHeredoc? lexHeredoc?
  dsimp only
  rw [here.ahead_eq, same, narrow.drop_shown, startsName_shown, heredocOpening_shown marked]
  cases named : startsName (text.drop (labelStart text)) with
  | false =>
      rw [without named]
      rfl
  | true =>
      have labelled := here.advance (labelStart text)
      rw [narrow.width_eq] at labelled
      rw [length_takeWhile_shown _ isNamePart_byteWise, labelled.cut_eq, take_length_takeWhile]
      cases read : HeredocOpening.read? text with
      | none => rfl
      | some opening =>
          have body := here.advance opening.length
          have enough : (text.drop opening.length).length < bytes.length + 1 := by
            have atLeast := length_le_byteSize (text.drop opening.length)
            have left := body.length_eq
            omega
          simp only [Option.bind_eq_bind, Option.bind_some, Option.map_some, Bool.not_true,
            Bool.false_eq_true, if_false]
          rw [← label opening read]
          obtain inside | ⟨before, closing, others, indent, split, inside, closes⟩ :=
            closing_or_open opening.label ((text.drop opening.length).splitOn '\n')
          · rw [byteHeredocLines?_of_open body enough inside, HeredocBody.read?_of_open inside]
            have length : bytes.length - pos = text.width text.length := by
              rw [here.length_eq, width_length, Nat.add_sub_cancel_left]
            rw [Option.bind_some, length]
            rfl
          · rw [byteHeredocLines?_of_closing body enough split inside closes, split,
              HeredocBody.read?_of_closing inside closes]
            have dropped : (before.map dropCarriageReturn).mapM (byteDropIndent? indent) =
                some (before.map fun line => dropIndent indent (dropCarriageReturn line)) := by
              rw [show byteDropIndent? indent = fun line => pure (dropIndent indent line) from
                funext (byteDropIndent?_eq indent), List.mapM_pure, List.map_map]
              rfl
            have length (count : Nat) :
                pos + text.width opening.length + width (text.drop opening.length) count - pos =
                  text.width (opening.length + count) := by
              rw [Nat.add_assoc, ← width_add, Nat.add_sub_cancel_left]
            simp only [Option.bind_some, List.nil_append, dropped, length]
            split
            · rfl
            split <;> rfl

end StaticReflection
