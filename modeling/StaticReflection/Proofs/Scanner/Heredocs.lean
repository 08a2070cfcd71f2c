import StaticReflection.Proofs.Scanner.Locality
import StaticReflection.Proofs.Scanner.QuotedStrings

namespace StaticReflection

/-! Heredocs: the lines between an opening and a label. A line ends with a line feed, whatever
ended the opening. -/

namespace Word

/-- The line ends a heredoc with the label: blanks and the label, and the label goes no further. -/
def Closes (label : Word) (line : Text) : Prop :=
  ∃ indent after, line = indent ++ label.text ++ after ∧ (∀ c ∈ indent, isIndent c = true) ∧
    ∀ c ∈ after.head?, isNamePart c = false

variable {label : Word} {line indent after : Text}

theorem isNamePart_of_mem {c : Char} (among : c ∈ label.text) : isNamePart c = true :=
  List.all_eq_true.mp label.parts c among

theorem not_mem {c : Char} (apart : isNamePart c = false) : c ∉ label.text := fun among =>
  Bool.false_ne_true (apart.symm.trans (isNamePart_of_mem among))

theorem length_pos (label : Word) : 0 < label.text.length := by
  obtain ⟨c, text, spelled, -⟩ := label.exists_cons
  rw [spelled]
  exact Nat.succ_pos _

theorem dropWhile_isIndent (label : Word) (after : Text) :
    (label.text ++ after).dropWhile isIndent = label.text ++ after := by
  obtain ⟨c, text, spelled, start⟩ := label.exists_cons
  have solid : ¬ isIndent c = true := by
    intro blank
    simp only [isIndent, Bool.or_eq_true, beq_iff_eq] at blank
    obtain rfl | rfl := blank <;> cases start
  rw [spelled, List.cons_append, List.dropWhile_cons_of_neg solid]

theorem closingIndent?_closing (blank : ∀ c ∈ indent, isIndent c = true)
    (ends : ∀ c ∈ after.head?, isNamePart c = false) :
    closingIndent? label.text (indent ++ label.text ++ after) = some indent.length := by
  refine closingIndent?_eq_some_iff.mpr ⟨after, ?_, ?_, ?_⟩
  · rw [List.append_assoc, List.dropWhile_append_of_pos blank, label.dropWhile_isIndent]
  · exact (Option.any_eq_false _ _).mpr ends
  · simp only [List.length_append]
    omega

theorem closingIndent?_eq_none_iff :
    closingIndent? label.text line = none ↔ ¬ label.Closes line := by
  constructor
  · rintro unclosed ⟨indent, after, rfl, blank, ends⟩
    rw [closingIndent?_closing blank ends] at unclosed
    cases unclosed
  · intro inside
    cases found : closingIndent? label.text line with
    | none => rfl
    | some count =>
        obtain ⟨after, trimmed, stops, -⟩ := closingIndent?_eq_some_iff.mp found
        refine absurd ⟨line.takeWhile isIndent, after, ?_, ?_, ?_⟩ inside
        · rw [List.append_assoc, ← trimmed, List.takeWhile_append_dropWhile]
        · exact fun c => List.mem_takeWhile_imp
        · exact (Option.any_eq_false _ _).mp stops

/-- A carriage return neither belongs to a label nor hides one. -/
theorem Closes.of_carriageReturn {rest : Text} (closes : label.Closes (line ++ '\r' :: rest)) :
    label.Closes line := by
  obtain ⟨indent, after, whole, blank, ends⟩ := closes
  obtain ⟨more, inside, same⟩ | ⟨more, outside, same⟩ := List.append_eq_append_iff.mp whole
  · cases more with
    | nil =>
        rw [List.append_nil] at inside
        exact ⟨indent, [], by rw [inside, List.append_nil], blank, nofun⟩
    | cons c more =>
        obtain ⟨rfl, -⟩ := List.cons.inj same
        have among : '\r' ∈ indent ++ label.text := by rw [inside]; simp
        obtain early | late := List.mem_append.mp among
        · cases blank _ early
        · exact absurd late (not_mem (by decide))
  · refine ⟨indent, more, outside, blank, ?_⟩
    cases more with
    | nil => nofun
    | cons c more =>
        rintro _ ⟨⟩
        exact ends c (by rw [same]; rfl)

end Word

/-! Lines. -/

section Lines

variable {label : List Char} {lines rest : List Text} {closing : Text}

theorem HeredocBody.read?_of_closing {indent : Nat}
    (inside : ∀ line ∈ lines, closingIndent? label line = none)
    (closes : closingIndent? label closing = some indent) :
    HeredocBody.read? label (lines ++ closing :: rest) =
      some ⟨List.intercalate ['\n']
          (lines.map fun line => dropIndent indent (dropCarriageReturn line)),
        lines.flatten.length + lines.length + indent + label.length⟩ := by
  have passed : (lines ++ closing :: rest).takeWhile
      (fun line => (closingIndent? label line).isNone) = lines := by
    rw [List.takeWhile_append_of_pos fun line among => by rw [inside line among]; rfl,
      List.takeWhile_cons_of_neg (by rw [closes]; nofun), List.append_nil]
  simp [HeredocBody.read?, passed, closes]

theorem HeredocBody.read?_of_open (inside : ∀ line ∈ lines, closingIndent? label line = none) :
    HeredocBody.read? label lines = none := by
  have passed : lines.takeWhile (fun line => (closingIndent? label line).isNone) = lines :=
    List.takeWhile_eq_self_iff.mpr fun line among => by rw [inside line among]; rfl
  simp [HeredocBody.read?, passed]

theorem splitOn_lines {ending : Text} (unbroken : ∀ line ∈ lines, '\n' ∉ line ++ ending)
    (text : Text) : (lines.flatMap (· ++ (ending ++ ['\n'])) ++ text).splitOn '\n' =
      lines.map (· ++ ending) ++ text.splitOn '\n' := by
  induction lines with
  | nil => rfl
  | cons line lines ih =>
      obtain ⟨here, others⟩ := List.forall_mem_cons.mp unbroken
      have first : (line :: lines).flatMap (· ++ (ending ++ ['\n'])) ++ text =
          (line ++ ending) ++ '\n' :: (lines.flatMap (· ++ (ending ++ ['\n'])) ++ text) := by simp
      rw [first, List.splitOn_append_cons_self_of_not_mem here, ih others, List.map_cons,
        List.cons_append]

theorem length_lines (lines : List Text) (ending : Text) :
    (lines.flatMap (· ++ (ending ++ ['\n']))).length =
      (lines.map (· ++ ending)).flatten.length + lines.length := by
  induction lines with
  | nil => rfl
  | cons line lines ih =>
      simp only [List.flatMap_cons, List.map_cons, List.flatten_cons, List.length_append,
        List.length_cons, List.length_nil, ih]
      omega

/-- The first line goes up to the first line feed. -/
theorem exists_splitOn_eq (text : Text) :
    ∃ rest, text.splitOn '\n' = text.takeWhile (· != '\n') :: rest := by
  induction text with
  | nil => exact ⟨[], rfl⟩
  | cons c text ih =>
      obtain ⟨rest, split⟩ := ih
      rw [List.splitOn_cons_eq_if_modifyHead, split]
      by_cases feed : c = '\n'
      · exact ⟨text.takeWhile (· != '\n') :: rest, by simp [feed]⟩
      · exact ⟨rest, by simp [feed]⟩

end Lines

/-! Heredocs as they are written. -/

/-- What may end the line of an opening. -/
inductive LineBreak where
  | lf
  | crlf
  | cr
  deriving DecidableEq

def LineBreak.text : LineBreak → Text
  | .lf => ['\n']
  | .crlf => ['\r', '\n']
  | .cr => ['\r']

theorem lineEndLength_text {newline : LineBreak} {rest : Text}
    (lone : newline = .cr → rest.head? ≠ some '\n') :
    lineEndLength (newline.text ++ rest) = newline.text.length := by
  cases newline with
  | lf => rfl
  | crlf => rfl
  | cr =>
      change lineEndLength ('\r' :: rest) = 1
      rw [lineEndLength]
      rintro text rfl
      exact lone rfl rfl

/-- The quotes around a label. Between single ones it opens a nowdoc. -/
inductive LabelQuote where
  | none
  | double
  | single
  deriving DecidableEq

namespace LabelQuote

def mark? : LabelQuote → Option Char
  | .none => Option.none
  | .double => some '"'
  | .single => some '\''

def text (quote : LabelQuote) : Text :=
  quote.mark?.toList

theorem length_text (quote : LabelQuote) :
    quote.text.length = if quote.mark?.isSome then 1 else 0 := by
  cases quote <;> rfl

theorem mark?_beq_single (quote : LabelQuote) :
    (quote.mark? == some '\'') = decide (quote = .single) := by
  cases quote <;> rfl

/-- The same quote stands on both sides, or none does. -/
theorem closes (quote : LabelQuote) (line : Text) :
    (quote.mark?.isSome && (quote.text ++ line).head? != quote.mark?) = false := by
  cases quote <;> simp [text, mark?]

theorem endsLabel (quote : LabelQuote) (newline : LineBreak) (rest : Text) :
    ∀ c ∈ (quote.text ++ (newline.text ++ rest)).head?, isNamePart c = false := by
  cases quote <;> cases newline <;> rintro _ ⟨⟩ <;> decide

/-- After the blanks comes a quote, or else the label. -/
theorem begins (quote : LabelQuote) (label : Word) (rest : Text) :
    ∃ c, (quote.text ++ (label.text ++ rest)).head? = some c ∧ isIndent c = false ∧
      (some c).filter (fun c => c == '\'' || c == '"') = quote.mark? := by
  obtain ⟨c, text, spelled, start⟩ := label.exists_cons
  cases quote with
  | none =>
      have other : c ∉ [' ', '\t', '\'', '"'] := not_mem_of_class start (by decide)
      simp only [List.mem_cons, List.not_mem_nil, not_or] at other
      exact ⟨c, by rw [spelled]; rfl, by simp [isIndent, other], by simp [mark?, other]⟩
  | double => exact ⟨'"', rfl, by decide, by decide⟩
  | single => exact ⟨'\'', rfl, by decide, by decide⟩

end LabelQuote

structure Heredoc where
  label : Word
  quote : LabelQuote := .none
  /-- Blanks before the opening label. -/
  gap : Text := []
  lines : List Text
  /-- Blanks before the closing label. -/
  indent : Text := []
  gap_blank : ∀ c ∈ gap, isIndent c = true
  indent_blank : ∀ c ∈ indent, isIndent c = true
  unbroken : ∀ line ∈ lines, '\n' ∉ line ∧ '\r' ∉ line
  inside : ∀ line ∈ lines, ¬ label.Closes line

theorem getElem?_length_append (before after : Text) :
    (before ++ after)[before.length]? = after.head? := by
  rw [List.getElem?_append_right (Nat.le_refl _), Nat.sub_self, List.head?_eq_getElem?]

namespace Heredoc

def opening (heredoc : Heredoc) (newline : LineBreak) : Text :=
  ['<', '<', '<'] ++ heredoc.gap ++ heredoc.quote.text ++ heredoc.label.text ++
    heredoc.quote.text ++ newline.text

def closing (heredoc : Heredoc) : Text :=
  heredoc.indent ++ heredoc.label.text

/-- The heredoc with the same line break everywhere. -/
def text (heredoc : Heredoc) (newline : LineBreak) : Text :=
  heredoc.opening newline ++ heredoc.lines.flatMap (· ++ newline.text) ++ heredoc.closing

/-- The lines without the indentation of the closing label, as one text. -/
def body (heredoc : Heredoc) : Text :=
  List.intercalate ['\n'] (heredoc.lines.map (dropIndent heredoc.indent.length))

/-- What a parser is to see of the heredoc. -/
def mark (heredoc : Heredoc) : Mark :=
  if heredoc.quote = .single then
    ⟨.stringLiteral, Utf8.decodeString (Utf8.encode heredoc.body), Utf8.encode heredoc.body⟩
  else if hasInterpolation heredoc.body then
    ⟨.interpolatedString, String.ofList heredoc.body, []⟩
  else
    ⟨.stringLiteral, Utf8.decodeString (decodeEscapes none heredoc.body),
      decodeEscapes none heredoc.body⟩

variable (heredoc : Heredoc) {newline : LineBreak} {rest : Text}

theorem opening_read (broken : lineEndLength (newline.text ++ rest) = newline.text.length) :
    HeredocOpening.read? (heredoc.opening newline ++ rest) =
      some ⟨heredoc.label.text, heredoc.quote = .single, (heredoc.opening newline).length⟩ := by
  let front : Text := ['<', '<', '<'] ++ heredoc.gap
  let quote := heredoc.quote.text
  let label := heredoc.label.text
  let line : Text := newline.text ++ rest
  have written : heredoc.opening newline ++ rest =
      front ++ (quote ++ (label ++ (quote ++ line))) := by
    simp [opening, front, quote, label, line]
  obtain ⟨c, head, solid, mark⟩ := heredoc.quote.begins heredoc.label (quote ++ line)
  have blanks : ((heredoc.opening newline ++ rest).drop 3).takeWhile isIndent = heredoc.gap := by
    rw [written]
    refine takeWhile_append_stop heredoc.gap_blank fun d first => ?_
    cases head.symm.trans first
    exact solid
  have quoted : ((heredoc.opening newline ++ rest)[front.length]?).filter
      (fun c => c == '\'' || c == '"') = heredoc.quote.mark? := by
    rw [written, getElem?_length_append, head, mark]
  have named : ((heredoc.opening newline ++ rest).drop
      (front.length + quote.length)).takeWhile isNamePart = label := by
    rw [written, ← List.append_assoc, ← List.length_append, List.drop_left]
    exact takeWhile_append_stop (fun _ => Word.isNamePart_of_mem)
      (heredoc.quote.endsLabel newline rest)
  have closed : (heredoc.opening newline ++ rest)[front.length + quote.length + label.length]? =
      (quote ++ line).head? := by
    rw [written, ← List.append_assoc, ← List.append_assoc, ← List.length_append,
      ← List.length_append, getElem?_length_append]
  have ended : (heredoc.opening newline ++ rest).drop
      (front.length + quote.length + label.length + quote.length) = line := by
    rw [written, ← List.append_assoc, ← List.append_assoc, ← List.append_assoc,
      ← List.length_append, ← List.length_append, ← List.length_append, List.drop_left]
  have start : 3 + heredoc.gap.length = front.length := by
    rw [Nat.add_comm]
    rfl
  have length : (heredoc.opening newline).length =
      front.length + quote.length + label.length + quote.length + newline.text.length := by
    simp only [opening, front, quote, label, List.length_append]
  have more : newline.text.length ≠ 0 := by cases newline <;> nofun
  rw [heredocOpening_eq]
  dsimp only
  rw [blanks, start, quoted, ← heredoc.quote.length_text, named, closed, ended, broken, length,
    heredoc.quote.closes, heredoc.quote.mark?_beq_single]
  simp [quote, label, heredoc.label.starts, more]

theorem lexToken_opening (text : Text) (newline : LineBreak) :
    lexToken (heredoc.opening newline ++ text) =
      (lexHeredoc? (heredoc.opening newline ++ text)).getD
        (lexPunctuation (heredoc.opening newline ++ text)) := by
  simp [opening, lexToken, isNameStart]

/-- How the token ends, when the lines are as given. -/
theorem lexToken_read (broken : lineEndLength (newline.text ++ rest) = newline.text.length) :
    lexToken (heredoc.opening newline ++ rest) =
      match HeredocBody.read? heredoc.label.text (rest.splitOn '\n') with
      | none => .ofBytes (heredoc.opening newline ++ rest).length []
          { unterminated := true, heredoc := true } (some "Unterminated heredoc")
      | some body =>
          let length := (heredoc.opening newline).length + body.length
          if heredoc.quote = .single then
            .ofBytes length (Utf8.encode body.text) { heredoc := true } none
          else if hasInterpolation body.text then
            { kind := .interpolatedString, length, value := String.ofList body.text
              flags := { heredoc := true } }
          else .ofBytes length (decodeEscapes none body.text) { heredoc := true } none := by
  rw [lexToken_opening, lexHeredoc?, heredoc.opening_read broken]
  simp only [Option.bind_eq_bind, Option.bind_some, List.drop_left]
  cases HeredocBody.read? heredoc.label.text (rest.splitOn '\n') with
  | none => rfl
  | some body =>
      simp only [decide_eq_true_eq]
      split
      · rfl
      split <;> rfl

/-! Where a heredoc ends. -/

theorem feed_not_mem_closing : '\n' ∉ heredoc.closing := by
  intro among
  obtain blank | part := List.mem_append.mp among
  · cases heredoc.indent_blank _ blank
  · exact heredoc.label.not_mem (by decide) part

theorem closes_after {after : Text} (ends : ∀ c ∈ after.head?, isNamePart c = false) :
    ∃ line others, (heredoc.closing ++ after).splitOn '\n' = line :: others ∧
      closingIndent? heredoc.label.text line = some heredoc.indent.length := by
  obtain ⟨others, split⟩ := exists_splitOn_eq (heredoc.closing ++ after)
  have unbroken : ∀ c ∈ heredoc.closing, (c != '\n') = true := by
    intro c among
    rw [bne_iff_ne]
    rintro rfl
    exact heredoc.feed_not_mem_closing among
  rw [List.takeWhile_append_of_pos unbroken] at split
  refine ⟨_, others, split, Word.closingIndent?_closing heredoc.indent_blank ?_⟩
  intro c head
  rw [List.head?_takeWhile] at head
  exact ends c (Option.filter_eq_some_iff.mp head).1

theorem line_open {ending : Text} (returns : ending = [] ∨ ending = ['\r']) :
    ∀ line ∈ heredoc.lines.map (· ++ ending),
      closingIndent? heredoc.label.text line = none := by
  intro line among
  obtain ⟨bare, listed, rfl⟩ := List.mem_map.mp among
  refine Word.closingIndent?_eq_none_iff.mpr fun closes => heredoc.inside bare listed ?_
  obtain rfl | rfl := returns
  · rwa [List.append_nil] at closes
  · exact closes.of_carriageReturn

theorem dropCarriageReturn_append {line ending : Text} (bare : '\r' ∉ line)
    (returns : ending = [] ∨ ending = ['\r']) : dropCarriageReturn (line ++ ending) = line := by
  obtain rfl | rfl := returns
  · rw [List.append_nil, dropCarriageReturn, if_neg]
    exact fun last => bare (List.mem_of_getLast? last)
  · rw [dropCarriageReturn, if_pos List.getLast?_concat, List.dropLast_concat]

theorem body_eq {ending : Text} (returns : ending = [] ∨ ending = ['\r']) :
    List.intercalate ['\n'] ((heredoc.lines.map (· ++ ending)).map fun line =>
      dropIndent heredoc.indent.length (dropCarriageReturn line)) = heredoc.body := by
  rw [body, List.map_map]
  refine congrArg _ (List.map_congr_left fun line listed => ?_)
  exact congrArg _ (dropCarriageReturn_append (heredoc.unbroken line listed).2 returns)

/-- Lines that end with a line feed, with a carriage return before it or without. -/
theorem lines_read {after ending : Text} (returns : ending = [] ∨ ending = ['\r'])
    (ends : ∀ c ∈ after.head?, isNamePart c = false) :
    HeredocBody.read? heredoc.label.text
        ((heredoc.lines.flatMap (· ++ (ending ++ ['\n'])) ++ (heredoc.closing ++ after)).splitOn
          '\n') =
      some ⟨heredoc.body,
        (heredoc.lines.flatMap (· ++ (ending ++ ['\n']))).length + heredoc.closing.length⟩ := by
  obtain ⟨line, others, split, closes⟩ := heredoc.closes_after ends
  have unbroken : ∀ line ∈ heredoc.lines, '\n' ∉ line ++ ending := by
    intro line listed among
    obtain early | late := List.mem_append.mp among
    · exact (heredoc.unbroken line listed).1 early
    · obtain rfl | rfl := returns <;> simp at late
  rw [splitOn_lines unbroken, split,
    HeredocBody.read?_of_closing (heredoc.line_open returns) closes, heredoc.body_eq returns,
    length_lines, closing, List.length_append, List.length_map, Nat.add_assoc (_ + _)]

/-- The token of the heredoc when it is closed. -/
def lexeme (heredoc : Heredoc) (newline : LineBreak) : Lexeme where
  kind := heredoc.mark.kind
  length := (heredoc.text newline).length
  value := heredoc.mark.value
  bytes := heredoc.mark.bytes
  flags := { heredoc := true }

theorem lexeme_eq (newline : LineBreak) : heredoc.lexeme newline =
    if heredoc.quote = .single then
      .ofBytes (heredoc.text newline).length (Utf8.encode heredoc.body) { heredoc := true } none
    else if hasInterpolation heredoc.body then
      { kind := .interpolatedString, length := (heredoc.text newline).length
        value := String.ofList heredoc.body, flags := { heredoc := true } }
    else
      .ofBytes (heredoc.text newline).length (decodeEscapes none heredoc.body)
        { heredoc := true } none := by
  unfold lexeme mark
  split
  · rfl
  split <;> rfl

theorem append_eq (newline : LineBreak) (after : Text) :
    heredoc.text newline ++ after = heredoc.opening newline ++
      (heredoc.lines.flatMap (· ++ newline.text) ++ (heredoc.closing ++ after)) := by
  simp only [text, List.append_assoc]

theorem head?_closing_ne (after : Text) : (heredoc.closing ++ after).head? ≠ some '\n' := by
  obtain ⟨c, text, spelled, start⟩ := heredoc.label.exists_cons
  rw [closing, spelled]
  cases blank : heredoc.indent with
  | nil =>
      rintro ⟨⟩
      cases start
  | cons d indent =>
      have first := heredoc.indent_blank d (by rw [blank]; exact List.mem_cons_self)
      rintro ⟨⟩
      cases first

theorem lexToken_text {after : Text} (feeds : newline ≠ .cr ∨ heredoc.lines = [])
    (ends : ∀ c ∈ after.head?, isNamePart c = false) :
    lexToken (heredoc.text newline ++ after) = heredoc.lexeme newline := by
  obtain ⟨ending, returns, same⟩ : ∃ ending, (ending = [] ∨ ending = ['\r']) ∧
      heredoc.lines.flatMap (· ++ newline.text) =
        heredoc.lines.flatMap (· ++ (ending ++ ['\n'])) := by
    cases newline with
    | lf => exact ⟨[], .inl rfl, rfl⟩
    | crlf => exact ⟨['\r'], .inr rfl, rfl⟩
    | cr => exact ⟨[], .inl rfl, by rw [feeds.resolve_left (absurd rfl)]; rfl⟩
  have broken : lineEndLength (newline.text ++
      (heredoc.lines.flatMap (· ++ newline.text) ++ (heredoc.closing ++ after))) =
        newline.text.length := by
    refine lineEndLength_text fun returns => ?_
    rw [feeds.resolve_left (absurd returns)]
    exact heredoc.head?_closing_ne after
  have length : (heredoc.text newline).length = (heredoc.opening newline).length +
      ((heredoc.lines.flatMap (· ++ (ending ++ ['\n']))).length + heredoc.closing.length) := by
    rw [text, List.length_append, List.length_append, same, Nat.add_assoc]
  rw [append_eq, heredoc.lexToken_read broken, same, heredoc.lines_read returns ends, lexeme_eq,
    length]

/-- All lines are one, which nothing closes. -/
theorem lexToken_text_cr {after : Text} (lines : heredoc.lines ≠ []) (single : '\n' ∉ after) :
    lexToken (heredoc.text .cr ++ after) =
      .ofBytes (heredoc.text .cr ++ after).length [] { unterminated := true, heredoc := true }
        (some "Unterminated heredoc") := by
  let rest := heredoc.lines.flatMap (· ++ LineBreak.cr.text) ++ (heredoc.closing ++ after)
  have unbroken : '\n' ∉ rest := by
    simp only [rest, List.mem_append, List.mem_flatMap, not_or, not_exists, not_and]
    refine ⟨fun line listed => ⟨(heredoc.unbroken line listed).1, by decide⟩, ?_, single⟩
    exact heredoc.feed_not_mem_closing
  have broken : lineEndLength (LineBreak.cr.text ++ rest) = LineBreak.cr.text.length :=
    lineEndLength_text fun _ first => unbroken (List.mem_of_head? first)
  have endless : HeredocBody.read? heredoc.label.text (rest.splitOn '\n') = none := by
    rw [List.splitOn_eq_singleton unbroken]
    refine HeredocBody.read?_of_open (List.forall_mem_singleton.mpr ?_)
    refine Word.closingIndent?_eq_none_iff.mpr ?_
    obtain ⟨line, others, split⟩ := List.exists_cons_of_ne_nil lines
    have first : rest = line ++ '\r' ::
        (others.flatMap (· ++ LineBreak.cr.text) ++ (heredoc.closing ++ after)) := by
      simp [rest, split, LineBreak.text]
    rw [first]
    exact fun closes => heredoc.inside line (split ▸ List.mem_cons_self) closes.of_carriageReturn
  rw [append_eq, heredoc.lexToken_read broken, endless]

/-- The token is the whole heredoc, and nothing is wrong with it. -/
structure IsRead (heredoc : Heredoc) (newline : LineBreak) (token : Token) : Prop where
  mark : token.mark = heredoc.mark
  flags : token.flags = { heredoc := true }
  lexeme : token.lexeme = heredoc.text newline
  problems : token.problems = []

/-- The token is the whole text from an offset on, and a heredoc that nothing closes. -/
structure RunsOn (text : Text) (pos : Nat) (token : Token) : Prop where
  mark : token.mark = ⟨.stringLiteral, "", []⟩
  flags : token.flags = { unterminated := true, heredoc := true }
  lexeme : token.lexeme = text
  problems : token.problems = [⟨"Unterminated heredoc", pos⟩]

end Heredoc

theorem Scanner.next_heredoc (heredoc : Heredoc) (newline : LineBreak) (after : Text) (pos : Nat) :
    let scanner : Scanner := { rest := heredoc.text newline ++ after, pos, inCode := true }
    scanner.next = scanner.takeToken [] := by
  intro scanner
  refine ReadsAs.next_eq_takeToken rfl ?_
  simp [scanner, Heredoc.text, Heredoc.opening, frontOf, isSeparatorSpace]

/-- What a token has from its lexeme. -/
theorem Scanner.takeToken_lexed (pos : Nat) {text : Text} {lexeme : Lexeme}
    (lexes : lexToken text = lexeme) :
    let token := (takeToken { rest := text, pos, inCode := true } []).1
    token.mark = ⟨lexeme.kind, lexeme.value, lexeme.bytes⟩ ∧ token.flags = lexeme.flags ∧
      token.lexeme = text.take lexeme.length ∧
      token.problems = lexeme.problem.toList.map fun message => ⟨message, pos⟩ := by
  subst lexes
  exact ⟨rfl, rfl, rfl, rfl⟩

/-- A heredoc has the same contents with line feeds after its lines as with carriage returns
before those. Carriage returns alone end the line of its opening and no other one: then a
heredoc of any lines runs on through the end of the text. -/
theorem heredoc_lines_end_with_line_feeds (heredoc : Heredoc) {after : Text}
    (ends : ∀ c ∈ after.head?, isNamePart c = false) (pos : Nat) :
    let text (newline : LineBreak) := heredoc.text newline ++ after
    let token (newline : LineBreak) :=
      (Scanner.next { rest := text newline, pos, inCode := true }).1
    (∀ newline, newline ≠ .cr ∨ heredoc.lines = [] → heredoc.IsRead newline (token newline)) ∧
    (heredoc.lines ≠ [] → '\n' ∉ after → Heredoc.RunsOn (text .cr) pos (token .cr)) := by
  intro text token
  constructor
  · intro newline feeds
    obtain ⟨mark, flags, taken, problems⟩ :=
      Scanner.takeToken_lexed pos (heredoc.lexToken_text feeds ends)
    simp only [token, text]
    rw [Scanner.next_heredoc]
    exact ⟨mark, flags, taken.trans List.take_left, problems⟩
  · intro lines single
    obtain ⟨mark, flags, taken, problems⟩ :=
      Scanner.takeToken_lexed pos (heredoc.lexToken_text_cr lines single)
    simp only [token, text]
    rw [Scanner.next_heredoc]
    exact ⟨mark, flags, taken.trans List.take_length, problems⟩

theorem heredoc_with_carriage_returns_runs_on :
    let token (text : Text) := (Scanner.next { rest := text, inCode := true }).1
    (∀ c ∈ ([] : Text).head?, isNamePart c = false) ∧ [['x']] ≠ ([] : List Text) ∧
    (token "<<<L\nx\nL".toList).mark = ⟨.stringLiteral, "x", [0x78]⟩ ∧
    (token "<<<L\r\nx\r\nL".toList).mark = ⟨.stringLiteral, "x", [0x78]⟩ ∧
    (token "<<<L\rx\rL".toList).mark = ⟨.stringLiteral, "", []⟩ ∧
    (token "<<<L\rx\rL".toList).flags = { unterminated := true, heredoc := true } := by
  intro token
  let heredoc : Heredoc := {
    label := ⟨['L'], rfl, rfl⟩
    lines := [['x']]
    gap_blank := List.forall_mem_nil _
    indent_blank := List.forall_mem_nil _
    unbroken := by decide
    inside := List.forall_mem_singleton.mpr (Word.closingIndent?_eq_none_iff.mp (by decide)) }
  have mark : heredoc.mark = ⟨.stringLiteral, "x", [0x78]⟩ := by decide +kernel
  have ends : ∀ c ∈ ([] : Text).head?, isNamePart c = false := nofun
  obtain ⟨feeds, returns⟩ := heredoc_lines_end_with_line_feeds heredoc ends 0
  have endless := returns nofun nofun
  exact ⟨ends, nofun, (feeds .lf (.inl nofun)).mark.trans mark,
    (feeds .crlf (.inl nofun)).mark.trans mark, endless.mark, endless.flags⟩

end StaticReflection
