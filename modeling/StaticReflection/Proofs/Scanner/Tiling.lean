import Mathlib.Logic.Function.Iterate
import StaticReflection.Proofs.Scanner.WholeText

namespace StaticReflection

/-! Tokens tile a text: each is cut out of it between two characters, after the one
before, and the end is reached and stays. -/

namespace Text

@[simp] theorem byteSize_nil : byteSize [] = 0 := rfl

@[simp] theorem byteSize_cons (c : Char) (text : Text) :
    byteSize (c :: text) = c.utf8Size + byteSize text := by
  rw [byteSize, List.foldl_cons, foldl_utf8Size, Nat.zero_add]

theorem length_le_byteSize (text : Text) : text.length ≤ byteSize text := by
  induction text with
  | nil => exact Nat.le_refl _
  | cons c text ih =>
      have size := c.utf8Size_pos
      rw [List.length_cons, byteSize_cons]
      omega

theorem dropBytes_byteSize (before after : Text) :
    dropBytes (byteSize before) (before ++ after) = after := by
  induction before with
  | nil => cases after <;> rfl
  | cons c before ih =>
      obtain ⟨more, size⟩ : ∃ more, c.utf8Size = more + 1 :=
        ⟨c.utf8Size - 1, by have := c.utf8Size_pos; omega⟩
      rw [byteSize_cons, size, Nat.add_right_comm]
      simp only [List.cons_append, dropBytes]
      rw [size, show more + byteSize before + 1 - (more + 1) = byteSize before by omega, ih]

theorem takeBytes_byteSize (text after : Text) :
    takeBytes (byteSize text) (text ++ after) = text := by
  induction text with
  | nil => cases after <;> rfl
  | cons c text ih =>
      obtain ⟨more, size⟩ : ∃ more, c.utf8Size = more + 1 :=
        ⟨c.utf8Size - 1, by have := c.utf8Size_pos; omega⟩
      rw [byteSize_cons, size, Nat.add_right_comm]
      simp only [List.cons_append, takeBytes]
      rw [size, show more + byteSize text + 1 - (more + 1) = byteSize text by omega, ih]

theorem slice_of_append (before middle after : Text) :
    slice (before ++ middle ++ after) (byteSize before) (byteSize (before ++ middle)) =
      middle := by
  rw [slice, byteSize_append, Nat.add_sub_cancel_left, List.append_assoc, dropBytes_byteSize,
    takeBytes_byteSize]

end Text

/-! One token. -/

/-- The token is a part of the text, and its span says which. -/
def Token.CutFrom (token : Token) (text : Text) : Prop :=
  ∃ before after, text = before ++ token.lexeme ++ after ∧
    token.span = ⟨Text.byteSize before, Text.byteSize (before ++ token.lexeme)⟩

namespace Token.CutFrom

variable {token : Token} {text : Text} (cut : token.CutFrom text)
include cut

theorem slice_eq : text.slice token.span.start token.span.stop = token.lexeme := by
  obtain ⟨before, after, whole, span⟩ := cut
  rw [whole, span]
  exact Text.slice_of_append before token.lexeme after

theorem start_add : token.span.start + Text.byteSize token.lexeme = token.span.stop := by
  obtain ⟨before, after, -, span⟩ := cut
  rw [span, Text.byteSize_append]

theorem stop_le : token.span.stop ≤ text.byteSize := by
  obtain ⟨before, after, whole, span⟩ := cut
  rw [whole, span, Text.byteSize_append (before ++ token.lexeme)]
  exact Nat.le_add_right _ _

theorem start_lt (nonempty : token.lexeme ≠ []) : token.span.start < token.span.stop := by
  have count := Text.length_le_byteSize token.lexeme
  have pos := List.length_pos_iff.mpr nonempty
  have sum := cut.start_add
  omega

end Token.CutFrom

namespace Scanner

/-- The scanner stands between two characters of the text, or at one of its ends. -/
def StandsIn (scanner : Scanner) (text : Text) : Prop :=
  ∃ before, text = before ++ scanner.rest ∧ scanner.pos = Text.byteSize before

variable {text : Text} {scanner middle next : Scanner} {token : Token}

theorem StandsIn.skip (stands : scanner.StandsIn text) (length : Nat) :
    (scanner.skip length).StandsIn text := by
  obtain ⟨before, whole, pos⟩ := stands
  refine ⟨before ++ scanner.rest.take length, ?_, ?_⟩
  · simp only [Scanner.skip, List.append_assoc, List.take_append_drop]
    exact whole
  · rw [Text.byteSize_append, ← pos]
    rfl

theorem pos_le_skip (scanner : Scanner) (length : Nat) :
    scanner.pos ≤ (scanner.skip length).pos :=
  Nat.le_add_right _ _

/-- A token is cut out of the text from the scanner's place on, and the next place is its
end. -/
structure Cuts (scanner : Scanner) (text : Text) (token : Token) (next : Scanner) : Prop where
  stands : next.StandsIn text
  cut : token.CutFrom text
  onward : scanner.pos ≤ token.span.start
  stop : next.pos = token.span.stop
  inside : token.kind ≠ .endOfFile → token.lexeme ≠ []

theorem Cuts.after (cuts : middle.Cuts text token next) (onward : scanner.pos ≤ middle.pos) :
    scanner.Cuts text token next :=
  { cuts with onward := Nat.le_trans onward cuts.onward }

theorem StandsIn.take (stands : scanner.StandsIn text) (kind : TokenKind) (length : Nat)
    (taken : kind ≠ .endOfFile → scanner.rest.take length ≠ []) (value : String)
    (problems : List ScanProblem) :
    scanner.Cuts text (scanner.take kind length value problems).1
      (scanner.take kind length value problems).2 where
  stands := stands.skip length
  cut := by
    obtain ⟨before, whole, pos⟩ := stands
    refine ⟨before, scanner.rest.drop length, ?_, ?_⟩
    · simp only [Scanner.take, List.append_assoc, List.take_append_drop]
      exact whole
    · simp only [Scanner.take, Scanner.skip, Text.byteSize_append, pos]
  onward := Nat.le_refl _
  stop := rfl
  inside := taken

theorem take_ne_nil {length : Nat} (taken : 0 < length) (more : scanner.rest ≠ []) :
    scanner.rest.take length ≠ [] := by
  simp only [ne_eq, List.take_eq_nil_iff, not_or]
  exact ⟨Nat.ne_of_gt taken, more⟩

theorem StandsIn.takeToken (stands : scanner.StandsIn text) (more : scanner.rest ≠ [])
    (problems : List ScanProblem) :
    scanner.Cuts text (scanner.takeToken problems).1 (scanner.takeToken problems).2 := by
  obtain ⟨c, rest, front⟩ := List.exists_cons_of_ne_nil more
  have proper := lexToken_proper c rest
  rw [← front] at proper
  obtain ⟨stands, cut, onward, stop, inside⟩ :=
    stands.take (lexToken scanner.rest).kind _ (fun _ => take_ne_nil proper.taken more) "" []
  exact ⟨stands, cut, onward, stop, inside⟩

theorem nextFrom_cuts (stands : scanner.StandsIn text) (fuel : Nat)
    (problems : List ScanProblem) :
    scanner.Cuts text (scanner.nextFrom fuel problems).1 (scanner.nextFrom fuel problems).2 := by
  fun_induction nextFrom fuel scanner problems with
  | case1 scanner problems => exact stands.take _ _ (fun inside => absurd rfl inside) "" problems
  | case2 fuel scanner problems outside unfound =>
      have ended := (stands.skip scanner.rest.length).take .endOfFile 0
        (fun inside => absurd rfl inside) "" problems
      exact ended.after (pos_le_skip _ _)
  | case3 fuel scanner problems outside length tag ih =>
      exact (ih (stands.skip length)).after (pos_le_skip scanner length)
  | case4 fuel scanner problems outside before tag =>
      have inside := (findOpenTag_echo tag).2
      have entered : StandsIn { scanner.skip before with inCode := true } text :=
        stands.skip before
      refine (entered.take _ _ (fun _ => take_ne_nil (by decide) ?_) "echo" problems).after
        (pos_le_skip scanner before)
      simp only [skip, ne_eq, List.drop_eq_nil_iff]
      omega
  | case5 fuel scanner problems inCode done =>
      exact stands.take _ _ (fun inside => absurd rfl inside) "" problems
  | case6 fuel scanner problems inCode length blank ih =>
      exact (ih (stands.skip length)).after (pos_le_skip scanner length)
  | case7 fuel scanner problems inCode length closed isDoc comment problem ih =>
      have passed : (scanner.skipComment length isDoc).StandsIn text := by
        simpa only [StandsIn, skipComment_rest, skipComment_pos] using stands.skip length
      refine (ih passed).after ?_
      rw [skipComment_pos]
      exact pos_le_skip scanner length
  | case8 fuel scanner problems inCode length tag =>
      have fits := frontOf_fits scanner.rest
      rw [tag] at fits
      have left : StandsIn { scanner with inCode := false } text := stands
      exact (left.take _ _ (fun _ => take_ne_nil fits.2 fits.1) "" problems).after (Nat.le_refl _)
  | case9 fuel scanner problems inCode front =>
      have fits := frontOf_fits scanner.rest
      rw [front] at fits
      exact stands.takeToken fits problems

theorem next_cuts (stands : scanner.StandsIn text) :
    scanner.Cuts text scanner.next.1 scanner.next.2 :=
  nextFrom_cuts stands _ _

/-- The end is marked at the end of the text. -/
theorem Cuts.span_of_endOfFile (cuts : scanner.Cuts text token next)
    (reads : scanner.Reads token next) (ended : token.kind = .endOfFile) :
    token.span = ⟨text.byteSize, text.byteSize⟩ := by
  obtain ⟨finished, start⟩ := reads.ended ended
  obtain ⟨before, whole, pos⟩ := cuts.stands
  rw [finished, List.append_nil] at whole
  rw [← whole] at pos
  have stop := cuts.stop
  cases span : token.span with
  | mk first last =>
      rw [span] at start stop
      dsimp only at start stop
      rw [start, ← stop, pos]

end Scanner

/-! Spans of tokens one after the other. -/

/-- The tokens stand one after the other between two offsets. -/
def Tiles (limit : Nat) : Nat → List Token → Prop
  | offset, [] => offset ≤ limit
  | offset, token :: tokens =>
      offset ≤ token.span.start ∧ token.span.start ≤ token.span.stop ∧
        Tiles limit token.span.stop tokens

theorem Scanner.tokensFrom_tiles {scanner : Scanner} {text : Text}
    (stands : scanner.StandsIn text) (fuel : Nat) :
    Tiles text.byteSize scanner.pos (scanner.tokensFrom fuel) := by
  induction fuel generalizing scanner with
  | zero =>
      obtain ⟨before, whole, pos⟩ := stands
      rw [tokensFrom, Tiles, pos, whole, Text.byteSize_append]
      exact Nat.le_add_right _ _
  | succ fuel ih =>
      have cuts := next_cuts stands
      have ordered : scanner.next.1.span.start ≤ scanner.next.1.span.stop := by
        have sum := cuts.cut.start_add
        omega
      unfold tokensFrom
      dsimp only
      split
      · exact ⟨cuts.onward, ordered, cuts.cut.stop_le⟩
      · exact ⟨cuts.onward, ordered, cuts.stop ▸ ih cuts.stands⟩

theorem tokenize_tiles (text : Text) : Tiles text.byteSize 0 (tokenize text) :=
  have stands : Scanner.StandsIn { rest := text } text := ⟨[], rfl, rfl⟩
  Scanner.tokensFrom_tiles stands _

/-! Scanning on and on. -/

namespace TokenReader

/-- A reader before the first token of a text, inside the tags or outside of them. -/
def ofText (text : Text) (inCode : Bool) : TokenReader :=
  { scanner := { rest := text, inCode } }

/-- The token that the scan of a number reads, counted from zero. -/
def scan (reader : TokenReader) (count : Nat) : Token :=
  (advance^[count + 1] reader).current

theorem scan_eq (reader : TokenReader) (count : Nat) :
    reader.scan count = (advance^[count] reader).scanner.next.1 := by
  rw [scan, Function.iterate_succ_apply']
  rfl

theorem scanner_succ (reader : TokenReader) (count : Nat) :
    (advance^[count + 1] reader).scanner = (advance^[count] reader).scanner.next.2 := by
  rw [Function.iterate_succ_apply']
  rfl

variable {reader : TokenReader} {text : Text}

theorem stands_scan (stands : reader.scanner.StandsIn text) (count : Nat) :
    (advance^[count] reader).scanner.StandsIn text := by
  induction count with
  | zero => exact stands
  | succ count ih =>
      rw [scanner_succ]
      exact (Scanner.next_cuts ih).stands

theorem cuts_scan (stands : reader.scanner.StandsIn text) (count : Nat) :
    (advance^[count] reader).scanner.Cuts text (reader.scan count)
      (advance^[count + 1] reader).scanner := by
  rw [scan_eq, scanner_succ]
  exact Scanner.next_cuts (stands_scan stands count)

theorem reads_scan (reader : TokenReader) (count : Nat) :
    (advance^[count] reader).scanner.Reads (reader.scan count)
      (advance^[count + 1] reader).scanner := by
  rw [scan_eq, scanner_succ]
  exact Scanner.next_reads _

/-- Each scan before the end takes a character at least. -/
theorem exists_endOfFile (reader : TokenReader) :
    ∃ count, count ≤ reader.scanner.rest.length ∧ (reader.scan count).kind = .endOfFile ∧
      ∀ earlier < count, (reader.scan earlier).kind ≠ .endOfFile := by
  generalize size : reader.scanner.rest.length = left
  induction left using Nat.strongRecOn generalizing reader with
  | ind left ih =>
      have reads := reads_scan reader 0
      by_cases ended : (reader.scan 0).kind = .endOfFile
      · exact ⟨0, Nat.zero_le _, ended, nofun⟩
      · have shorter : reader.advance.scanner.rest.length < left := size ▸ reads.taken ended
        obtain ⟨count, bound, last, before⟩ := ih _ shorter reader.advance rfl
        refine ⟨count + 1, by omega, last, fun earlier less => ?_⟩
        cases earlier with
        | zero => exact ended
        | succ earlier => exact before earlier (Nat.lt_of_succ_lt_succ less)

theorem endOfFile_succ {count : Nat} (ended : (reader.scan count).kind = .endOfFile) :
    (reader.scan (count + 1)).kind = .endOfFile := by
  by_contra inside
  have finished := ((reads_scan reader count).ended ended).1
  have shorter := (reads_scan reader (count + 1)).taken inside
  rw [finished] at shorter
  exact Nat.not_lt_zero _ shorter

end TokenReader

open TokenReader in
/-- The scans of a text, whether they begin inside the tags or outside. Every token is the
part of the text between two characters that its span gives, none starts before the end of
the one before it, and only the end of the file is empty. The end is reached within as many
scans as the text has bytes and one more, and every later scan finds it in the same place. -/
theorem tokens_tile (text : Text) (inCode : Bool) :
    let token := (TokenReader.ofText text inCode).scan
    (∀ count, (token count).CutFrom text ∧
      text.slice (token count).span.start (token count).span.stop = (token count).lexeme ∧
      (token count).span.stop ≤ text.byteSize ∧
      (token count).span.stop ≤ (token (count + 1)).span.start ∧
      ((token count).kind ≠ .endOfFile → (token count).span.start < (token count).span.stop)) ∧
    ∃ last, last ≤ text.byteSize ∧
      (∀ count < last, (token count).kind ≠ .endOfFile) ∧
      ∀ count ≥ last, (token count).kind = .endOfFile ∧
        (token count).span = ⟨text.byteSize, text.byteSize⟩ := by
  intro token
  have stands : (ofText text inCode).scanner.StandsIn text := ⟨[], rfl, rfl⟩
  refine ⟨fun count => ?_, ?_⟩
  · have cuts := cuts_scan stands count
    have later := cuts_scan stands (count + 1)
    exact ⟨cuts.cut, cuts.cut.slice_eq, cuts.cut.stop_le, cuts.stop ▸ later.onward,
      fun inside => cuts.cut.start_lt (cuts.inside inside)⟩
  · obtain ⟨last, bound, ended, before⟩ := exists_endOfFile (ofText text inCode)
    refine ⟨last, Nat.le_trans bound (Text.length_le_byteSize text), before, fun count later => ?_⟩
    have again : (token count).kind = .endOfFile := by
      induction later with
      | refl => exact ended
      | step _ ih => exact endOfFile_succ ih
    exact ⟨again, (cuts_scan stands count).span_of_endOfFile (reads_scan _ count) again⟩

end StaticReflection
