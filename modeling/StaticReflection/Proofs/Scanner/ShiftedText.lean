import StaticReflection.Proofs.Scanner.DocComments
import StaticReflection.Proofs.Scanner.TokenContext

namespace StaticReflection

/-! A scanner further on in a text reads the same tokens further on. Offsets are only ever
carried along, so that what stands before a text moves all of its tokens by one distance. -/

def Span.shift (distance : Nat) (span : Span) : Span :=
  ⟨span.start + distance, span.stop + distance⟩

def DocComment.shift (distance : Nat) (comment : DocComment) : DocComment :=
  { comment with span := comment.span.shift distance }

def ScanProblem.shift (distance : Nat) (problem : ScanProblem) : ScanProblem :=
  { problem with pos := problem.pos + distance }

/-- The token further on. Nothing but offsets changes. -/
def Token.shift (distance : Nat) (token : Token) : Token :=
  { token with
    span := token.span.shift distance
    doc := token.doc.map (DocComment.shift distance)
    problems := token.problems.map (ScanProblem.shift distance) }

namespace Scanner

def shift (distance : Nat) (scanner : Scanner) : Scanner :=
  { scanner with
    pos := scanner.pos + distance
    pendingDoc := scanner.pendingDoc.map (DocComment.shift distance) }

/-- What was read, and the place after it, further on. -/
def shiftRead (distance : Nat) : Token × Scanner → Token × Scanner :=
  Prod.map (Token.shift distance) (shift distance)

variable {distance : Nat} {problems : List ScanProblem}

section Moves

variable (scanner : Scanner)

@[simp] theorem shift_rest : (scanner.shift distance).rest = scanner.rest := rfl

@[simp] theorem shift_inCode : (scanner.shift distance).inCode = scanner.inCode := rfl

theorem skip_shift (length : Nat) :
    (scanner.shift distance).skip length = (scanner.skip length).shift distance := by
  simp only [skip, shift, Nat.add_right_comm]

theorem skipComment_shift (length : Nat) (isDoc : Bool) :
    (scanner.shift distance).skipComment length isDoc =
      (scanner.skipComment length isDoc).shift distance := by
  cases isDoc with
  | false => exact scanner.skip_shift length
  | true =>
      simp only [skipComment, skip_shift, if_true]
      rfl

theorem unterminated_shift (closed : Bool) :
    problems.map (ScanProblem.shift distance) ++ (if closed then [] else
      [ScanProblem.mk "Unterminated comment" (scanner.shift distance).pos]) =
    (problems ++ if closed then [] else
      [ScanProblem.mk "Unterminated comment" scanner.pos]).map (ScanProblem.shift distance) := by
  cases closed <;> simp [ScanProblem.shift, shift]

theorem take_shift (kind : TokenKind) (length : Nat) (value : String) :
    (scanner.shift distance).take kind length value (problems.map (ScanProblem.shift distance)) =
      shiftRead distance (scanner.take kind length value problems) := by
  simp only [take, skip_shift]
  rfl

theorem takeToken_shift :
    (scanner.shift distance).takeToken (problems.map (ScanProblem.shift distance)) =
      shiftRead distance (scanner.takeToken problems) := by
  simp only [takeToken, take, skip, shift, shiftRead, Token.shift, Span.shift, Prod.map_apply,
    List.map_append, List.map_map, Option.map_none, Nat.add_right_comm]
  rfl

end Moves

/-- The next token, if both sides have the fuel for it. -/
theorem nextFrom_shift {scanner : Scanner} {fuel more : Nat} (problems : List ScanProblem)
    (enough : scanner.steps ≤ fuel) (enoughToo : scanner.steps ≤ more) :
    (scanner.shift distance).nextFrom more (problems.map (ScanProblem.shift distance)) =
      shiftRead distance (scanner.nextFrom fuel problems) := by
  induction fuel generalizing scanner more problems with
  | zero => exact absurd enough (Nat.not_le.mpr scanner.steps_pos)
  | succ fuel ih =>
      obtain ⟨more, rfl⟩ : ∃ fewer, more = fewer + 1 :=
        Nat.exists_eq_add_one.mpr (Nat.lt_of_lt_of_le scanner.steps_pos enoughToo)
      simp only [steps] at enough enoughToo
      cases code : scanner.inCode with
      | false =>
          simp only [code, Bool.false_eq_true, if_false] at enough enoughToo
          simp only [nextFrom, shift_rest, shift_inCode, skip_shift, code, Bool.not_false, if_true]
          cases tag : findOpenTag 0 scanner.rest with
          | none => exact take_shift _ _ _ _
          | code length =>
              let entered : Scanner := { scanner.skip length with inCode := true }
              have fewer : entered.steps ≤ scanner.rest.length + 1 := by
                simp only [entered, steps, skip, List.length_drop, if_true]
                omega
              have read : (entered.shift distance).nextFrom more (problems.map _) = _ :=
                ih problems (Nat.le_trans fewer (by omega)) (Nat.le_trans fewer (by omega))
              exact read
          | echo before => exact take_shift { scanner.skip before with inCode := true } _ _ _
      | true =>
          simp only [code, if_true] at enough enoughToo
          simp only [nextFrom, shift_rest, shift_inCode, skip_shift, skipComment_shift, code,
            Bool.not_true, Bool.false_eq_true, if_false]
          have fits := frontOf_fits scanner.rest
          cases front : frontOf scanner.rest with
          | done => exact take_shift _ _ _ _
          | blank length =>
              rw [front] at fits
              have shorter := length_skip_lt fits.1 fits.2
              refine ih _ ?_ ?_ <;>
              · simp only [steps, skip, code, if_true] at shorter ⊢
                omega
          | blockComment length closed isDoc =>
              rw [front] at fits
              have shorter := length_skip_lt fits.1 fits.2
              dsimp only
              rw [unterminated_shift]
              refine ih _ ?_ ?_ <;>
              · simp only [steps, skipComment_rest, skipComment_inCode, code, if_true]
                omega
          | closeTag length => exact take_shift { scanner with inCode := false } _ _ _
          | token => exact scanner.takeToken_shift

theorem next_shift (scanner : Scanner) :
    (scanner.shift distance).next = shiftRead distance scanner.next :=
  nextFrom_shift [] scanner.steps_le scanner.steps_le

theorem tokensFrom_shift {scanner : Scanner} {fuel more : Nat}
    (enough : scanner.rest.length < fuel) (enoughToo : scanner.rest.length < more) :
    (scanner.shift distance).tokensFrom more =
      (scanner.tokensFrom fuel).map (Token.shift distance) := by
  induction fuel generalizing scanner more with
  | zero => omega
  | succ fuel ih =>
      obtain ⟨more, rfl⟩ : ∃ fewer, more = fewer + 1 := ⟨more - 1, by omega⟩
      have reads := scanner.next_reads
      simp only [tokensFrom, next_shift]
      change (if scanner.next.1.kind = .endOfFile then _ else
        _ :: (scanner.next.2.shift distance).tokensFrom more) = _
      split
      · rfl
      · rename_i inside
        have shorter := reads.taken inside
        rw [ih (by omega) (by omega)]
        rfl

/-- After the tag, what is read is what a text inside the tags is read as, further on. -/
theorem next_after_openTag (text : Text) :
    Scanner.next { rest := openTag ++ text } =
      shiftRead (Text.byteSize openTag) (Scanner.next { rest := text, inCode := true }) := by
  have found : findOpenTag 0 (openTag ++ text) = .code 6 := findOpenTag_openTag [] text nofun 0
  have passed : { Scanner.skip { rest := openTag ++ text } 6 with inCode := true } =
      Scanner.shift (Text.byteSize openTag) { rest := text, inCode := true } := rfl
  rw [next, nextFrom]
  simp only [found, Bool.not_false, if_true]
  rw [passed]
  refine nextFrom_shift [] (steps_le _) ?_
  simp [steps, openTag]

end Scanner

namespace TokenReader

def shift (distance : Nat) (reader : TokenReader) : TokenReader where
  scanner := reader.scanner.shift distance
  current := reader.current.shift distance
  problems := reader.problems.map (ScanProblem.shift distance)

theorem advance_shift (distance : Nat) (reader : TokenReader) :
    (reader.shift distance).advance = reader.advance.shift distance := by
  simp only [advance, shift, Scanner.next_shift, List.map_append]
  rfl

end TokenReader

open TokenReader in
/-- A text after an opening tag is read as the text inside the tags is, six bytes further on: the
same tokens with the same problems, and after every number of scans the same reader. -/
theorem open_tag_shifts_tokens (text : Text) :
    tokenize (openTag ++ text) =
      (Scanner.tokens { rest := text, inCode := true }).map (Token.shift 6) ∧
    ∀ count, advance^[count + 1] (ofText (openTag ++ text) false) =
      (advance^[count + 1] (ofText text true)).shift 6 := by
  have next := Scanner.next_after_openTag text
  have first : (ofText (openTag ++ text) false).advance = (ofText text true).advance.shift 6 := by
    simp only [advance, ofText, next]
    rfl
  constructor
  · have opening : tokenize (openTag ++ text) = Scanner.tokensFrom ((openTag ++ text).length + 1)
        (Scanner.shift 6 { rest := text, inCode := true }) := by
      unfold tokenize Scanner.tokens
      rw [Scanner.tokensFrom, Scanner.tokensFrom, next, Scanner.next_shift]
      rfl
    rw [opening]
    refine Scanner.tokensFrom_shift (Nat.lt_succ_self _) ?_
    change text.length < _
    rw [List.length_append]
    omega
  · intro count
    have commutes : Function.Semiconj (shift 6) advance advance := fun reader =>
      (advance_shift 6 reader).symm
    rw [Function.iterate_succ_apply, Function.iterate_succ_apply, first]
    exact (commutes.iterate_right count _).symm

end StaticReflection
