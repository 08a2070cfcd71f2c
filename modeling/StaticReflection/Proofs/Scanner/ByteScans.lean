import StaticReflection.Proofs.Scanner.ByteSeparators

namespace StaticReflection

/-! The scanner on bytes reads the tokens of the scanner on characters, at the same places, and
all that it cuts out of the text is there to be cut. -/

open Text

def DocComment.inBytes (doc : DocComment) : UInt32 × UInt32 :=
  (.ofNat doc.span.start, .ofNat doc.span.stop)

def ScanProblem.inBytes (problem : ScanProblem) : String × UInt32 :=
  (problem.message, .ofNat problem.pos)

/-- A token as the scanner on bytes reads it. -/
def Token.inBytes (token : Token) : ByteToken where
  kind := token.kind
  start := token.span.start
  stop := token.span.stop
  value := token.value
  bytes := token.bytes
  flags := token.flags
  doc := token.doc.map (·.inBytes)
  problems := token.problems.map (·.inBytes)

namespace Scanner

/-- The scanner at the same place in the bytes of the text. -/
def inBytes (scanner : Scanner) (bytes : List UInt8) : ByteScanner where
  bytes := bytes
  pos := scanner.pos
  inCode := scanner.inCode
  pendingDoc := scanner.pendingDoc.map (·.inBytes)

variable {scanner : Scanner} {bytes : List UInt8}

theorem inBytes_skip (scanner : Scanner) (bytes : List UInt8) (length : Nat) :
    (scanner.inBytes bytes).skip (width scanner.rest length) =
      (scanner.skip length).inBytes bytes :=
  rfl

theorem inBytes_take (scanner : Scanner) (bytes : List UInt8) (kind : TokenKind) (length : Nat)
    (value : String) (problems : List ScanProblem) :
    (scanner.inBytes bytes).take kind (width scanner.rest length) value
        (problems.map (·.inBytes)) =
      ((scanner.take kind length value problems).1.inBytes,
        (scanner.take kind length value problems).2.inBytes bytes) :=
  rfl

theorem inBytes_skipComment (scanner : Scanner) (bytes : List UInt8) (length : Nat)
    (isDoc : Bool) :
    (scanner.inBytes bytes).skipComment (width scanner.rest length) isDoc =
      (scanner.skipComment length isDoc).inBytes bytes := by
  cases isDoc <;> rfl

variable (here : RestAt bytes scanner.pos scanner.rest)

include here

theorem inBytes_ahead : (scanner.inBytes bytes).ahead = shown scanner.rest :=
  here.ahead_eq

theorem inBytes_takeToken (more : scanner.rest ≠ []) (problems : List ScanProblem) :
    (scanner.inBytes bytes).takeToken? (problems.map (·.inBytes)) =
      some ((scanner.takeToken problems).1.inBytes,
        (scanner.takeToken problems).2.inBytes bytes) := by
  have lexeme : byteToken? (scanner.inBytes bytes).bytes (scanner.inBytes bytes).pos =
      some ((lexToken scanner.rest).inBytes scanner.rest) := byteToken?_eq here more
  have found : problems.map (·.inBytes) ++ (lexToken scanner.rest).problem.toList.map
      (fun message => (message, UInt32.ofNat scanner.pos)) =
        (problems ++ (lexToken scanner.rest).problem.toList.map
          fun message => ScanProblem.mk message scanner.pos).map ScanProblem.inBytes := by
    rw [List.map_append, List.map_map]
    rfl
  rw [ByteScanner.takeToken?, lexeme]
  exact congrArg some (Prod.ext (congrArg (fun problems =>
    { (scanner.takeToken []).1.inBytes with problems }) found) rfl)

theorem inBytes_nextWithin {fuel rounds : Nat}
    (enough : scanner.rest.length + (if scanner.inCode then 1 else 2) ≤ fuel)
    (fits : fuel ≤ rounds) (problems : List ScanProblem) :
    (scanner.inBytes bytes).nextWithin? rounds (problems.map (·.inBytes)) =
      some ((scanner.nextFrom fuel problems).1.inBytes,
        (scanner.nextFrom fuel problems).2.inBytes bytes) := by
  induction fuel generalizing scanner rounds problems with
  | zero => split at enough <;> omega
  | succ fuel ih =>
      obtain ⟨rounds, rfl⟩ : ∃ fewer, rounds = fewer + 1 := ⟨rounds - 1, by omega⟩
      have fewer := Nat.le_of_succ_le_succ fits
      have inside : ¬ bytes.length < scanner.pos := by
        rw [here.length_eq]
        omega
      unfold ByteScanner.nextWithin? nextFrom
      have inCode : (scanner.inBytes bytes).inCode = scanner.inCode := rfl
      rw [inCode, inBytes_ahead here]
      cases code : scanner.inCode with
      | false =>
          simp only [code, Bool.false_eq_true, if_false] at enough
          simp only [Bool.not_false, if_true]
          rw [if_neg (show ¬ (scanner.inBytes bytes).bytes.length < (scanner.inBytes bytes).pos
            from inside)]
          have tags := findOpenTag_matches scanner.rest 0 0
          generalize findOpenTag 0 scanner.rest = tag at tags ⊢
          generalize findOpenTag 0 (shown scanner.rest) = tagToo at tags ⊢
          cases tags with
          | none =>
              have size : (shown scanner.rest).length = width scanner.rest scanner.rest.length := by
                rw [length_shown, width_length]
              dsimp only
              rw [size, inBytes_skip]
              exact congrArg some (inBytes_take _ _ _ 0 _ _)
          | code count =>
              have passed := here.advance count
              have shorter := (scanner.skip_passes count).rest
              simp only [Nat.zero_add]
              change (inBytes { scanner.skip count with inCode := true } bytes).nextWithin?
                rounds _ = _
              refine ih passed ?_ fewer problems
              simp only [if_true]
              omega
          | echo count tag =>
              simp only [Nat.zero_add]
              have three := inBytes_take { scanner.skip count with inCode := true } bytes .echoKw 3
                "echo" problems
              have size : width (scanner.rest.drop count) 3 = 3 := tag.width_eq
              simp only [skip, size] at three
              exact congrArg some three
      | true =>
          simp only [code, if_true] at enough
          simp only [Bool.not_true, Bool.false_eq_true, if_false]
          have front := frontOf_fits scanner.rest
          rw [frontOf_shown]
          cases what : frontOf scanner.rest with
          | done => exact congrArg some (inBytes_take _ _ _ 0 _ _)
          | blank length =>
              rw [what] at front
              have shorter := length_skip_lt front.1 front.2
              rw [Front.inBytes]
              dsimp only
              rw [inBytes_skip]
              refine ih (here.advance length) ?_ fewer problems
              simp only [skip, code, if_true] at shorter ⊢
              omega
          | blockComment length closed isDoc =>
              rw [what] at front
              have shorter := length_skip_lt front.1 front.2
              have passed : RestAt bytes (scanner.skipComment length isDoc).pos
                  (scanner.skipComment length isDoc).rest := by
                rw [skipComment_pos, skipComment_rest]
                exact here.advance length
              have found : problems.map (·.inBytes) ++
                  (if closed then [] else [("Unterminated comment", UInt32.ofNat scanner.pos)]) =
                    (problems ++ if closed then []
                      else [ScanProblem.mk "Unterminated comment" scanner.pos]).map
                        ScanProblem.inBytes := by
                rw [List.map_append]
                cases closed <;> rfl
              rw [Front.inBytes]
              dsimp only
              rw [inBytes_skipComment]
              refine (congrArg _ found).trans (ih passed ?_ fewer _)
              simp only [skipComment_rest, skipComment_inCode, code, if_true]
              omega
          | closeTag length =>
              exact congrArg some (inBytes_take { scanner with inCode := false } _ _ length _ _)
          | token =>
              rw [what] at front
              exact inBytes_takeToken here front problems

theorem inBytes_next : (scanner.inBytes bytes).next? =
    some (scanner.next.1.inBytes, scanner.next.2.inBytes bytes) := by
  have enough : scanner.rest.length + (if scanner.inCode then 1 else 2) ≤
      scanner.rest.length + 2 := by
    split <;> omega
  have fits : scanner.rest.length + 2 ≤ bytes.length - scanner.pos + 2 := by
    have atLeast := length_le_byteSize scanner.rest
    rw [here.length_eq]
    omega
  exact inBytes_nextWithin here enough fits []

end Scanner

/-! Scanning on and on. -/

section Scans

variable (text : Text) (inCode : Bool)

/-- The scanner before the first token of a text. -/
def ByteScanner.ofText : ByteScanner :=
  { bytes := Utf8.encode text, inCode }

open TokenReader in
theorem restAt_scan (count : Nat) :
    RestAt (Utf8.encode text) (advance^[count] (ofText text inCode)).scanner.pos
      (advance^[count] (ofText text inCode)).scanner.rest := by
  have stands : (ofText text inCode).scanner.StandsIn text := ⟨[], rfl, rfl⟩
  obtain ⟨before, whole, pos⟩ := stands_scan stands count
  exact ⟨before, congrArg Utf8.encode whole, pos⟩

open TokenReader in
theorem after?_eq (count : Nat) : (ByteScanner.ofText text inCode).after? count =
    some ((advance^[count] (ofText text inCode)).scanner.inBytes (Utf8.encode text)) := by
  induction count with
  | zero => rfl
  | succ count ih =>
      rw [ByteScanner.after?, ih, scanner_succ]
      simp only [Option.bind_eq_bind, Option.bind_some,
        Scanner.inBytes_next (restAt_scan text inCode count)]
      rfl

open TokenReader in
theorem scan?_eq (count : Nat) : (ByteScanner.ofText text inCode).scan? count =
    some ((ofText text inCode).scan count).inBytes := by
  rw [ByteScanner.scan?, after?_eq, scan_eq]
  simp only [Option.bind_eq_bind, Option.bind_some,
    Scanner.inBytes_next (restAt_scan text inCode count)]
  rfl

end Scans

/-- The token is a piece of a text between two boundaries, and its offsets in 32 bits say
where if the text has fewer bytes than those can count. -/
structure ByteToken.Placed (token : ByteToken) (bytes : List UInt8) (lexeme : Text) : Prop where
  ordered : token.start ≤ token.stop
  within : token.stop ≤ bytes.length
  starts : isBoundary bytes token.start = true
  stops : isBoundary bytes token.stop = true
  text : token.text? bytes = some lexeme
  inside : token.kind ≠ .endOfFile → token.start < token.stop
  offsets : bytes.length < 2 ^ 32 →
    token.pos32.toNat = token.start ∧ token.end32.toNat = token.stop

theorem Token.CutFrom.placed {token : Token} {text : Text} (cut : token.CutFrom text)
    (inside : token.kind ≠ .endOfFile → token.span.start < token.span.stop) :
    token.inBytes.Placed (Utf8.encode text) token.lexeme := by
  have sum := cut.start_add
  have within := cut.stop_le
  rw [← length_encode] at within
  obtain ⟨before, after, rfl, span⟩ := cut
  have piece := cut?_append before token.lexeme after
  have starts := isBoundary_byteSize before (token.lexeme ++ after)
  have stops := isBoundary_byteSize (before ++ token.lexeme) after
  rw [← List.append_assoc] at starts
  exact {
    ordered := show token.span.start ≤ token.span.stop by omega
    within
    starts := by rwa [inBytes, span]
    stops := by rwa [inBytes, span]
    text := by
      rw [ByteToken.text?, inBytes, span]
      dsimp only
      rwa [byteSize_append]
    inside
    offsets := fun small => by
      have fits {offset : Nat} (le : offset ≤ token.span.stop) :
          (UInt32.ofNat offset).toNat = offset :=
        UInt32.toNat_ofNat_of_lt' (Nat.lt_of_le_of_lt (Nat.le_trans le within) small)
      exact ⟨fits (show token.span.start ≤ token.span.stop by omega), fits (Nat.le_refl _)⟩ }

/-- The scans of a text byte by byte, from inside the tags or from outside. No slice parts a
character on the way: every scan reads a token, and it is the one that is read character by
character. The token lies between two boundaries, at or after the end of the one before it, and
only the end of the file is empty. The end comes within as many scans as the text has bytes
and one more, and every later scan finds it in the same place. -/
theorem byteTokens_tile (text : Text) (inCode : Bool) :
    let bytes := Utf8.encode text
    let read := (TokenReader.ofText text inCode).scan
    ∃ token : Nat → ByteToken,
      (∀ count, (ByteScanner.ofText text inCode).scan? count = some (token count) ∧
        token count = (read count).inBytes ∧
        (token count).Placed bytes (read count).lexeme ∧
        (token count).stop ≤ (token (count + 1)).start) ∧
      ∃ last, last ≤ bytes.length ∧
        (∀ count < last, (token count).kind ≠ .endOfFile) ∧
        ∀ count ≥ last, (token count).kind = .endOfFile ∧
          (token count).start = bytes.length ∧ (token count).stop = bytes.length := by
  intro bytes read
  obtain ⟨tiles, last, bound, before, ended⟩ := tokens_tile text inCode
  have size : bytes.length = text.byteSize := length_encode text
  refine ⟨fun count => (read count).inBytes, fun count => ?_, last, by rwa [size], before, ?_⟩
  · obtain ⟨cut, -, -, onward, inside⟩ := tiles count
    exact ⟨scan?_eq text inCode count, rfl, cut.placed inside, onward⟩
  · intro count later
    obtain ⟨kind, span⟩ := ended count later
    rw [size]
    exact ⟨kind, congrArg Span.start span, congrArg Span.stop span⟩

end StaticReflection
