import StaticReflection.Proofs.Scanner.CommonTokens
import StaticReflection.Proofs.Scanner.TokenRoundTrip

namespace StaticReflection

/-! A token is the same wherever it stands. What a text is read as inside the tags does not
depend on what was read before it, and a text is read as its parts are. -/

def DocComment.bare (comment : DocComment) : DocComment :=
  { comment with span := ⟨0, 0⟩ }

/-- The token without its place. -/
def Token.bare (token : Token) : Token :=
  { token with
    span := ⟨0, 0⟩
    doc := token.doc.map DocComment.bare
    problems := [] }

theorem Token.kind_of_bare {token other : Token} (same : token.bare = other.bare) :
    token.kind = other.kind :=
  (Token.mk.inj same).1

namespace Scanner

/-- The scanner at the front of its text. -/
def bare (scanner : Scanner) : Scanner :=
  { scanner with
    pos := 0
    pendingDoc := scanner.pendingDoc.map DocComment.bare }

variable {scanner other : Scanner} {fuel more : Nat} {problems found : List ScanProblem}

/-- What is read is the same up to places. -/
def Same (read other : Token × Scanner) : Prop :=
  read.1.bare = other.1.bare ∧ read.2.bare = other.2.bare

theorem steps_pos (scanner : Scanner) : 0 < scanner.steps := by
  unfold steps
  split <;> omega

section Places

variable (same : scanner.bare = other.bare)
include same

theorem rest_of_bare : scanner.rest = other.rest :=
  (Scanner.mk.inj same).1

theorem inCode_of_bare : scanner.inCode = other.inCode :=
  (Scanner.mk.inj same).2.2.1

theorem pendingDoc_of_bare :
    scanner.pendingDoc.map DocComment.bare = other.pendingDoc.map DocComment.bare :=
  (Scanner.mk.inj same).2.2.2

theorem skip_bare (length : Nat) : (scanner.skip length).bare = (other.skip length).bare := by
  simp only [bare, skip, rest_of_bare same, inCode_of_bare same, pendingDoc_of_bare same]

theorem enter_bare (inCode : Bool) :
    bare { scanner with inCode } = bare { other with inCode } := by
  simp only [bare, rest_of_bare same, pendingDoc_of_bare same]

theorem skipComment_bare (length : Nat) (isDoc : Bool) :
    (scanner.skipComment length isDoc).bare = (other.skipComment length isDoc).bare := by
  cases isDoc with
  | false => exact skip_bare same length
  | true =>
      simp only [skipComment, skip, bare, if_true, rest_of_bare same, inCode_of_bare same]
      rfl

theorem take_same (kind : TokenKind) (length : Nat) (value : String) :
    Same (scanner.take kind length value problems) (other.take kind length value found) := by
  refine ⟨?_, skip_bare same length⟩
  simp only [take, Token.bare, rest_of_bare same]

theorem takeToken_same : Same (scanner.takeToken problems) (other.takeToken found) := by
  constructor
  · simp only [takeToken, take, Token.bare, rest_of_bare same, pendingDoc_of_bare same]
  · simp only [takeToken, take, skip, bare, rest_of_bare same, inCode_of_bare same]

end Places

/-- The next token does not depend on the place, nor on the fuel if there is enough of it. -/
theorem nextFrom_same (same : scanner.bare = other.bare) (enough : scanner.steps ≤ fuel)
    (enoughToo : other.steps ≤ more) :
    Same (scanner.nextFrom fuel problems) (other.nextFrom more found) := by
  induction fuel generalizing scanner other more problems found with
  | zero => exact absurd enough (Nat.not_le.mpr scanner.steps_pos)
  | succ fuel ih =>
      obtain ⟨more, rfl⟩ : ∃ fewer, more = fewer + 1 :=
        Nat.exists_eq_add_one.mpr (Nat.lt_of_lt_of_le other.steps_pos enoughToo)
      have rest := rest_of_bare same
      have inCode := inCode_of_bare same
      simp only [steps, rest, inCode] at enough enoughToo
      simp only [nextFrom, rest, inCode]
      cases code : other.inCode with
      | false =>
          simp only [code, Bool.false_eq_true, if_false] at enough enoughToo
          simp only [Bool.not_false, if_true]
          cases tag : findOpenTag 0 other.rest with
          | none => exact take_same (skip_bare same _) _ _ _
          | code length =>
              refine ih (enter_bare (skip_bare same length) true) ?_ ?_ <;>
              · simp only [steps, skip, rest, List.length_drop, if_true]
                omega
          | echo before => exact take_same (enter_bare (skip_bare same before) true) _ _ _
      | true =>
          simp only [code, if_true] at enough enoughToo
          simp only [Bool.not_true, Bool.false_eq_true, if_false]
          have fits := frontOf_fits other.rest
          cases front : frontOf other.rest with
          | done => exact take_same same _ _ _
          | blank length =>
              rw [front] at fits
              have taken := List.length_pos_iff.mpr fits.1
              have positive := fits.2
              refine ih (skip_bare same length) ?_ ?_ <;>
              · simp only [steps, skip, rest, inCode, code, List.length_drop, if_true]
                omega
          | blockComment length closed isDoc =>
              rw [front] at fits
              have taken := List.length_pos_iff.mpr fits.1
              have positive := fits.2
              refine ih (skipComment_bare same length isDoc) ?_ ?_ <;>
              · simp only [steps, skipComment_rest, skipComment_inCode, skip, rest, inCode, code,
                  List.length_drop, if_true]
                omega
          | closeTag length =>
              refine take_same ?_ _ _ _
              simp only [bare, pendingDoc_of_bare same]
          | token => exact takeToken_same same

theorem steps_le (scanner : Scanner) : scanner.steps ≤ scanner.rest.length + 2 := by
  unfold steps
  split <;> omega

theorem next_same (same : scanner.bare = other.bare) : Same scanner.next other.next :=
  nextFrom_same same scanner.steps_le other.steps_le

theorem tokensFrom_same (same : scanner.bare = other.bare) (enough : scanner.rest.length < fuel)
    (enoughToo : other.rest.length < more) :
    (scanner.tokensFrom fuel).map Token.bare = (other.tokensFrom more).map Token.bare := by
  induction fuel generalizing scanner other more with
  | zero => omega
  | succ fuel ih =>
      obtain ⟨more, rfl⟩ : ∃ fewer, more = fewer + 1 := ⟨more - 1, by omega⟩
      have read := next_same same
      have reads := scanner.next_reads
      have readsToo := other.next_reads
      have kinds := Token.kind_of_bare read.1
      unfold tokensFrom
      dsimp only
      rw [kinds]
      split
      · simp [read.1]
      · rename_i inside
        have shorter := reads.taken (kinds ▸ inside)
        have shorterToo := readsToo.taken inside
        have later : (scanner.next.2.tokensFrom fuel).map Token.bare =
            (other.next.2.tokensFrom more).map Token.bare := ih read.2 (by omega) (by omega)
        rw [List.map_cons, List.map_cons, read.1, later]

theorem tokens_same (same : scanner.bare = other.bare) :
    scanner.tokens.map Token.bare = other.tokens.map Token.bare :=
  tokensFrom_same same (Nat.lt_succ_self _) (Nat.lt_succ_self _)

/-- A token, and those after it. -/
theorem tokens_of_next (scanner : Scanner) (inside : scanner.next.1.kind ≠ .endOfFile) :
    scanner.tokens.map Token.bare =
      scanner.next.1.bare :: scanner.next.2.tokens.map Token.bare := by
  have shorter := scanner.next_reads.taken inside
  unfold tokens
  rw [tokensFrom]
  dsimp only
  rw [if_neg inside, List.map_cons, tokensFrom_same rfl shorter (Nat.lt_succ_self _)]

theorem tokens_of_ended (ended : scanner.next.1.kind = .endOfFile) :
    scanner.tokens.map Token.bare = [scanner.next.1.bare] := by
  unfold tokens
  rw [tokensFrom]
  dsimp only
  rw [if_pos ended, List.map_singleton]

end Scanner

/-- The tokens of a text inside the tags, without their places. -/
def codeTokens (text : Text) : List Token :=
  (Scanner.tokens { rest := text, inCode := true }).map Token.bare

theorem Scanner.tokens_of_bare {scanner : Scanner} {text : Text}
    (here : scanner.bare = { rest := text, inCode := true }) :
    scanner.tokens.map Token.bare = codeTokens text :=
  tokens_same here

/-- What the scanner passes before a token makes no difference. -/
theorem Scanner.tokens_of_nextFrom {scanner next : Scanner} {fuel : Nat}
    {problems : List ScanProblem}
    (passed : scanner.next = next.nextFrom fuel problems) (enough : next.steps ≤ fuel) :
    scanner.tokens.map Token.bare = next.tokens.map Token.bare := by
  have same : Same scanner.next next.next := passed ▸ nextFrom_same rfl enough next.steps_le
  have kinds := Token.kind_of_bare same.1
  by_cases ended : next.next.1.kind = .endOfFile
  · rw [tokens_of_ended ended, tokens_of_ended (kinds.trans ended), same.1]
  · rw [tokens_of_next _ (kinds ▸ ended), tokens_of_next _ ended, same.1, tokens_same same.2]

theorem codeTokens_blank (text : Text) : codeTokens (' ' :: text) = codeTokens text := by
  let scanner : Scanner := { rest := ' ' :: text, inCode := true }
  have passed : scanner.tokens.map Token.bare = (scanner.skip 1).tokens.map Token.bare :=
    Scanner.tokens_of_nextFrom rfl (Nat.le_succ _)
  exact passed.trans (Scanner.tokens_of_bare rfl)

theorem codeTokens_token {text : Text} (front : frontOf text = .token) :
    ∃ token, token.mark = ⟨(lexToken text).kind, (lexToken text).value, (lexToken text).bytes⟩ ∧
      codeTokens text = token :: codeTokens (text.drop (lexToken text).length) := by
  have read : Scanner.next { rest := text, inCode := true } =
      Scanner.takeToken { rest := text, inCode := true } [] := by
    simp only [Scanner.next, Scanner.nextFrom, front, Bool.not_true, Bool.false_eq_true, if_false]
  obtain ⟨c, rest, rfl⟩ : ∃ c rest, text = c :: rest := by
    cases text with
    | nil => cases front
    | cons c rest => exact ⟨c, rest, rfl⟩
  have tokens := Scanner.tokens_of_next { rest := c :: rest, inCode := true }
  rw [read] at tokens
  have token := tokens (lexToken_proper c rest).inside
  exact ⟨_, rfl, token.trans (congrArg _ (Scanner.tokens_of_bare rfl))⟩

theorem codeTokens_word (word : Word) (rest : Text) (ends : ∀ c ∈ rest.head?, endsName c = true) :
    ∃ token, token.mark = ⟨word.kind, word.value, []⟩ ∧
      codeTokens (word.text ++ rest) = token :: codeTokens rest := by
  have lexed := word.lexed ends
  have front : frontOf (word.text ++ rest) = .token := by
    obtain ⟨c, text, spelled, start⟩ := word.exists_cons
    have part : isNamePart c = true := List.all_eq_true.mp word.parts c (by simp [spelled])
    rw [spelled]
    exact frontOf_namePart part
  obtain ⟨token, mark, read⟩ := codeTokens_token front
  have taken : (word.text ++ rest).drop (lexToken (word.text ++ rest)).length = rest := by
    rw [lexed.length]
    exact List.drop_left
  exact ⟨token, mark.trans lexed.mark, read.trans (by rw [taken])⟩

/-- Code after the tag that opens it. -/
theorem tokenize_code (text : Text) :
    (tokenize ("<?php ".toList ++ text)).map Token.bare = codeTokens text := by
  have tag : "<?php ".toList = ['<', '?', 'p', 'h', 'p', ' '] := rfl
  rw [tag]
  let scanner : Scanner := { rest := '<' :: '?' :: 'p' :: 'h' :: 'p' :: ' ' :: text }
  let inside : Scanner := { scanner.skip 6 with inCode := true }
  have opens : findOpenTag 0 scanner.rest = .code 6 := by
    simp [scanner, findOpenTag, isTagSpace]
  have passed : scanner.next = inside.nextFrom (text.length + 7) [] := by
    rw [Scanner.next, Scanner.nextFrom]
    simp only [opens]
    rfl
  have enough : inside.steps ≤ text.length + 7 :=
    Nat.add_le_add_left (Nat.le_add_left 1 6) text.length
  exact (Scanner.tokens_of_nextFrom passed enough).trans (Scanner.tokens_of_bare rfl)

/-- In code the text is read as tokens of the given kinds, wherever it stands and whatever
follows. -/
def Text.ReadAs (text : Text) (kinds : List TokenKind) : Prop :=
  ∀ data, ∃ tokens, tokens.map Token.kind = kinds ∧
    codeTokens (text ++ data) = tokens ++ codeTokens data

namespace Text.ReadAs

variable {text other : Text} {kinds otherKinds : List TokenKind}

theorem nil : ReadAs [] [] :=
  fun _ => ⟨[], rfl, rfl⟩

theorem append (first : text.ReadAs kinds) (second : other.ReadAs otherKinds) :
    (text ++ other).ReadAs (kinds ++ otherKinds) := by
  intro data
  obtain ⟨tokens, sorts, read⟩ := first (other ++ data)
  obtain ⟨others, otherSorts, after⟩ := second data
  refine ⟨tokens ++ others, ?_, ?_⟩
  · rw [List.map_append, sorts, otherSorts]
  · rw [List.append_assoc, read, after, List.append_assoc]

theorem blank : ReadAs [' '] [] :=
  fun data => ⟨[], rfl, codeTokens_blank data⟩

/-- A token that is read whatever follows. -/
theorem token {kind : TokenKind} (front : ∀ data, frontOf (text ++ data) = .token)
    (lexes : ∀ data, (lexToken (text ++ data)).kind = kind ∧
      (lexToken (text ++ data)).length = text.length) : text.ReadAs [kind] := by
  intro data
  obtain ⟨token, mark, read⟩ := codeTokens_token (front data)
  refine ⟨[token], congrArg (fun kind => [kind]) ?_, ?_⟩
  · exact (congrArg Mark.kind mark).trans (lexes data).1
  rw [read, (lexes data).2, List.drop_left]
  rfl

theorem openBrace : ReadAs ['\x7b'] [.openBrace] := by
  refine token (fun data => ?_) fun data => ⟨rfl, rfl⟩
  simp [frontOf, isSeparatorSpace]

theorem closeBrace : ReadAs ['\x7d'] [.closeBrace] :=
  token (frontOf_terminator (by decide)) fun data => ⟨rfl, rfl⟩

/-- A colon with a blank after it. -/
theorem colon : ReadAs [':', ' '] [.colon] := by
  intro data
  have front : frontOf (':' :: ' ' :: data) = .token := by simp [frontOf, isSeparatorSpace]
  obtain ⟨token, mark, read⟩ := codeTokens_token front
  exact ⟨[token], congrArg (fun mark : Mark => [mark.kind]) mark,
    read.trans (congrArg _ (codeTokens_blank data))⟩

theorem lexVariable_closed {name : Text} (parts : ∀ c ∈ name, isNamePart c = true)
    (data : Text) : (lexVariable ('$' :: (name ++ ')' :: data))).length = name.length + 1 := by
  have whole : (name ++ ')' :: data).takeWhile isNamePart = name := by
    rw [List.takeWhile_append_of_pos parts]
    simp [isNamePart]
  simp only [lexVariable, List.tail_cons, whole]

def ifWord : Word := ⟨['i', 'f'], by decide, by decide⟩

/-- A test of a variable. -/
theorem ifVariable {name : Text} (starts : startsName name = true)
    (parts : ∀ c ∈ name, isNamePart c = true) :
    ReadAs ("if ($".toList ++ name ++ [')']) [.ifKw, .openParen, .variableName, .closeParen] := by
  intro data
  have front : frontOf ('(' :: '$' :: (name ++ ')' :: data)) = .token ∧
      frontOf ('$' :: (name ++ ')' :: data)) = .token := by
    simp [frontOf, isSeparatorSpace]
  have named : lexToken ('$' :: (name ++ ')' :: data)) =
      lexVariable ('$' :: (name ++ ')' :: data)) := by
    obtain ⟨c, rest, rfl⟩ : ∃ c rest, name = c :: rest := by
      cases name with
      | nil => cases starts
      | cons c rest => exact ⟨c, rest, rfl⟩
    exact if_pos ⟨rfl, starts⟩
  obtain ⟨first, ifKw, readIf⟩ :=
    codeTokens_word ifWord (' ' :: '(' :: '$' :: (name ++ ')' :: data)) (by simp; decide)
  obtain ⟨second, openParen, readOpen⟩ := codeTokens_token front.1
  obtain ⟨third, variableName, readName⟩ := codeTokens_token front.2
  obtain ⟨fourth, closeParen, readClose⟩ :=
    codeTokens_token (frontOf_terminator (c := ')') (by decide) data)
  rw [named] at variableName
  rw [named, lexVariable_closed parts, List.drop_succ_cons, List.drop_left] at readName
  refine ⟨[first, second, third, fourth], ?_, ?_⟩
  · have kinds : [first, second, third, fourth].map Token.kind =
        [first.mark, second.mark, third.mark, fourth.mark].map Mark.kind := rfl
    have keyword : ifWord.kind = .ifKw := by decide +kernel
    rw [kinds, ifKw, openParen, variableName, closeParen]
    simp only [List.map_cons, List.map_nil, keyword]
    rfl
  · have word : "if ($".toList = ['i', 'f', ' ', '(', '$'] := rfl
    simp only [word, List.append_assoc, List.cons_append, List.nil_append]
    calc codeTokens ('i' :: 'f' :: ' ' :: '(' :: '$' :: (name ++ ')' :: data))
      _ = first :: codeTokens (' ' :: '(' :: '$' :: (name ++ ')' :: data)) := readIf
      _ = first :: codeTokens ('(' :: '$' :: (name ++ ')' :: data)) := by rw [codeTokens_blank]
      _ = first :: second :: codeTokens ('$' :: (name ++ ')' :: data)) := by
        rw [readOpen]
        rfl
      _ = first :: second :: third :: codeTokens (')' :: data) := by rw [readName]
      _ = [first, second, third, fourth] ++ codeTokens data := by
        rw [readClose]
        rfl

end Text.ReadAs

/-- The kinds of the tokens of a text, if the text can be read to its end on its own. -/
def Scanner.kindsThrough : Nat → Scanner → Option (List TokenKind)
  | 0, _ => none
  | fuel + 1, scanner =>
      if scanner.rest.isEmpty then
        if scanner.inCode && scanner.pendingDoc.isNone then some [] else none
      else
        let (token, next) := scanner.next
        if takesRest token.kind && next.rest.isEmpty then none
        else (kindsThrough fuel next).map (token.kind :: ·)

theorem Scanner.tokens_of_kindsThrough {text : Text} {scanner : Scanner} {fuel : Nat}
    {kinds : List TokenKind} (ended : Ended text) (stands : scanner.StandsIn text)
    (through : scanner.kindsThrough fuel = some kinds) (data : Text) :
    ∃ tokens, tokens.map Token.kind = kinds ∧
      (scanner.onto data).tokens.map Token.bare = tokens ++ codeTokens data := by
  induction fuel generalizing scanner kinds with
  | zero => cases through
  | succ fuel ih =>
      unfold kindsThrough at through
      split at through
      · rename_i finished
        split at through
        · rename_i plain
          obtain ⟨inCode, pending⟩ := Bool.and_eq_true_iff.mp plain
          cases through
          refine ⟨[], rfl, tokens_of_bare ?_⟩
          rw [bare, onto, List.isEmpty_iff.mp finished, inCode,
            Option.isNone_iff_eq_none.mp pending]
          rfl
        · cases through
      · rename_i more
        have meets : Meets data scanner.next (scanner.onto data).next := by
          refine next_meets (fun nonempty => ?_) data
          obtain ⟨before, whole, -⟩ := stands
          exact Ended.of_append before (whole ▸ ended) nonempty
        have cuts := next_cuts stands
        have read := tokens_of_next (scanner.onto data)
        have reads := scanner.next_reads
        generalize scanner.next = here at meets cuts through reads
        generalize (scanner.onto data).next = there at meets read
        obtain ⟨token, next⟩ := here
        dsimp only at through
        split at through
        · cases through
        · rename_i goesOn
          obtain ⟨kinds, later, rfl⟩ := Option.map_eq_some_iff.mp through
          cases meets with
          | same =>
              have inside : token.kind ≠ .endOfFile := fun last => by
                refine goesOn (Bool.and_eq_true_iff.mpr ⟨by rw [last]; rfl, ?_⟩)
                exact List.isEmpty_iff.mpr (reads.ended last).1
              obtain ⟨tokens, rfl, after⟩ := ih cuts.stands later
              exact ⟨token.bare :: tokens, rfl, (read inside).trans (congrArg _ after)⟩
          | apart runsOn finished =>
              refine absurd ?_ goesOn
              exact Bool.and_eq_true_iff.mpr ⟨runsOn, List.isEmpty_iff.mpr finished⟩

/-- A text that can be read to its end on its own is read in the same way where more follows. -/
theorem Text.readAs_of_kindsThrough {text : Text} {kinds : List TokenKind} (fuel : Nat)
    (ended : Ended text)
    (through : Scanner.kindsThrough fuel { rest := text, inCode := true } = some kinds) :
    text.ReadAs kinds :=
  Scanner.tokens_of_kindsThrough ended ⟨[], rfl, rfl⟩ through

end StaticReflection
