import Mathlib.Data.List.Infix
import StaticReflection.Proofs.Scanner.RenderedTokens
import StaticReflection.Proofs.Scanner.Tiling

namespace StaticReflection

/-! Documentation comments and the tokens that they are attached to. -/

/-- Two asterisks and a blank after a slash, and then the first end of a comment. -/
def Text.IsDocComment (comment : Text) : Prop :=
  ∃ blank body, comment = ['/', '*', '*', blank] ++ body ++ ['*', '/'] ∧ isTagSpace blank = true ∧
    ¬ ['*', '/'] <:+: ['*', blank] ++ body ++ ['*']

/-! Where a comment ends. -/

theorem infix_cons_asterisk {c : Char} {inner : List Char} :
    ['*', '/'] <:+: c :: inner ++ ['*'] ↔
      c = '*' ∧ inner.head? = some '/' ∨ ['*', '/'] <:+: inner ++ ['*'] := by
  rw [List.cons_append, List.infix_cons_iff, List.cons_prefix_cons]
  cases inner with
  | nil => simp
  | cons d inner => simp [eq_comm]

theorem blockCommentEnd?_first {inner : List Char} (first : ¬ ['*', '/'] <:+: inner ++ ['*'])
    (length : Nat) (rest : List Char) :
    blockCommentEnd? length (inner ++ '*' :: '/' :: rest) = some (length + inner.length + 2) := by
  induction inner generalizing length with
  | nil => rfl
  | cons c inner ih =>
      rw [infix_cons_asterisk, not_or] at first
      rw [List.cons_append, blockCommentEnd?, ih first.2, List.length_cons]
      · congr 1
        omega
      · rintro after rfl same
        cases inner with
        | nil => cases same
        | cons d inner =>
            cases same
            exact first.1 ⟨rfl, rfl⟩

theorem exists_of_blockCommentEnd? {length stop : Nat} {text : List Char}
    (closed : blockCommentEnd? length text = some stop) :
    ∃ inner rest, text = inner ++ '*' :: '/' :: rest ∧ stop = length + inner.length + 2 ∧
      ¬ ['*', '/'] <:+: inner ++ ['*'] := by
  fun_induction blockCommentEnd? length text with
  | case1 length rest =>
      cases closed
      exact ⟨[], rest, rfl, rfl, by decide⟩
  | case2 length c text other ih =>
      obtain ⟨inner, rest, rfl, rfl, first⟩ := ih closed
      refine ⟨c :: inner, rest, rfl, ?_, ?_⟩
      · rw [List.length_cons]
        omega
      · rw [infix_cons_asterisk]
        rintro (⟨rfl, head⟩ | later)
        · obtain ⟨inner, rfl⟩ := List.head?_eq_some_iff.mp head
          exact other _ rfl rfl
        · exact first later
  | case3 length => cases closed

theorem frontOf_comment (more : List Char) :
    frontOf ('/' :: '*' :: more) =
      .blockComment ((blockCommentEnd? 2 more).getD (more.length + 2))
        (blockCommentEnd? 2 more).isSome (more.head? == some '*' && more[1]?.any isTagSpace) := by
  simp [frontOf, isSeparatorSpace, List.head?_eq_getElem?]

theorem frontOf_docComment {comment : Text} (documents : comment.IsDocComment) (rest : Text) :
    frontOf (comment ++ rest) = .blockComment comment.length true true := by
  obtain ⟨blank, body, rfl, space, first⟩ := documents
  have closed : blockCommentEnd? 2 (['*', blank] ++ body ++ '*' :: '/' :: rest) =
      some (['/', '*', '*', blank] ++ body ++ ['*', '/']).length := by
    rw [blockCommentEnd?_first first]
    simp only [List.length_append, List.length_cons, List.length_nil]
    congr 1
    omega
  have written : ['/', '*', '*', blank] ++ body ++ ['*', '/'] ++ rest =
      '/' :: '*' :: (['*', blank] ++ body ++ '*' :: '/' :: rest) := by simp
  rw [written, frontOf_comment, closed]
  simp [space]

/-- What a text begins with. -/
def Front.Begins (text : List Char) : Front → Prop
  | .blockComment _ _ _ => ∃ more, text = '/' :: '*' :: more
  | .closeTag length => ['?', '>'] <+: text.take length
  | _ => True

theorem frontOf_begins (text : List Char) : (frontOf text).Begins text := by
  cases text with
  | nil => exact trivial
  | cons c text =>
      rw [frontOf]
      split
      · exact trivial
      split
      · exact trivial
      split
      · rename_i opens
        simp only [Bool.and_eq_true, beq_iff_eq] at opens
        obtain ⟨rfl, head⟩ := opens
        obtain ⟨more, rfl⟩ := List.head?_eq_some_iff.mp head
        exact ⟨more, rfl⟩
      split
      · rename_i closes
        simp only [Bool.and_eq_true, beq_iff_eq] at closes
        obtain ⟨rfl, head⟩ := closes
        obtain ⟨more, rfl⟩ := List.head?_eq_some_iff.mp head
        unfold closeTagLength
        split <;> exact ⟨_, rfl⟩
      · exact trivial

/-- A comment that nothing ends goes through the end of the text. -/
theorem isDocComment_of_frontOf {text : List Char} {length : Nat} {closed : Bool}
    (front : frontOf text = .blockComment length closed true) :
    text.drop length = [] ∨ Text.IsDocComment (text.take length) := by
  obtain ⟨more, rfl⟩ : ∃ more, text = '/' :: '*' :: more := by
    have begins := frontOf_begins text
    rwa [front] at begins
  rw [frontOf_comment] at front
  obtain ⟨rfl, rfl, documents⟩ := Front.blockComment.inj front
  cases ends : blockCommentEnd? 2 more with
  | none =>
      refine .inl (List.drop_eq_nil_of_le ?_)
      simp
  | some stop =>
      refine .inr ?_
      obtain ⟨inner, rest, rfl, rfl, first⟩ := exists_of_blockCommentEnd? ends
      obtain ⟨blank, body, rfl, space⟩ :
          ∃ blank body, inner = '*' :: blank :: body ∧ isTagSpace blank = true := by
        simp only [Bool.and_eq_true, beq_iff_eq] at documents
        obtain ⟨head, space⟩ := documents
        match inner with
        | [] => cases space
        | [_] => cases space
        | c :: blank :: body =>
            obtain rfl : c = '*' := Option.some.inj head
            exact ⟨blank, body, rfl, space⟩
      refine ⟨blank, body, ?_, space, first⟩
      have written : '/' :: '*' :: ('*' :: blank :: body ++ '*' :: '/' :: rest) =
          ['/', '*', '*', blank] ++ body ++ ['*', '/'] ++ rest := by simp
      rw [Option.getD_some, written]
      refine List.take_left' ?_
      simp only [List.length_append, List.length_cons, List.length_nil]
      omega

/-! What is carried from one token to the next. -/

/-- The token stands for a tag: for a closing one the end of a statement, for an opening one
that prints the word that does. -/
inductive Token.IsTag (token : Token) : Prop
  | closing (kind : token.kind = .semicolon) (lexeme : ['?', '>'] <+: token.lexeme)
  | printing (kind : token.kind = .echoKw) (lexeme : token.lexeme = ['<', '?', '='])

theorem printing_prefix {passed before : Nat} {text : List Char}
    (found : findOpenTag passed text = .echo before) :
    (text.drop (before - passed)).take 3 = ['<', '?', '='] := by
  fun_induction findOpenTag passed text with
  | case1 => cases found
  | case2 passed text prints =>
      cases found
      obtain ⟨more, rfl⟩ := List.head?_eq_some_iff.mp prints
      simp
  | case3 => cases found
  | case4 passed text _ _ ih =>
      have above := (findOpenTag_echo found).1
      have shift : before - passed = before - (passed + 2) + 2 := by omega
      rw [shift]
      exact ih found
  | case5 passed c text _ ih =>
      have above := (findOpenTag_echo found).1
      have shift : before - passed = before - (passed + 1) + 1 := by omega
      rw [shift]
      exact ih found

namespace Scanner

/-- The comment waits for a token, or has not been passed yet. -/
def Awaits (scanner : Scanner) (doc : DocComment) : Prop :=
  scanner.pendingDoc = some doc ∨ scanner.pos ≤ doc.span.start

/-- A comment has been passed. Only at the end of the text may its own end be missing. -/
structure Holds (scanner : Scanner) (text : Text) (doc : DocComment) : Prop where
  passed : doc.span.stop ≤ scanner.pos
  slice : text.slice doc.span.start doc.span.stop = doc.text.toList
  closed : scanner.rest = [] ∨ Text.IsDocComment doc.text.toList

/-- Whatever waits for a token has been passed. -/
def Keeps (scanner : Scanner) (text : Text) : Prop :=
  ∀ doc, scanner.pendingDoc = some doc → scanner.Holds text doc

/-- A token takes what waits for it, or it stands for a tag or for the end and takes nothing. -/
structure Attaches (scanner : Scanner) (text : Text) (token : Token) (next : Scanner) : Prop where
  taken : ∀ doc, token.doc = some doc → scanner.Awaits doc ∧ doc.span.stop ≤ token.span.start ∧
    text.slice doc.span.start doc.span.stop = doc.text.toList ∧
    Text.IsDocComment doc.text.toList ∧ token.kind ≠ .endOfFile
  left : ∀ doc, next.pendingDoc = some doc → scanner.Awaits doc ∧
    doc.span.stop ≤ token.span.start ∧ (token.IsTag ∨ token.kind = .endOfFile)
  keeps : next.Keeps text

variable {text : Text} {scanner middle next : Scanner} {token : Token} {doc : DocComment}

theorem Awaits.before (awaits : middle.Awaits doc)
    (pending : middle.pendingDoc = scanner.pendingDoc) (onward : scanner.pos ≤ middle.pos) :
    scanner.Awaits doc :=
  awaits.imp pending.symm.trans (Nat.le_trans onward)

theorem Keeps.skip (keeps : scanner.Keeps text) (length : Nat) :
    (scanner.skip length).Keeps text := by
  intro doc pending
  obtain ⟨passed, slice, closed⟩ := keeps doc pending
  refine ⟨Nat.le_trans passed (pos_le_skip scanner length), slice, closed.imp_left fun ended => ?_⟩
  simp [Scanner.skip, ended]

theorem Keeps.mode (keeps : scanner.Keeps text) (inCode : Bool) :
    Keeps { scanner with inCode } text := fun doc pending =>
  ⟨(keeps doc pending).passed, (keeps doc pending).slice, (keeps doc pending).closed⟩

theorem Attaches.after (attaches : middle.Attaches text token next)
    (awaits : ∀ doc, middle.Awaits doc → scanner.Awaits doc) :
    scanner.Attaches text token next where
  taken doc own := ⟨awaits doc (attaches.taken doc own).1, (attaches.taken doc own).2⟩
  left doc pending := ⟨awaits doc (attaches.left doc pending).1, (attaches.left doc pending).2⟩
  keeps := attaches.keeps

theorem Keeps.take (keeps : scanner.Keeps text) (kind : TokenKind) (length : Nat) (value : String)
    (problems : List ScanProblem)
    (idle : (scanner.take kind length value problems).1.IsTag ∨ kind = .endOfFile) :
    scanner.Attaches text (scanner.take kind length value problems).1
      (scanner.take kind length value problems).2 where
  taken := nofun
  left doc pending := ⟨.inl pending, (keeps doc pending).passed, idle⟩
  keeps := keeps.skip length

theorem Keeps.takeToken (keeps : scanner.Keeps text) (more : scanner.rest ≠ [])
    (problems : List ScanProblem) :
    scanner.Attaches text (scanner.takeToken problems).1 (scanner.takeToken problems).2 where
  taken doc own := by
    obtain ⟨passed, slice, closed⟩ := keeps doc own
    obtain ⟨c, rest, front⟩ := List.exists_cons_of_ne_nil more
    have proper := lexToken_proper c rest
    rw [← front] at proper
    exact ⟨.inl own, passed, slice, closed.resolve_left more, proper.inside⟩
  left := nofun
  keeps := nofun

theorem Keeps.skipComment (keeps : scanner.Keeps text) (stands : scanner.StandsIn text)
    {length : Nat} {closed isDoc : Bool}
    (front : frontOf scanner.rest = .blockComment length closed isDoc) :
    (scanner.skipComment length isDoc).Keeps text := by
  cases isDoc with
  | false => exact keeps.skip length
  | true =>
      rintro doc ⟨⟩
      refine ⟨Nat.le_refl _, ?_, ?_⟩
      · obtain ⟨before, whole, pos⟩ := stands
        have split : text = before ++ scanner.rest.take length ++ scanner.rest.drop length := by
          rw [List.append_assoc, List.take_append_drop, whole]
        have stop : (scanner.skip length).pos =
            Text.byteSize (before ++ scanner.rest.take length) := by
          rw [Text.byteSize_append, ← pos]
          rfl
        dsimp only
        rw [split, pos, stop, String.toList_ofList]
        exact Text.slice_of_append _ _ _
      · rw [String.toList_ofList]
        exact isDocComment_of_frontOf front

theorem Awaits.of_skipComment {length : Nat} {isDoc : Bool}
    (awaits : (scanner.skipComment length isDoc).Awaits doc) : scanner.Awaits doc := by
  have onward := pos_le_skip scanner length
  cases isDoc with
  | false => exact awaits.before rfl onward
  | true =>
      obtain ⟨⟨⟩⟩ | later := awaits
      · exact .inr (Nat.le_refl _)
      · exact .inr (Nat.le_trans onward later)

theorem nextFrom_attaches (stands : scanner.StandsIn text) (keeps : scanner.Keeps text)
    (fuel : Nat) (problems : List ScanProblem) :
    scanner.Attaches text (scanner.nextFrom fuel problems).1
      (scanner.nextFrom fuel problems).2 := by
  fun_induction nextFrom fuel scanner problems with
  | case1 scanner problems => exact keeps.take _ _ _ _ (.inr rfl)
  | case2 fuel scanner problems outside unfound =>
      refine ((keeps.skip _).take _ _ _ _ (.inr rfl)).after fun doc awaits => ?_
      exact awaits.before rfl (pos_le_skip scanner _)
  | case3 fuel scanner problems outside length tag ih =>
      refine (ih (stands.skip length) ((keeps.skip length).mode true)).after fun doc awaits => ?_
      exact awaits.before rfl (pos_le_skip scanner length)
  | case4 fuel scanner problems outside before tag =>
      have entered := (keeps.skip before).mode true
      refine (entered.take _ _ _ _ (.inl (.printing rfl ?_))).after fun doc awaits => ?_
      · exact printing_prefix tag
      · exact awaits.before rfl (pos_le_skip scanner before)
  | case5 fuel scanner problems inCode done => exact keeps.take _ _ _ _ (.inr rfl)
  | case6 fuel scanner problems inCode length blank ih =>
      refine (ih (stands.skip length) (keeps.skip length)).after fun doc awaits => ?_
      exact awaits.before rfl (pos_le_skip scanner length)
  | case7 fuel scanner problems inCode length closed isDoc comment problem ih =>
      have passed : (scanner.skipComment length isDoc).StandsIn text := by
        simpa only [StandsIn, skipComment_rest, skipComment_pos] using stands.skip length
      exact (ih passed (keeps.skipComment stands comment)).after fun _ => Awaits.of_skipComment
  | case8 fuel scanner problems inCode length tag =>
      have begins := frontOf_begins scanner.rest
      rw [tag] at begins
      exact ((keeps.mode false).take _ _ _ _ (.inl (.closing rfl begins))).after
        fun doc awaits => awaits
  | case9 fuel scanner problems inCode front =>
      have fits := frontOf_fits scanner.rest
      rw [front] at fits
      exact keeps.takeToken fits problems

end Scanner

/-! Scanning on and on. -/

namespace TokenReader

variable {reader : TokenReader} {text : Text}

theorem keeps_scan (stands : reader.scanner.StandsIn text) (keeps : reader.scanner.Keeps text)
    (count : Nat) : (advance^[count] reader).scanner.Keeps text := by
  induction count with
  | zero => exact keeps
  | succ count ih =>
      rw [scanner_succ]
      exact (Scanner.nextFrom_attaches (stands_scan stands count) ih _ _).keeps

theorem attaches_scan (stands : reader.scanner.StandsIn text) (keeps : reader.scanner.Keeps text)
    (count : Nat) : (advance^[count] reader).scanner.Attaches text (reader.scan count)
      (advance^[count + 1] reader).scanner := by
  rw [scan_eq, scanner_succ]
  exact Scanner.nextFrom_attaches (stands_scan stands count) (keeps_scan stands keeps count) _ _

/-- What a token takes has waited since it was passed. -/
theorem awaits_scan (stands : reader.scanner.StandsIn text) (keeps : reader.scanner.Keeps text)
    {count : Nat} {doc : DocComment} (own : (reader.scan count).doc = some doc) {earlier : Nat}
    (before : earlier ≤ count) : (advance^[earlier] reader).scanner.Awaits doc := by
  induction before using Nat.decreasingInduction with
  | self => exact ((attaches_scan stands keeps count).taken doc own).1
  | of_succ earlier less ih =>
      obtain pending | later := ih
      · exact ((attaches_scan stands keeps earlier).left doc pending).1
      -- A scanner before the comment had nothing but earlier places behind it.
      · have cuts := cuts_scan stands earlier
        have order := cuts.cut.start_add
        have onward := cuts.onward
        have stop := cuts.stop
        exact .inr (by omega)

theorem endOfFile_of_le {first count : Nat} (ended : (reader.scan first).kind = .endOfFile)
    (later : first ≤ count) : (reader.scan count).kind = .endOfFile := by
  induction later with
  | refl => exact ended
  | step _ ih => exact endOfFile_succ ih

end TokenReader

/-! A comment before a closing tag. -/

theorem findOpenTag_openTag (outside rest : List Char) (plain : '<' ∉ outside) (passed : Nat) :
    findOpenTag passed (outside ++ openTag ++ rest) = .code (passed + outside.length + 6) := by
  induction outside generalizing passed with
  | nil => simp [openTag, findOpenTag, isTagSpace]
  | cons c outside ih =>
      simp only [List.mem_cons, not_or] at plain
      rw [List.cons_append, List.cons_append, findOpenTag, ih plain.2, List.length_cons]
      · congr 1
        omega
      · rintro _ rfl
        exact absurd rfl plain.1

theorem exists_closeTagLength (outside rest : List Char) :
    ∃ line html, outside = line ++ html ∧
      closeTagLength ('?' :: '>' :: (outside ++ openTag ++ rest)) = 2 + line.length := by
  unfold closeTagLength
  split
  · rename_i same
    cases outside with
    | nil => cases same
    | cons c html =>
        obtain rfl : c = '\n' := (List.cons.inj same).1
        exact ⟨['\n'], html, rfl, rfl⟩
  · rename_i same
    match outside with
    | [] => cases same
    | [_] => cases (List.cons.inj (List.cons.inj same).2).1
    | c :: d :: html =>
        obtain ⟨first, others⟩ := List.cons.inj same
        obtain rfl : c = '\r' := first
        obtain rfl : d = '\n' := (List.cons.inj others).1
        exact ⟨['\r', '\n'], html, rfl, rfl⟩
  · exact ⟨[], outside, rfl, rfl⟩

namespace Scanner

variable {scanner : Scanner} {comment after : Text}

theorem next_docComment (inside : scanner.inCode = true) (documents : comment.IsDocComment)
    (front : scanner.rest = comment ++ '?' :: '>' :: after) :
    scanner.next = Scanner.take
      { rest := '?' :: '>' :: after, pos := scanner.pos + comment.byteSize, inCode := false
        pendingDoc := some
          ⟨⟨scanner.pos, scanner.pos + comment.byteSize⟩, String.ofList comment⟩ }
      .semicolon (closeTagLength ('?' :: '>' :: after)) "" [] := by
  have opens : frontOf scanner.rest = .blockComment comment.length true true := by
    rw [front]
    exact frontOf_docComment documents _
  have passed : scanner.skipComment comment.length true =
      { rest := '?' :: '>' :: after, pos := scanner.pos + comment.byteSize, inCode := true
        pendingDoc := some
          ⟨⟨scanner.pos, scanner.pos + comment.byteSize⟩, String.ofList comment⟩ } := by
    simp [skipComment, skip, front, inside]
  have closes : frontOf ('?' :: '>' :: after) =
      .closeTag (closeTagLength ('?' :: '>' :: after)) := by
    simp [frontOf, isSeparatorSpace]
  simp [next, nextFrom, inside, opens, passed, closes]

theorem next_openTag {outside rest : Text} (inside : scanner.inCode = false)
    (plain : '<' ∉ outside) (front : scanner.rest = outside ++ openTag ++ rest)
    (more : frontOf rest = .token) :
    scanner.next =
      Scanner.takeToken { scanner.skip (outside.length + 6) with inCode := true } [] := by
  have opens : findOpenTag 0 scanner.rest = .code (outside.length + 6) := by
    rw [front, findOpenTag_openTag outside rest plain, Nat.zero_add]
  have passed : (scanner.skip (outside.length + 6)).rest = rest := by
    have size : outside.length + 6 = (outside ++ openTag).length := by simp [openTag]
    rw [skip, front, size, List.drop_left]
  simp [next, nextFrom, inside, opens, passed, more]

/-- The comment waits while the tags are left and entered again. -/
theorem next_across_tags {outside rest : Text} (inside : scanner.inCode = true)
    (documents : comment.IsDocComment) (plain : '<' ∉ outside) (more : frontOf rest = .token)
    (front : scanner.rest = comment ++ ['?', '>'] ++ outside ++ openTag ++ rest) :
    scanner.next.1.IsTag ∧ scanner.next.1.span.start = scanner.pos + comment.byteSize ∧
      scanner.next.2.next.1.doc = some
        ⟨⟨scanner.pos, scanner.pos + comment.byteSize⟩, String.ofList comment⟩ := by
  obtain ⟨line, html, split, length⟩ := exists_closeTagLength outside rest
  have written : scanner.rest = comment ++ '?' :: '>' :: (outside ++ openTag ++ rest) := by
    rw [front]
    simp
  have closing := next_docComment inside documents written
  have bare : '<' ∉ html := fun among => plain (split ▸ List.mem_append_right line among)
  have left : scanner.next.2.rest = html ++ openTag ++ rest := by
    rw [closing, length, split]
    simp [take, skip, Nat.add_comm 2]
  have outer : scanner.next.2.inCode = false := by
    rw [closing]
    rfl
  refine ⟨.closing ?_ ?_, ?_, ?_⟩
  · rw [closing]
    rfl
  · rw [closing, length]
    change ['?', '>'] <+: ('?' :: '>' :: (outside ++ openTag ++ rest)).take (2 + line.length)
    rw [Nat.add_comm]
    exact ⟨_, rfl⟩
  · rw [closing]
    rfl
  · rw [next_openTag outer bare left more, closing]
    rfl

end Scanner

open TokenReader in
/-- A documentation comment is attached to a token that comes after it, and what stands between
them are tags at most. There can be tags: a comment before a closing tag is attached to the first
token after the next opening one. -/
theorem doc_comments_cross_tags (text : Text) (inCode : Bool) :
    let token := (TokenReader.ofText text inCode).scan
    (∀ count doc, (token count).doc = some doc →
      doc.span.stop ≤ (token count).span.start ∧
      text.slice doc.span.start doc.span.stop = doc.text.toList ∧
      Text.IsDocComment doc.text.toList ∧
      ∀ other < count, (token other).span.stop ≤ doc.span.start ∨
        doc.span.stop ≤ (token other).span.start ∧ (token other).IsTag) ∧
    ∀ comment outside rest : Text,
      text = comment ++ ['?', '>'] ++ outside ++ openTag ++ rest → inCode = true →
      comment.IsDocComment → '<' ∉ outside → frontOf rest = .token →
      (token 0).IsTag ∧ (token 0).span.start = comment.byteSize ∧
      (token 1).doc = some ⟨⟨0, comment.byteSize⟩, String.ofList comment⟩ := by
  intro token
  constructor
  · intro count doc own
    have stands : (ofText text inCode).scanner.StandsIn text := ⟨[], rfl, rfl⟩
    have keeps : (ofText text inCode).scanner.Keeps text := nofun
    obtain ⟨-, after, slice, documents, inside⟩ := (attaches_scan stands keeps count).taken doc own
    refine ⟨after, slice, documents, fun other before => ?_⟩
    obtain pending | later := awaits_scan stands keeps own (Nat.succ_le_of_lt before)
    · obtain ⟨-, passed, tag | ended⟩ := (attaches_scan stands keeps other).left doc pending
      · exact .inr ⟨passed, tag⟩
      · exact absurd (endOfFile_of_le ended (Nat.le_of_lt before)) inside
    · exact .inl ((cuts_scan stands other).stop ▸ later)
  · intro comment outside rest written inside documents plain more
    have code : (ofText text inCode).scanner.inCode = true := inside
    obtain ⟨tag, start, own⟩ := Scanner.next_across_tags code documents plain more written
    exact ⟨tag, start.trans (Nat.zero_add _), own.trans (by rw [ofText, Nat.zero_add])⟩

/-- What a closing tag leaves behind documents a name in the code after the next opening one. -/
theorem doc_comment_crosses_closing_tag :
    let token := (TokenReader.ofText "/** d */?>x<?php f".toList true).scan
    Text.IsDocComment "/** d */".toList ∧ '<' ∉ ['x'] ∧ frontOf ['f'] = .token ∧
      (token 1).lexeme = ['f'] ∧ (token 1).doc = some ⟨⟨0, 8⟩, "/** d */"⟩ ∧
      (token 0).IsTag ∧ (token 0).span = ⟨8, 10⟩ ∧ 8 ≤ (token 1).span.start := by
  intro token
  have documents : Text.IsDocComment "/** d */".toList := ⟨' ', ['d', ' '], rfl, rfl, by decide⟩
  have plain : '<' ∉ ['x'] := by decide
  have more : frontOf ['f'] = .token := rfl
  obtain ⟨ordered, across⟩ := doc_comments_cross_tags "/** d */?>x<?php f".toList true
  obtain ⟨tag, -, own⟩ := across "/** d */".toList ['x'] ['f'] rfl rfl documents plain more
  obtain ⟨after, -⟩ := ordered 1 _ own
  have lexeme : (token 1).lexeme = ['f'] := by decide +kernel
  have span : (token 0).span = ⟨8, 10⟩ := by decide +kernel
  exact ⟨documents, plain, more, lexeme, own, tag, span, after⟩

end StaticReflection
