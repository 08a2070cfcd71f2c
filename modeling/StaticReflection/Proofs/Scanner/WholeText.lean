import StaticReflection.Token.Basic

namespace StaticReflection

/-! The scanner passes the whole text: every token before the end takes at least one
character, and the last one stands at the end. -/

namespace Text

theorem foldl_utf8Size (text : Text) (size : Nat) :
    text.foldl (fun size c => size + c.utf8Size) size = size + byteSize text := by
  induction text generalizing size with
  | nil => rfl
  | cons c text ih =>
      simp only [byteSize, List.foldl_cons, Nat.zero_add]
      rw [ih, ih c.utf8Size]
      omega

theorem byteSize_append (first second : Text) :
    byteSize (first ++ second) = byteSize first + byteSize second := by
  rw [byteSize, List.foldl_append, foldl_utf8Size]
  rfl

end Text

/-! Lexemes. -/

/-- A token that takes at least one character and is not the end. -/
structure Lexeme.Proper (lexeme : Lexeme) : Prop where
  taken : 0 < lexeme.length
  inside : lexeme.kind ≠ .endOfFile

/-- A proper token that is no integer. -/
structure Lexeme.Plain (lexeme : Lexeme) : Prop extends lexeme.Proper where
  uncounted : lexeme.kind ≠ .integerLiteral

theorem mem_reservedWords {word : String} {kind : TokenKind} (found : keyword? word = some kind) :
    (foldCase word, kind) ∈ reservedWords := by
  obtain ⟨before, after, split, _⟩ := List.lookup_eq_some_iff.mp found
  rw [split]
  exact List.mem_append_right _ List.mem_cons_self

theorem nameKind_ne (qualified : Bool) (value : String) :
    nameKind qualified value ≠ .endOfFile ∧ nameKind qualified value ≠ .integerLiteral := by
  unfold nameKind
  split
  · exact ⟨nofun, nofun⟩
  · have reserved : ∀ entry ∈ reservedWords,
        entry.2 ≠ .endOfFile ∧ entry.2 ≠ .integerLiteral := by decide
    cases found : keyword? value with
    | none => exact ⟨nofun, nofun⟩
    | some kind => exact reserved _ (mem_reservedWords found)

theorem isNamePart_of_isNameStart {c : Char} (start : isNameStart c = true) :
    isNamePart c = true := by
  simp only [isNameStart, isNamePart, Char.isAlphanum, Bool.or_eq_true] at start ⊢
  grind

theorem lexName_plain {c : Char} {rest : List Char}
    (named : isNameStart c || (c == '\\' && startsName rest)) :
    (lexName (c :: rest)).Plain := by
  unfold lexName nameExtent
  extract_lets lead first after more group
  refine ⟨⟨?_, ?_⟩, ?_⟩
  · have started : 0 < first := by
      by_cases separator : c = '\\'
      · simp only [first, lead, separator, List.head?_cons, if_true]
        exact Nat.add_pos_left Nat.one_pos _
      · have start : isNameStart c = true := by simpa [separator] using named
        simp [first, lead, separator, isNamePart_of_isNameStart start]
    change 0 < first + more + group
    omega
  · dsimp only
    exact (nameKind_ne _ _).1
  · dsimp only
    exact (nameKind_ne _ _).2

/-- A digit, or a point before one. -/
def startsNumber : List Char → Bool
  | c :: rest => c.isDigit || (c == '.' && rest.head?.any Char.isDigit)
  | [] => false

theorem numberExtent_pos {c : Char} {rest : List Char}
    (numeric : startsNumber (c :: rest) = true) :
    0 < (numberExtent (c :: rest)).2 := by
  unfold numberExtent
  split
  · exact Nat.add_pos_left Nat.two_pos _
  · by_cases digit : c.isDigit = true
    · have part : isDecimalPart c = true := by simp [isDecimalPart, digit]
      simp only [List.takeWhile_cons_of_pos part, List.length_cons]
      omega
    · obtain ⟨rfl, next⟩ : c = '.' ∧ rest.head?.any Char.isDigit = true := by
        simpa [startsNumber, digit] using numeric
      have other : rest.head? ≠ some '.' := by
        intro dot
        rw [dot] at next
        cases next
      have part : ¬ isDecimalPart '.' = true := by decide
      simp only [List.takeWhile_cons_of_neg part, List.length_nil, List.drop_zero, if_neg other]
      omega

theorem lexNumber_proper {c : Char} {rest : List Char}
    (numeric : startsNumber (c :: rest) = true) :
    (lexNumber (c :: rest)).Proper := by
  refine ⟨numberExtent_pos numeric, ?_⟩
  change (numberExtent (c :: rest)).1 ≠ .endOfFile
  unfold numberExtent
  split
  · exact nofun
  · extract_lets whole afterWhole point exponent
    change (if point + exponent = 0 then _ else _) ≠ TokenKind.endOfFile
    split <;> exact nofun

theorem singleQuoted_length_ge (read : List Char) (length : Nat) (text : List Char) :
    length ≤ (singleQuoted read length text).2.1 := by
  fun_induction singleQuoted read length text with
  | case1 => exact Nat.le_refl _
  | case2 => exact Nat.le_succ _
  | case3 read length text ih => omega
  | case4 read length text ih => omega
  | case5 read length c text _ _ _ ih => omega

theorem lexPunctuation_plain (text : List Char) : (lexPunctuation text).Plain := by
  unfold lexPunctuation
  split
  · rename_i kind length found
    obtain ⟨entry, among, equal⟩ := Option.map_eq_some_iff.mp found
    have listed := List.mem_of_find?_eq_some among
    have all : ∀ entry ∈ punctuation,
        0 < entry.1.length ∧ entry.2 ≠ .endOfFile ∧ entry.2 ≠ .integerLiteral := by decide
    obtain ⟨taken, inside, uncounted⟩ := all entry listed
    cases equal
    exact ⟨⟨taken, inside⟩, uncounted⟩
  · exact ⟨⟨Nat.one_pos, nofun⟩, nofun⟩

/-! The search for the closing double quote comes to the same quote as any search for a quote,
and what it notes on the way is what the body has by itself. -/

theorem quotedLength?_le {quote : Char} {length stop : Nat} {text : List Char}
    (closed : quotedLength? quote length text = some stop) : length ≤ stop := by
  fun_induction quotedLength? quote length text with
  | case1 => cases closed
  | case2 length c rest ih =>
      have := ih closed
      omega
  | case3 =>
      cases closed
      exact Nat.le_refl _
  | case4 length c rest unescaped other ih =>
      have := ih closed
      omega

theorem quotedLength?_self {quote : Char} {length : Nat} {text : List Char}
    (closed : quotedLength? quote length text = some length) : text.head? = some quote := by
  unfold quotedLength? at closed
  split at closed
  · cases closed
  · have := quotedLength?_le closed
    omega
  · split at closed
    · rename_i same
      exact congrArg some same
    · have := quotedLength?_le closed
      omega

/-- No expression begins at an escape. -/
theorem hasInterpolation_eq_opensExpression {c : Char} {text : List Char}
    (unescaped : ∀ next rest, c = '\\' → text = next :: rest → False) :
    hasInterpolation (c :: text) = (opensExpression c text || hasInterpolation text) := by
  by_cases backslash : c = '\\'
  · subst backslash
    cases text with
    | nil => rfl
    | cons next rest => exact (unescaped next rest rfl rfl).elim
  · unfold opensExpression
    by_cases dollar : c = '$'
    · subst dollar
      cases text <;> simp [hasInterpolation]
    · by_cases brace : c = '\x7b'
      · subst brace
        cases text <;> simp [hasInterpolation]
      · rw [hasInterpolation]
        · simp [dollar, brace]
        · exact unescaped
        · exact fun same => absurd same backslash
        · exact fun _ _ same => absurd same dollar
        · exact fun _ _ same => absurd same brace

/-- A body that ends here begins no expression, and otherwise only its first character counts. -/
theorem opensExpression_take {length more : Nat} {text : List Char}
    (closed : quotedLength? '"' length text = some (length + more)) (c : Char) :
    opensExpression c (text.take more) = opensExpression c text := by
  cases more with
  | succ more => cases text <;> rfl
  | zero =>
      have ends : text.head? = some '"' := quotedLength?_self closed
      rw [List.take_zero, opensExpression, opensExpression, ends]
      simp [isNameStart]

theorem doubleQuotedExtent_of_closed {length stop : Nat} {text : List Char}
    (closed : quotedLength? '"' length text = some stop) (interpolated : Bool) :
    doubleQuotedExtent length interpolated text =
      ⟨stop, true, interpolated || hasInterpolation (text.take (stop - length))⟩ := by
  fun_induction doubleQuotedExtent length interpolated text with
  | case1 => cases closed
  | case2 length interpolated c text ih =>
      rw [quotedLength?] at closed
      obtain ⟨more, rfl⟩ := Nat.exists_eq_add_of_le (quotedLength?_le closed)
      have count : length + 2 + more - length = more + 2 := by omega
      rw [ih closed, count, Nat.add_sub_cancel_left]
      rfl
  | case3 length interpolated text =>
      rw [quotedLength?, if_pos rfl] at closed
      · cases closed
        simp [hasInterpolation]
      · exact nofun
  | case4 length interpolated c text unescaped other ih =>
      rw [quotedLength?, if_neg other] at closed
      · obtain ⟨more, rfl⟩ := Nat.exists_eq_add_of_le (quotedLength?_le closed)
        have count : length + 1 + more - length = more + 1 := by omega
        have unescapedToo : ∀ next rest, c = '\\' → text.take more = next :: rest → False := by
          rintro next rest rfl equal
          cases text with
          | nil => cases closed
          | cons next rest => exact unescaped next rest rfl rfl
        rw [ih closed, count, Nat.add_sub_cancel_left, List.take_succ_cons,
          hasInterpolation_eq_opensExpression unescapedToo, opensExpression_take closed,
          Bool.or_assoc]
      · exact fun d rest => unescaped d rest

theorem doubleQuotedExtent_of_open {length : Nat} {text : List Char}
    (unclosed : quotedLength? '"' length text = none) (interpolated : Bool) :
    doubleQuotedExtent length interpolated text =
      ⟨length + text.length, false, interpolated || hasInterpolation text⟩ := by
  fun_induction doubleQuotedExtent length interpolated text with
  | case1 => simp [hasInterpolation]
  | case2 length interpolated c text ih =>
      rw [quotedLength?] at unclosed
      rw [ih unclosed, hasInterpolation]
      simp only [List.length_cons, QuotedExtent.mk.injEq]
      exact ⟨by omega, trivial, trivial⟩
  | case3 length interpolated text =>
      rw [quotedLength?, if_pos rfl] at unclosed
      · cases unclosed
      · exact nofun
  | case4 length interpolated c text unescaped other ih =>
      rw [quotedLength?, if_neg other] at unclosed
      · rw [ih unclosed, hasInterpolation_eq_opensExpression unescaped, List.length_cons,
          Bool.or_assoc, Nat.add_right_comm, Nat.add_assoc]
      · exact fun d rest => unescaped d rest

theorem lexDoubleQuoted_of_closed {text : List Char} {stop : Nat}
    (closed : quotedLength? '"' 0 text = some stop) (quote : Char) :
    lexDoubleQuoted (quote :: text) =
      if hasInterpolation (text.take stop) then
        { kind := .interpolatedString, length := stop + 2
          value := String.ofList (text.take stop) }
      else .ofBytes (stop + 2) (decodeEscapes (some '"') (text.take stop)) {} none := by
  rw [lexDoubleQuoted, List.tail_cons, doubleQuotedExtent_of_closed closed]
  rfl

theorem lexDoubleQuoted_of_open {text : List Char} (unclosed : quotedLength? '"' 0 text = none)
    (quote : Char) :
    lexDoubleQuoted (quote :: text) =
      if hasInterpolation text then
        { kind := .interpolatedString, length := text.length + 1, value := String.ofList text
          flags := { unterminated := true }, problem := some unterminatedString }
      else .ofBytes (text.length + 1) (decodeEscapes (some '"') text) { unterminated := true }
        (some unterminatedString) := by
  rw [lexDoubleQuoted, List.tail_cons, doubleQuotedExtent_of_open unclosed, Nat.zero_add,
    List.take_length]
  rfl

theorem lexDoubleQuoted_plain (text : List Char) : (lexDoubleQuoted text).Plain := by
  unfold lexDoubleQuoted
  extract_lets extent body length
  have taken : 0 < length := by
    cases closed : extent.closed <;> simp [length, closed]
  split
  · exact ⟨⟨taken, nofun⟩, nofun⟩
  · exact ⟨⟨taken, nofun⟩, nofun⟩

theorem lexShellCommand_plain (c : Char) (rest : List Char) :
    (lexShellCommand (c :: rest)).Plain := by
  refine ⟨⟨?_, nofun⟩, nofun⟩
  simp only [lexShellCommand]
  split
  · exact Nat.succ_pos _
  · exact Nat.succ_pos _

theorem heredocOpening_length_pos {text : List Char} {opening : HeredocOpening}
    (opened : HeredocOpening.read? text = some opening) : 0 < opening.length := by
  unfold HeredocOpening.read? at opened
  extract_lets blanks start quote quoteLength label labelEnd lineEnd last ended labelled at opened
  have starts : 0 < start := Nat.add_pos_left (Nat.succ_pos 2) _
  split at opened
  · cases opened
  change (if _ then _ else _) = some opening at opened
  split at opened
  · cases opened
  change (if _ then _ else _) = some opening at opened
  split at opened
  · cases opened
  · cases opened
    change 0 < start + quoteLength + label.length + quoteLength + lineEnd
    omega

theorem lexHeredoc?_plain {text : List Char} {lexeme : Lexeme} (inside : text ≠ [])
    (found : lexHeredoc? text = some lexeme) : lexeme.Plain := by
  unfold lexHeredoc? at found
  obtain ⟨opening, opened, read⟩ := Option.bind_eq_some_iff.mp found
  have start := heredocOpening_length_pos opened
  dsimp only at read
  split at read
  · cases read
    exact ⟨⟨List.length_pos_iff.mpr inside, nofun⟩, nofun⟩
  · split at read
    · cases read
      exact ⟨⟨Nat.add_pos_left start _, nofun⟩, nofun⟩
    split at read
    · cases read
      exact ⟨⟨Nat.add_pos_left start _, nofun⟩, nofun⟩
    · cases read
      exact ⟨⟨Nat.add_pos_left start _, nofun⟩, nofun⟩

theorem lexCast?_plain {text : List Char} {lexeme : Lexeme}
    (found : lexCast? text = some lexeme) : lexeme.Plain := by
  unfold lexCast? at found
  extract_lets blanks wordStart word wordEnd close opened at found
  split at found
  · cases found
  · obtain ⟨type, _, cast⟩ := Option.bind_eq_some_iff.mp found
    cases cast
    exact ⟨⟨Nat.succ_pos _, nofun⟩, nofun⟩

theorem lexToken_number_or_plain (c : Char) (rest : List Char) :
    startsNumber (c :: rest) = true ∧ lexToken (c :: rest) = lexNumber (c :: rest) ∨
      (lexToken (c :: rest)).Plain := by
  unfold lexToken
  dsimp only
  split
  · exact .inr ⟨⟨Nat.succ_pos _, nofun⟩, nofun⟩
  split
  · exact .inr (lexName_plain ‹_›)
  split
  · exact .inl ⟨‹_›, rfl⟩
  refine .inr ?_
  split
  · exact ⟨⟨singleQuoted_length_ge [] 1 rest, nofun⟩, nofun⟩
  split
  · exact lexDoubleQuoted_plain _
  split
  · exact lexShellCommand_plain _ _
  split
  · cases found : lexHeredoc? (c :: rest) with
    | none => exact lexPunctuation_plain _
    | some lexeme => exact lexHeredoc?_plain (List.cons_ne_nil _ _) found
  split
  · cases found : lexCast? (c :: rest) with
    | none => exact lexPunctuation_plain _
    | some lexeme => exact lexCast?_plain found
  · exact lexPunctuation_plain _

theorem lexToken_proper (c : Char) (rest : List Char) : (lexToken (c :: rest)).Proper := by
  obtain ⟨numeric, same⟩ | plain := lexToken_number_or_plain c rest
  · rw [same]
    exact lexNumber_proper numeric
  · exact plain.toProper

/-! Reading on. -/

/-- What a front part of a text says about it. -/
def Front.Fits (text : List Char) : Front → Prop
  | .done => text = []
  | .blank length => text ≠ [] ∧ 0 < length
  | .blockComment length _ _ => text ≠ [] ∧ 0 < length
  | .closeTag length => text ≠ [] ∧ 0 < length
  | .token => text ≠ []

theorem lineCommentLength_pos {c : Char} {text : List Char}
    (marked : c = '#' ∨ c = '/') : 0 < lineCommentLength (c :: text) := by
  unfold lineCommentLength
  obtain rfl | rfl := marked <;> simp

theorem closeTagLength_pos (text : List Char) : 0 < closeTagLength text := by
  unfold closeTagLength
  split <;> decide

theorem blockCommentEnd?_ge {length stop : Nat} {text : List Char}
    (closed : blockCommentEnd? length text = some stop) : length ≤ stop := by
  fun_induction blockCommentEnd? length text with
  | case1 length => cases closed; omega
  | case2 length c text _ ih => exact Nat.le_trans (Nat.le_succ _) (ih closed)
  | case3 => cases closed

theorem frontOf_fits (text : List Char) : (frontOf text).Fits text := by
  cases text with
  | nil => rfl
  | cons c text =>
      rw [frontOf]
      split
      · exact ⟨List.cons_ne_nil _ _, Nat.one_pos⟩
      split
      · rename_i comment
        refine ⟨List.cons_ne_nil _ _, lineCommentLength_pos ?_⟩
        simp only [Bool.or_eq_true, Bool.and_eq_true, beq_iff_eq] at comment
        exact comment.imp And.left And.left
      split
      · refine ⟨List.cons_ne_nil _ _, ?_⟩
        cases closed : blockCommentEnd? 2 text.tail with
        | none => exact Nat.succ_pos _
        | some stop => exact Nat.lt_of_lt_of_le Nat.two_pos (blockCommentEnd?_ge closed)
      split
      · exact ⟨List.cons_ne_nil _ _, closeTagLength_pos _⟩
      · exact List.cons_ne_nil _ _

theorem findOpenTag_echo {passed before : Nat} {text : List Char}
    (found : findOpenTag passed text = .echo before) :
    passed ≤ before ∧ before < passed + text.length := by
  fun_induction findOpenTag passed text with
  | case1 => cases found
  | case2 passed text prints =>
      cases found
      simp
  | case3 => cases found
  | case4 passed text _ _ ih =>
      obtain ⟨above, below⟩ := ih found
      simp only [List.length_cons]
      omega
  | case5 passed c text _ ih =>
      obtain ⟨above, below⟩ := ih found
      simp only [List.length_cons]
      omega

namespace Scanner

/-- The next place is not before this one in the same text. -/
structure Passes (scanner next : Scanner) : Prop where
  size : next.pos + Text.byteSize next.rest = scanner.pos + Text.byteSize scanner.rest
  rest : next.rest.length ≤ scanner.rest.length

/-- The next token is read: the end only after the whole text, any other one from at least
one character. -/
structure Reads (scanner : Scanner) (token : Token) (next : Scanner) : Prop where
  passes : scanner.Passes next
  ended : token.kind = .endOfFile → next.rest = [] ∧ token.span.start = next.pos
  taken : token.kind ≠ .endOfFile → next.rest.length < scanner.rest.length

theorem skip_passes (scanner : Scanner) (length : Nat) :
    scanner.Passes (scanner.skip length) := by
  constructor
  · have whole := congrArg Text.byteSize (List.take_append_drop length scanner.rest)
    rw [Text.byteSize_append] at whole
    simp only [skip]
    omega
  · simp [skip]

variable {scanner middle next : Scanner} {token : Token}

theorem Passes.reads (passes : scanner.Passes middle) (reads : middle.Reads token next) :
    scanner.Reads token next where
  passes := ⟨reads.passes.size.trans passes.size, Nat.le_trans reads.passes.rest passes.rest⟩
  ended := reads.ended
  taken inside := Nat.lt_of_lt_of_le (reads.taken inside) passes.rest

theorem take_reads {kind : TokenKind} {length : Nat} (inside : kind ≠ .endOfFile)
    (taken : 0 < length) (more : scanner.rest ≠ []) (value : String)
    (problems : List ScanProblem) :
    scanner.Reads (scanner.take kind length value problems).1
      (scanner.take kind length value problems).2 where
  passes := scanner.skip_passes length
  ended ended := absurd ended inside
  taken _ := by
    have positive := List.length_pos_iff.mpr more
    simp only [take, skip, List.length_drop]
    omega

theorem takeEnd_reads (finished : scanner.rest = []) (problems : List ScanProblem) :
    scanner.Reads (scanner.take .endOfFile 0 "" problems).1
      (scanner.take .endOfFile 0 "" problems).2 where
  passes := scanner.skip_passes 0
  ended _ := ⟨by simp [take, skip, finished], rfl⟩
  taken inside := absurd rfl inside

theorem takeToken_reads (more : scanner.rest ≠ []) (problems : List ScanProblem) :
    scanner.Reads (scanner.takeToken problems).1 (scanner.takeToken problems).2 := by
  obtain ⟨c, rest, front⟩ := List.exists_cons_of_ne_nil more
  have proper := lexToken_proper c rest
  rw [← front] at proper
  have taken := take_reads proper.inside proper.taken more "" []
  exact ⟨⟨taken.passes.size, taken.passes.rest⟩, fun ended => absurd ended proper.inside,
    taken.taken⟩

theorem enter_passes (scanner : Scanner) (length : Nat) :
    scanner.Passes { scanner.skip length with inCode := true } :=
  ⟨(scanner.skip_passes length).size, (scanner.skip_passes length).rest⟩

@[simp] theorem skipComment_rest (scanner : Scanner) (length : Nat) (isDoc : Bool) :
    (scanner.skipComment length isDoc).rest = (scanner.skip length).rest := by
  cases isDoc <;> rfl

@[simp] theorem skipComment_pos (scanner : Scanner) (length : Nat) (isDoc : Bool) :
    (scanner.skipComment length isDoc).pos = (scanner.skip length).pos := by
  cases isDoc <;> rfl

@[simp] theorem skipComment_inCode (scanner : Scanner) (length : Nat) (isDoc : Bool) :
    (scanner.skipComment length isDoc).inCode = scanner.inCode := by
  cases isDoc <;> rfl

theorem length_skip_lt {length : Nat} (more : scanner.rest ≠ []) (taken : 0 < length) :
    (scanner.skip length).rest.length < scanner.rest.length := by
  have positive := List.length_pos_iff.mpr more
  simp only [skip, List.length_drop]
  omega

/-- The steps before a token use up characters, or the one entrance into the tags. -/
theorem nextFrom_reads (scanner : Scanner) (fuel : Nat) (problems : List ScanProblem)
    (enough : scanner.rest.length + (if scanner.inCode then 1 else 2) ≤ fuel) :
    scanner.Reads (scanner.nextFrom fuel problems).1 (scanner.nextFrom fuel problems).2 := by
  induction fuel generalizing scanner problems with
  | zero => split at enough <;> omega
  | succ fuel ih =>
      unfold nextFrom
      cases code : scanner.inCode with
      | false =>
          simp only [code, Bool.false_eq_true, if_false] at enough
          simp only [Bool.not_false, if_true]
          cases tag : findOpenTag 0 scanner.rest with
          | none =>
              refine (scanner.skip_passes scanner.rest.length).reads (takeEnd_reads ?_ problems)
              simp [skip]
          | code length =>
              refine (scanner.enter_passes length).reads (ih _ problems ?_)
              have shorter := (scanner.skip_passes length).rest
              simp only [if_true]
              omega
          | echo before =>
              have inside := (findOpenTag_echo tag).2
              refine (scanner.enter_passes before).reads ?_
              refine take_reads (by decide) (by decide) ?_ "echo" problems
              simp only [skip, ne_eq, List.drop_eq_nil_iff]
              omega
      | true =>
          simp only [code, if_true] at enough
          simp only [Bool.not_true, Bool.false_eq_true, if_false]
          have fits := frontOf_fits scanner.rest
          cases front : frontOf scanner.rest with
          | done =>
              rw [front] at fits
              exact takeEnd_reads fits problems
          | blank length =>
              rw [front] at fits
              have shorter := length_skip_lt fits.1 fits.2
              refine (scanner.skip_passes length).reads (ih _ problems ?_)
              simp only [skip, code, if_true] at shorter ⊢
              omega
          | blockComment length closed isDoc =>
              rw [front] at fits
              have shorter := length_skip_lt fits.1 fits.2
              have passes : scanner.Passes (scanner.skipComment length isDoc) := by
                constructor
                · simpa using (scanner.skip_passes length).size
                · simpa using (scanner.skip_passes length).rest
              refine passes.reads (ih _ _ ?_)
              simp only [skipComment_rest, skipComment_inCode, code, if_true]
              omega
          | closeTag length =>
              rw [front] at fits
              have passes : scanner.Passes { scanner with inCode := false } :=
                ⟨rfl, Nat.le_refl _⟩
              refine passes.reads (take_reads (by decide) fits.2 ?_ "" problems)
              exact fits.1
          | token =>
              rw [front] at fits
              exact takeToken_reads fits problems

theorem next_reads (scanner : Scanner) : scanner.Reads scanner.next.1 scanner.next.2 := by
  refine scanner.nextFrom_reads _ _ ?_
  split <;> omega

/-- The tokens from a place to the end of the text, which the last one marks. -/
def Exhausts (scanner : Scanner) (tokens : List Token) : Prop :=
  ∃ before last, tokens = before ++ [last] ∧ (∀ token ∈ before, token.kind ≠ .endOfFile) ∧
    before.length ≤ scanner.rest.length ∧ last.kind = .endOfFile ∧
    last.span.start = scanner.pos + Text.byteSize scanner.rest

theorem tokensFrom_exhausts (scanner : Scanner) (fuel : Nat)
    (enough : scanner.rest.length < fuel) : scanner.Exhausts (scanner.tokensFrom fuel) := by
  induction fuel generalizing scanner with
  | zero => omega
  | succ fuel ih =>
      have reads := scanner.next_reads
      unfold tokensFrom
      generalize scanner.next = read at reads
      obtain ⟨token, next⟩ := read
      dsimp only at reads ⊢
      split
      · rename_i ended
        obtain ⟨finished, start⟩ := reads.ended ended
        have size := reads.passes.size
        refine ⟨[], token, rfl, by simp, Nat.zero_le _, ended, ?_⟩
        rw [start, ← size, finished]
        rfl
      · rename_i inside
        have shorter := reads.taken inside
        obtain ⟨before, last, split, others, count, ended, start⟩ := ih next (by omega)
        refine ⟨token :: before, last, by rw [split]; rfl, ?_, ?_, ended, ?_⟩
        · exact List.forall_mem_cons.mpr ⟨inside, others⟩
        · simp only [List.length_cons]
          omega
        · rw [start, reads.passes.size]

theorem tokens_exhausts (scanner : Scanner) : scanner.Exhausts scanner.tokens :=
  scanner.tokensFrom_exhausts _ (Nat.lt_succ_self _)

end Scanner

end StaticReflection
