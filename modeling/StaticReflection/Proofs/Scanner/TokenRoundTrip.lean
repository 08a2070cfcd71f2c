import StaticReflection.Proofs.Parser.RenderedExpressions
import StaticReflection.Proofs.Scanner.WholeText
import StaticReflection.Proofs.Values.DecimalDigits

namespace StaticReflection

/-! The scanner reads a rendered token back, if what follows does not make it longer. -/

theorem takeWhile_append_stop {p : Char → Bool} {first rest : List Char}
    (all : ∀ c ∈ first, p c = true) (stop : ∀ c ∈ rest.head?, p c = false) :
    (first ++ rest).takeWhile p = first := by
  rw [List.takeWhile_append_of_pos all]
  cases rest with
  | nil => simp
  | cons c rest => simp [stop c rfl]

/-- A lexeme is the one of a piece. -/
structure Piece.Lexed (piece : Piece) (lexeme : Lexeme) : Prop where
  mark : ⟨lexeme.kind, lexeme.value, lexeme.bytes⟩ = piece.mark
  length : lexeme.length = piece.text.length
  problem : lexeme.problem = none

/-- Whether a word or a number ends before a character. -/
def endsName (c : Char) : Bool :=
  !isNamePart c && c != '\\' && c != '.'

theorem isNamePart_of_endsName {c : Char} (ends : endsName c = true) : isNamePart c = false := by
  simp only [endsName, Bool.and_eq_true, Bool.not_eq_true'] at ends
  exact ends.1.1

theorem not_mem_of_class {p : Char → Bool} {c : Char} {others : List Char} {b : Bool}
    (is : p c = b) (apart : others.all (p · != b) = true) : c ∉ others := by
  intro among
  have := List.all_eq_true.mp apart c among
  simp [is] at this

theorem frontOf_namePart {c : Char} {rest : List Char} (part : isNamePart c = true) :
    frontOf (c :: rest) = .token := by
  have other : c ∉ [' ', '\t', '\r', '\n', '\x0b', '\x0c', '#', '/', '?'] :=
    not_mem_of_class part (by decide)
  simp only [List.mem_cons, List.not_mem_nil, not_or] at other
  simp [frontOf, isSeparatorSpace, other]

/-! Words. -/

namespace Word

theorem exists_cons (word : Word) :
    ∃ c text, word.text = c :: text ∧ isNameStart c = true := by
  obtain ⟨text, starts, _⟩ := word
  cases text with
  | nil => cases starts
  | cons c text => exact ⟨c, text, rfl, starts⟩

theorem lexName_append (word : Word) {rest : List Char}
    (ends : ∀ c ∈ rest.head?, endsName c = true) :
    lexName (word.text ++ rest) =
      { kind := word.kind, length := word.text.length, value := word.value } := by
  obtain ⟨c, text, spelled, start⟩ := word.exists_cons
  have leading : (word.text ++ rest).head? ≠ some '\\' := by
    rw [spelled]
    rintro ⟨⟩
    cases start
  have taken : (word.text ++ rest).takeWhile isNamePart = word.text :=
    takeWhile_append_stop (List.all_eq_true.mp word.parts)
      fun c head => isNamePart_of_endsName (ends c head)
  have unseparated : rest.head? ≠ some '\\' := by
    intro head
    cases ends _ head
  have single : moreSegments rest.length rest = 0 := by
    cases rest with
    | nil => rfl
    | cons d rest =>
        rw [List.length_cons, moreSegments]
        rintro _ ⟨⟩
        exact unseparated rfl
  have ungrouped : rest.take 2 ≠ ['\\', '\x7b'] := by
    intro group
    apply unseparated
    cases rest with
    | nil => cases group
    | cons d rest => exact congrArg List.head? (group : d :: _ = _)
  unfold lexName nameExtent
  simp only [if_neg leading, Nat.zero_add, List.drop_zero, taken, List.drop_left, single,
    Nat.add_zero, if_neg ungrouped, List.take_left]
  rfl

theorem lexed (word : Word) {rest : List Char} (ends : ∀ c ∈ rest.head?, endsName c = true) :
    (Piece.word word).Lexed (lexToken (word.text ++ rest)) := by
  have lexes : lexToken (word.text ++ rest) = lexName (word.text ++ rest) := by
    obtain ⟨c, text, spelled, start⟩ := word.exists_cons
    have plain : c ≠ '$' := by
      rintro rfl
      cases start
    simp [spelled, lexToken, plain, start]
  rw [lexes, word.lexName_append ends]
  exact ⟨rfl, rfl, rfl⟩

end Word

/-! Numbers. -/

theorem isNamePart_of_isDecimalPart {c : Char} (decimal : isDecimalPart c = true) :
    isNamePart c = true := by
  simp only [isDecimalPart, isNamePart, Char.isAlphanum, Bool.or_eq_true] at decimal ⊢
  grind

theorem isNameStart_of_isDigit {c : Char} (digit : c.isDigit = true) :
    isNameStart c = false := by
  have each : ∀ code ≤ '9'.toNat, '0'.toNat ≤ code → isNameStart (.ofNat code) = false := by
    decide
  obtain ⟨least, most⟩ := Char.isDigit_iff_toNat.mp digit
  rw [← Char.ofNat_toNat c]
  exact each c.toNat most least

theorem markedBase?_eq_none {c : Char} {text : List Char}
    (unmarked : ∀ d ∈ text.head?, d ∉ ['x', 'X', 'b', 'B', 'o', 'O']) :
    markedBase? (c :: text) = none := by
  unfold markedBase?
  split
  · rename_i d _ same
    cases same
    have := unmarked d rfl
    simp_all
  · rfl

theorem numberExtent_digits {digits rest : List Char}
    (numeric : ∀ c ∈ digits, c.isDigit = true) (written : digits ≠ [])
    (ends : ∀ c ∈ rest.head?, endsName c = true) :
    numberExtent (digits ++ rest) = (.integerLiteral, digits.length) := by
  have decimal : (digits ++ rest).takeWhile isDecimalPart = digits := by
    apply takeWhile_append_stop
    · intro c among
      simp [isDecimalPart, numeric c among]
    · intro c head
      have apart := isNamePart_of_endsName (ends c head)
      cases decimal : isDecimalPart c with
      | false => rfl
      | true => simp [isNamePart_of_isDecimalPart decimal] at apart
  have unmarked : markedBase? (digits ++ rest) = none := by
    obtain ⟨c, digits, rfl⟩ := List.exists_cons_of_ne_nil written
    apply markedBase?_eq_none
    cases digits with
    | nil =>
        intro d head
        exact not_mem_of_class (isNamePart_of_endsName (ends d head)) (by decide)
    | cons d digits =>
        rintro _ ⟨⟩
        exact not_mem_of_class (numeric d (by simp)) (by decide)
  have pointless : ∀ text, rest ≠ '.' :: text := by
    rintro text rfl
    cases ends '.' rfl
  have whole : exponentLength rest = 0 := by
    cases rest with
    | nil => rfl
    | cons c rest =>
        have other : c ∉ ['e', 'E'] :=
          not_mem_of_class (isNamePart_of_endsName (ends c rfl)) (by decide)
        simp only [List.mem_cons, List.not_mem_nil, not_or] at other
        simp [exponentLength, other]
  unfold numberExtent
  simp [unmarked, decimal, whole]

theorem lexed_number (value : Nat) {rest : List Char}
    (ends : ∀ c ∈ rest.head?, endsName c = true) :
    (Piece.number value).Lexed (lexToken (Nat.toDigits 10 value ++ rest)) := by
  have numeric : ∀ c ∈ Nat.toDigits 10 value, c.isDigit = true :=
    isDigit_of_mem_toDigits
  have extent := numberExtent_digits numeric Nat.toDigits_ne_nil ends
  have lexes : lexToken (Nat.toDigits 10 value ++ rest) =
      lexNumber (Nat.toDigits 10 value ++ rest) := by
    obtain ⟨c, digits, written⟩ :=
      List.exists_cons_of_ne_nil (Nat.toDigits_ne_nil : Nat.toDigits 10 value ≠ [])
    have digit : c.isDigit = true := numeric c (written ▸ List.mem_cons_self)
    have other : c ∉ ['$', '\\'] := not_mem_of_class digit (by decide)
    simp only [List.mem_cons, List.not_mem_nil, not_or] at other
    simp [written, lexToken, other, digit, isNameStart_of_isDigit digit]
  have kept : (Nat.toDigits 10 value).filter (· ≠ '_') = Nat.toDigits 10 value := by
    apply List.filter_eq_self.mpr
    intro c among
    have other : c ∉ ['_'] := not_mem_of_class (numeric c among) (by decide)
    simpa using other
  rw [lexes, lexNumber]
  simp only [extent, List.take_left, kept]
  exact ⟨rfl, rfl, rfl⟩

theorem integerLiteral_toDigits {value : Nat} (fits : value < 2 ^ 63) :
    integerLiteral (Nat.toDigits 10 value) = .int (.ofNat value) := by
  have decimal : literalBase (Nat.toDigits 10 value) = (Nat.toDigits 10 value, 10) := by
    cases value with
    | zero => rfl
    | succ value =>
        have leading := head?_toDigits (Nat.succ_pos value)
        unfold literalBase
        split
        · rename_i written
          simp [written] at leading
        · rfl
  have range : toInt64? value = some (.ofNat value) := by
    rw [toInt64?_eq, if_pos (by omega), Int64.ofInt_eq_ofNat]
  simp [integerLiteral, decimal, readInt64?, takeSign_toDigits, readDigits?_toDigits, range]

/-! Strings. -/

theorem singleQuoted_escaped (text read : List Char) (length : Nat) (rest : List Char) :
    singleQuoted read length (escaped text ++ '\'' :: rest) =
      (read.reverse ++ text, length + (escaped text).length + 1, true) := by
  induction text generalizing read length with
  | nil => simp [escaped, singleQuoted]
  | cons c text ih =>
      by_cases special : c = '\\' ∨ c = '\''
      · obtain rfl | rfl := special
        all_goals
          simp only [escaped, true_or, or_true, if_true, List.cons_append, singleQuoted, ih]
          simp
          omega
      · have backslash : c ≠ '\\' := fun is => special (.inl is)
        have quote : c ≠ '\'' := fun is => special (.inr is)
        simp only [escaped, special, if_false, List.cons_append]
        rw [singleQuoted, ih]
        · simp
          omega
        all_goals simp_all

theorem lexed_quoted (value : String) (rest : List Char) :
    (Piece.quoted value).Lexed (lexToken ((Piece.quoted value).text ++ rest)) := by
  have lexes : lexToken ((Piece.quoted value).text ++ rest) =
      lexSingleQuoted ('\'' :: (escaped value.toList ++ '\'' :: rest)) := by
    simp [Piece.text, lexToken, isNameStart]
  rw [lexes, lexSingleQuoted, List.tail_cons, singleQuoted_escaped]
  constructor
  · rfl
  · simp [Piece.text, Lexeme.ofBytes]
    omega
  · rfl

/-! Signs. -/

/-- The characters that make a sign longer. -/
def prolongs (sign : List Char) : List Char :=
  punctuation.filterMap fun entry =>
    if sign.isPrefixOf entry.1.toList then entry.1.toList[sign.length]? else none

theorem punctuation?_append {sign rest : List Char}
    (stop : ∀ c ∈ rest.head?, c ∉ prolongs sign) :
    punctuation? (sign ++ rest) = punctuation? sign := by
  have same : ∀ entry ∈ punctuation,
      entry.1.toList.isPrefixOf (sign ++ rest) = entry.1.toList.isPrefixOf sign := by
    intro entry among
    rw [Bool.eq_iff_iff, List.isPrefixOf_iff_prefix, List.isPrefixOf_iff_prefix]
    constructor
    · intro longer
      obtain shorter | ⟨more, spelled⟩ := List.prefix_or_prefix_of_prefix longer
        (List.prefix_append sign rest)
      · exact shorter
      · cases more with
        | nil => simp [← spelled]
        | cons c more =>
            obtain ⟨after, whole⟩ := longer
            have head : rest.head? = some c := by
              rw [← spelled, List.append_assoc] at whole
              rw [← List.append_cancel_left whole]
              rfl
            refine absurd (List.mem_filterMap.mpr ⟨entry, among, ?_⟩) (stop c head)
            simp [← spelled]
    · intro shorter
      exact shorter.trans (List.prefix_append sign rest)
  unfold punctuation?
  rw [← List.head?_filter, ← List.head?_filter, List.filter_congr same]

/-- Signs that stay as they are before any character. -/
def closedSigns : List TokenKind :=
  [.openParen, .closeParen, .openBracket, .closeBracket, .comma, .semicolon, .dotDotDot,
    .fatArrow, .colonColon]

/-- Signs that come before a parenthesis or a blank. -/
def openSigns : List TokenKind :=
  [.exclamation, .minus, .plus, .tilde, .question, .colon, .equals, .questionQuestion, .barBar,
    .ampersandAmpersand, .bar, .caret, .ampersand, .equalsEquals, .exclamationEquals,
    .equalsEqualsEquals, .exclamationEqualsEquals, .spaceship, .lessThan, .lessThanEquals,
    .greaterThan, .greaterThanEquals, .dot, .lessThanLessThan, .greaterThanGreaterThan,
    .asterisk, .slash, .percent, .asteriskAsterisk]

/-- What begins neither a word, a number, a string, a variable nor a cast. -/
def signStarts : List Char :=
  ['!', '%', '&', ')', '*', '+', ',', '-', '.', '/', ':', ';', '<', '=', '>', '?', '[', ']',
    '^', '|', '~']

theorem lexToken_sign {c : Char} {text : List Char} (start : c ∈ signStarts)
    (number : c = '.' → text.head?.any Char.isDigit = false)
    (heredoc : c = '<' → text.take 2 ≠ ['<', '<']) :
    lexToken (c :: text) = lexPunctuation (c :: text) := by
  have plain : (signStarts.all fun c => c != '$' && !isNameStart c && c != '\\' && !c.isDigit &&
      c != '\'' && c != '"' && c != '\x60' && c != '(') = true := by decide
  have := List.all_eq_true.mp plain c start
  simp only [Bool.and_eq_true, bne_iff_ne, Bool.not_eq_true'] at this
  grind [lexToken]

theorem frontOf_sign {c : Char} {text : List Char} (start : c ∈ signStarts)
    (slash : c = '/' → text.head? ≠ some '/' ∧ text.head? ≠ some '*')
    (question : c = '?' → text.head? ≠ some '>') : frontOf (c :: text) = .token := by
  have plain : (signStarts.all fun c => !isSeparatorSpace c && c != '#') = true := by decide
  have := List.all_eq_true.mp plain c start
  simp only [Bool.and_eq_true, bne_iff_ne, Bool.not_eq_true'] at this
  grind [frontOf]

/-- Whether a sign stays as it is before a character or the end of the text. -/
def stands (sign : List Char) (next : Option Char) : Bool :=
  match sign with
  | [] => false
  | c :: more =>
      let second := more.head?.or next
      signStarts.contains c && next.all (!(prolongs sign).contains ·) &&
        match c with
        | '.' => !second.any Char.isDigit
        | '<' => second != some '<' || more.tail.head?.or next != some '<'
        | '/' => second != some '/' && second != some '*'
        | '?' => second != some '>'
        | _ => true

theorem lexed_of_stands {kind : TokenKind} {rest : List Char}
    (known : punctuation? (spelling kind) = some (kind, (spelling kind).length))
    (alone : stands (spelling kind) rest.head? = true) :
    (Piece.sign kind).Lexed (lexToken (spelling kind ++ rest)) ∧
      frontOf (spelling kind ++ rest) = .token := by
  obtain ⟨c, more, spelled⟩ : ∃ c more, spelling kind = c :: more := by
    cases spelled : spelling kind with
    | nil => simp [spelled, stands] at alone
    | cons c more => exact ⟨c, more, rfl⟩
  have second : (more ++ rest).head? = more.head?.or rest.head? := List.head?_append
  have punctuated : punctuation? (spelling kind ++ rest) = some (kind, (spelling kind).length) := by
    rw [punctuation?_append, known]
    rw [spelled] at alone ⊢
    intro d head
    rw [Option.mem_def] at head
    simp only [stands, Bool.and_eq_true, head] at alone
    simpa using alone.1.2
  rw [spelled] at alone punctuated ⊢
  simp only [stands, Bool.and_eq_true, List.contains_iff_mem] at alone
  obtain ⟨⟨start, _⟩, apart⟩ := alone
  constructor
  · rw [List.cons_append, lexToken_sign start]
    · rw [← List.cons_append, lexPunctuation, punctuated]
      exact ⟨rfl, by rw [Piece.text, spelled], rfl⟩
    · rintro rfl
      simpa [second] using apart
    · rintro rfl heredoc
      have first : (more ++ rest).head? = some '<' := by
        cases both : more ++ rest with
        | nil => simp [both] at heredoc
        | cons d text => simp_all
      cases more with
      | nil => simp_all
      | cons d more =>
          cases more with
          | nil => cases rest <;> simp_all
          | cons e more => simp_all
  · apply frontOf_sign start
    · rintro rfl
      simpa [second] using apart
    · rintro rfl
      simpa [second] using apart

/-! An opening parenthesis begins a cast only before the name of a type and a closing one. -/

theorem drop_takeWhile_length {p : Char → Bool} (text : List Char) :
    text.drop (text.takeWhile p).length = text.dropWhile p := by
  conv => lhs; arg 2; rw [← List.takeWhile_append_dropWhile (p := p) (l := text)]
  exact List.drop_left

theorem lexCast?_eq_none {gap : Nat} {word after : List Char}
    (alpha : ∀ c ∈ word, c.isAlpha = true) (stop : ∀ c ∈ after.head?, c.isAlpha = false)
    (start : ∀ c ∈ (word ++ after).head?, isIndent c = false)
    (noCast : castTypes.lookup (String.ofList (word.map Char.toLower)) = none ∨
      (after.dropWhile isIndent).head? ≠ some ')') :
    lexCast? ('(' :: (List.replicate gap ' ' ++ (word ++ after))) = none := by
  have blanks : (List.replicate gap ' ' ++ (word ++ after)).takeWhile isIndent =
      List.replicate gap ' ' := by
    apply takeWhile_append_stop _ start
    intro c among
    rw [List.eq_of_mem_replicate among]
    rfl
  have letters : (word ++ after).takeWhile Char.isAlpha = word :=
    takeWhile_append_stop alpha stop
  have dropped (count : Nat) : ('(' :: (List.replicate gap ' ' ++ (word ++ after))).drop
      (1 + gap + count) = (word ++ after).drop count := by
    rw [Nat.add_assoc, Nat.add_comm 1, List.drop_succ_cons, ← List.drop_drop]
    simp
  have closing : ('(' :: (List.replicate gap ' ' ++ (word ++ after)))[1 + gap + word.length +
      (after.takeWhile isIndent).length]? = (after.dropWhile isIndent).head? := by
    rw [← List.head?_drop, Nat.add_assoc, dropped, ← List.drop_drop, List.drop_left,
      drop_takeWhile_length]
  have wordStart := dropped 0
  unfold lexCast?
  simp only [List.drop_one, List.tail_cons, blanks, List.length_replicate, Nat.add_zero,
    List.drop_zero] at wordStart ⊢
  simp only [wordStart, letters, dropped, List.drop_left, closing]
  obtain unknown | other := noCast
  · split <;> simp [unknown]
  · simp [other]

/-! Pieces. -/

@[simp] theorem spelling_openParen : spelling .openParen = ['('] := by decide
@[simp] theorem spelling_closeParen : spelling .closeParen = [')'] := by decide
@[simp] theorem spelling_openBracket : spelling .openBracket = ['['] := by decide
@[simp] theorem spelling_closeBracket : spelling .closeBracket = [']'] := by decide
@[simp] theorem spelling_comma : spelling .comma = [','] := by decide
@[simp] theorem spelling_semicolon : spelling .semicolon = [';'] := by decide
@[simp] theorem spelling_dotDotDot : spelling .dotDotDot = ['.', '.', '.'] := by decide
@[simp] theorem spelling_fatArrow : spelling .fatArrow = ['=', '>'] := by decide
@[simp] theorem spelling_colonColon : spelling .colonColon = [':', ':'] := by decide
@[simp] theorem spelling_equals : spelling .equals = ['='] := by decide
@[simp] theorem spelling_colon : spelling .colon = [':'] := by decide

namespace Piece

/-- Whether a character, or the end of the text, leaves the piece before it as it is. -/
def meets : Piece → Option Char → Bool
  | .number _, next | .word _, next => next.all endsName
  | .quoted _, _ => true
  | .sign kind, next => closedSigns.contains kind || openSigns.contains kind &&
      (next == some '(' || next == some ' ' || kind == .question && next == some ':')

structure Before (piece : Piece) (rest : List Char) : Prop where
  meets : piece.meets rest.head? = true
  noCast : piece = .sign .openParen → lexCast? ('(' :: rest) = none

theorem closed_stands {kind : TokenKind} (closed : kind ∈ closedSigns)
    (other : kind ≠ .openParen) (next : Option Char) : stands (spelling kind) next = true := by
  have unchanged : ∀ kind ∈ closedSigns, prolongs (spelling kind) = [] := by decide
  have kept := unchanged kind closed
  simp only [closedSigns, List.mem_cons, List.not_mem_nil, or_false, other, false_or] at closed
  obtain rfl | rfl | rfl | rfl | rfl | rfl | rfl | rfl := closed
  all_goals
    simp only [spelling_closeParen, spelling_openBracket, spelling_closeBracket, spelling_comma,
      spelling_semicolon, spelling_dotDotDot, spelling_fatArrow, spelling_colonColon] at kept ⊢
    simp [stands, kept, signStarts]

theorem open_stands {kind : TokenKind} {next : Option Char} (isOpen : kind ∈ openSigns)
    (follows : next = some '(' ∨ next = some ' ' ∨ kind = .question ∧ next = some ':') :
    stands (spelling kind) next = true := by
  have checked : ∀ kind ∈ openSigns, ∀ next ∈ [some '(', some ' '],
      stands (spelling kind) next = true := by decide
  obtain rfl | rfl | ⟨rfl, rfl⟩ := follows
  · exact checked kind isOpen _ (by simp)
  · exact checked kind isOpen _ (by simp)
  · decide

theorem punctuation?_spelling {kind : TokenKind} (sign : kind ∈ closedSigns ++ openSigns) :
    punctuation? (spelling kind) = some (kind, (spelling kind).length) := by
  have known : ∀ kind ∈ closedSigns ++ openSigns,
      punctuation? (spelling kind) = some (kind, (spelling kind).length) := by decide
  exact known kind sign

theorem lexed_openParen {rest : List Char} (noCast : lexCast? ('(' :: rest) = none) :
    (Piece.sign .openParen).Lexed (lexToken ('(' :: rest)) ∧ frontOf ('(' :: rest) = .token := by
  have known : punctuation? ('(' :: rest) = some (.openParen, 1) := by
    have unchanged : prolongs ['('] = [] := by decide
    have : punctuation? (['('] ++ rest) = punctuation? ['('] :=
      punctuation?_append (by simp [unchanged])
    rw [List.singleton_append] at this
    rw [this]
    decide
  constructor
  · have lexes : lexToken ('(' :: rest) = lexPunctuation ('(' :: rest) := by
      simp [lexToken, noCast, isNameStart]
    rw [lexes, lexPunctuation, known]
    exact ⟨rfl, by simp [text], rfl⟩
  · simp [frontOf, isSeparatorSpace]

theorem lexed_sign {kind : TokenKind} {rest : List Char}
    (before : (Piece.sign kind).Before rest) :
    (Piece.sign kind).Lexed (lexToken (spelling kind ++ rest)) ∧
      frontOf (spelling kind ++ rest) = .token := by
  obtain ⟨meets, noCast⟩ := before
  simp only [Piece.meets, Bool.or_eq_true, Bool.and_eq_true, List.contains_iff_mem, beq_iff_eq,
    or_assoc] at meets
  obtain closed | ⟨isOpen, follows⟩ := meets
  · by_cases paren : kind = .openParen
    · subst paren
      rw [spelling_openParen]
      exact lexed_openParen (noCast rfl)
    · exact lexed_of_stands (punctuation?_spelling (List.mem_append_left _ closed))
        (closed_stands closed paren _)
  · exact lexed_of_stands (punctuation?_spelling (List.mem_append_right _ isOpen))
      (open_stands isOpen follows)

theorem lexed {piece : Piece} {rest : List Char} (before : piece.Before rest) :
    piece.Lexed (lexToken (piece.text ++ rest)) ∧ frontOf (piece.text ++ rest) = .token := by
  cases piece with
  | number value =>
      have ends := (Option.all_eq_true _ _).mp before.meets
      refine ⟨lexed_number value ends, ?_⟩
      obtain ⟨c, more, written⟩ :=
        List.exists_cons_of_ne_nil (Nat.toDigits_ne_nil : Nat.toDigits 10 value ≠ [])
      have digit : c.isDigit = true :=
        isDigit_of_mem_toDigits _ (written ▸ List.mem_cons_self)
      rw [text, written]
      exact frontOf_namePart (isNamePart_of_isDecimalPart (by simp [isDecimalPart, digit]))
  | quoted value => exact ⟨lexed_quoted value rest, by simp [text, frontOf, isSeparatorSpace]⟩
  | word name =>
      have ends := (Option.all_eq_true _ _).mp before.meets
      obtain ⟨c, more, spelled, start⟩ := name.exists_cons
      refine ⟨name.lexed ends, ?_⟩
      rw [text, spelled]
      exact frontOf_namePart (isNamePart_of_isNameStart start)
  | sign kind => exact lexed_sign before

end Piece

/-! Texts. -/

/-- A text inside the tags has tokens of the given marks, and nothing is wrong with them. -/
def ReadsAs (text : List Char) (marks : List Mark) : Prop :=
  ∀ pos fuel, text.length < fuel →
    let tokens := Scanner.tokensFrom fuel { rest := text, pos, inCode := true }
    tokens.map Token.mark = marks ∧ ∀ token ∈ tokens, token.problems = []

namespace ReadsAs

variable {text : List Char} {marks : List Mark}

theorem nil : ReadsAs [] [⟨.endOfFile, "", []⟩] := by
  intro pos fuel enough
  cases fuel with
  | zero => simp at enough
  | succ fuel =>
      simp [Scanner.tokensFrom, Scanner.next, Scanner.nextFrom, frontOf, Scanner.take, Token.mark]

theorem blank (reads : ReadsAs text marks) : ReadsAs (' ' :: text) marks := by
  intro pos fuel enough
  have same : Scanner.next { rest := ' ' :: text, pos, inCode := true } =
      Scanner.next { rest := text, pos := pos + 1, inCode := true } := rfl
  obtain ⟨fuel, rfl⟩ : ∃ less, fuel = less + 1 := ⟨fuel - 1, by omega⟩
  have tokens := reads (pos + 1) (fuel + 1) (by simp at enough; omega)
  rw [Scanner.tokensFrom] at tokens ⊢
  rw [same]
  exact tokens

theorem blanks (count : Nat) (reads : ReadsAs text marks) :
    ReadsAs (List.replicate count ' ' ++ text) marks := by
  induction count with
  | zero => exact reads
  | succ count ih => exact ih.blank

theorem next_eq_takeToken {scanner : Scanner} (inside : scanner.inCode = true)
    (front : frontOf scanner.rest = .token) : scanner.next = scanner.takeToken [] := by
  rw [Scanner.next, Scanner.nextFrom]
  simp [inside, front]

/-- A token whose length does not depend on what follows. -/
theorem token (first : List Char) {mark : Mark} (front : frontOf (first ++ text) = .token)
    (marked : ⟨(lexToken (first ++ text)).kind, (lexToken (first ++ text)).value,
      (lexToken (first ++ text)).bytes⟩ = mark)
    (length : (lexToken (first ++ text)).length = first.length)
    (problem : (lexToken (first ++ text)).problem = none) (reads : ReadsAs text marks) :
    ReadsAs (first ++ text) (mark :: marks) := by
  intro pos fuel enough
  obtain ⟨fuel, rfl⟩ : ∃ less, fuel = less + 1 := ⟨fuel - 1, by omega⟩
  have proper : (lexToken (first ++ text)).Proper := by
    cases whole : first ++ text with
    | nil =>
        rw [whole] at front
        cases front
    | cons c rest => exact lexToken_proper c rest
  have shorter : text.length < fuel := by
    have := proper.taken
    rw [List.length_append] at enough
    omega
  let scanner : Scanner := { rest := first ++ text, pos, inCode := true }
  have here : (scanner.takeToken []).1.mark = mark := marked
  have sound : (scanner.takeToken []).1.problems = [] := by
    simp [Scanner.takeToken, Scanner.take, scanner, problem]
  have inside : (scanner.takeToken []).1.kind ≠ .endOfFile := proper.inside
  have left : (scanner.takeToken []).2 =
      { rest := text, pos := (scanner.takeToken []).2.pos, inCode := true } := by
    simp [Scanner.takeToken, Scanner.take, Scanner.skip, scanner, length]
  obtain ⟨others, problems⟩ := reads (scanner.takeToken []).2.pos fuel shorter
  rw [← left] at others problems
  have tokens : scanner.tokensFrom (fuel + 1) =
      (scanner.takeToken []).1 :: (scanner.takeToken []).2.tokensFrom fuel := by
    rw [Scanner.tokensFrom, next_eq_takeToken rfl front]
    exact if_neg inside
  change (scanner.tokensFrom (fuel + 1)).map Token.mark = _ ∧
    ∀ token ∈ scanner.tokensFrom (fuel + 1), token.problems = []
  rw [tokens, List.map_cons, here, others]
  exact ⟨rfl, List.forall_mem_cons.mpr ⟨sound, problems⟩⟩

theorem piece (piece : Piece) (before : piece.Before text) (reads : ReadsAs text marks) :
    ReadsAs (piece.text ++ text) (piece.mark :: marks) := by
  obtain ⟨lexed, front⟩ := Piece.lexed before
  exact reads.token _ front lexed.mark lexed.length lexed.problem

end ReadsAs

end StaticReflection
