import StaticReflection.Proofs.Scanner.TokenRoundTrip

namespace StaticReflection

/-! The tokens of a rendered expression are those that it was rendered from. -/

/-- Characters that come after an expression. -/
def closes (next : Option Char) : Bool :=
  [some ')', some ']', some ',', some ';', some '='].contains next

/-- Before a text that starts as said, the pieces are read as they were written. -/
def Legible (gap : Nat) (follows : Option Char → Bool) (pieces : List Piece) : Prop :=
  ∀ rest marks, follows rest.head? = true → ReadsAs rest marks →
    ReadsAs (layout gap pieces ++ rest) (pieces.map Piece.mark ++ marks)

theorem head?_blanks {gap : Nat} {text : List Char} {test : Option Char → Bool}
    (blank : test (some ' ') = true) (head : test text.head? = true) :
    test (List.replicate gap ' ' ++ text).head? = true := by
  cases gap with
  | zero => exact head
  | succ gap => exact blank

@[simp] theorem layout_nil (gap : Nat) : layout gap [] = [] := rfl

@[simp] theorem layout_cons (gap : Nat) (piece : Piece) (pieces : List Piece) :
    layout gap (piece :: pieces) =
      piece.text ++ (List.replicate gap ' ' ++ layout gap pieces) := by
  simp [layout]

@[simp] theorem layout_append (gap : Nat) (first second : List Piece) :
    layout gap (first ++ second) = layout gap first ++ layout gap second :=
  List.flatMap_append

namespace Legible

variable {gap : Nat} {follows next : Option Char → Bool} {first second : List Piece}
  {piece : Piece}

theorem nil : Legible gap follows [] :=
  fun _ _ _ reads => reads

theorem mono (legible : Legible gap next first)
    (weaker : ∀ c, follows c = true → next c = true) : Legible gap follows first :=
  fun rest marks head reads => legible rest marks (weaker _ head) reads

theorem single (paren : piece ≠ .sign .openParen) (blank : piece.meets (some ' ') = true)
    (meets : ∀ c, follows c = true → piece.meets c = true) : Legible gap follows [piece] := by
  intro rest marks head reads
  have before : piece.Before (List.replicate gap ' ' ++ rest) :=
    ⟨head?_blanks blank (meets _ head), fun is => absurd is paren⟩
  simpa using ReadsAs.piece _ before (reads.blanks gap)

theorem append (one : Legible gap next first) (two : Legible gap follows second)
    (joins : ∀ rest : List Char, follows rest.head? = true →
      next (layout gap second ++ rest).head? = true) : Legible gap follows (first ++ second) := by
  intro rest marks head reads
  have whole := one _ _ (joins rest head) (two rest marks head reads)
  simpa using whole

theorem cons (paren : piece ≠ .sign .openParen) (blank : piece.meets (some ' ') = true)
    (two : Legible gap follows second)
    (joins : ∀ rest : List Char, follows rest.head? = true →
      piece.meets (layout gap second ++ rest).head? = true) :
    Legible gap follows (piece :: second) :=
  append (single paren blank fun _ meets => meets) two joins

end Legible

/-! Casts. -/

/-- An opening parenthesis before the pieces begins no cast. -/
def CastFree (gap : Nat) (pieces : List Piece) : Prop :=
  ∀ rest : List Char, closes rest.head? = true →
    lexCast? ('(' :: (List.replicate gap ' ' ++ (layout gap pieces ++ rest))) = none

theorem lexCast?_of_head (gap : Nat) {text : List Char}
    (head : ∀ c ∈ text.head?, c.isAlpha = false ∧ isIndent c = false) :
    lexCast? ('(' :: (List.replicate gap ' ' ++ text)) = none := by
  have unnamed : castTypes.lookup (String.ofList (List.map Char.toLower [])) = none := by
    decide
  rw [← List.nil_append text]
  apply lexCast?_eq_none
  · simp
  · exact fun c is => (head c is).1
  · exact fun c is => (head c is).2
  · exact .inl unnamed

theorem isAlpha_of_isNamePart {c : Char} (apart : isNamePart c = false) : c.isAlpha = false := by
  simp only [isNamePart, Char.isAlphanum, Bool.or_eq_false_iff] at apart
  exact apart.1.1.1

theorem exists_letters (text : List Char) :
    ∃ letters others, text = letters ++ others ∧ (∀ c ∈ letters, c.isAlpha = true) ∧
      ∀ c ∈ others.head?, c.isAlpha = false := by
  refine ⟨text.takeWhile Char.isAlpha, text.dropWhile Char.isAlpha,
    List.takeWhile_append_dropWhile.symm, ?_, ?_⟩
  · exact List.all_eq_true.mp List.all_takeWhile
  · intro c head
    have := List.head?_dropWhile_not Char.isAlpha text
    rw [Option.mem_def.mp head] at this
    exact this

theorem lexCast?_of_word (gap : Nat) (word : Word) {text : List Char}
    (ends : ∀ c ∈ text.head?, isNamePart c = false)
    (noCast : word.isCast = false ∨ (text.dropWhile isIndent).head? ≠ some ')') :
    lexCast? ('(' :: (List.replicate gap ' ' ++ (word.text ++ text))) = none := by
  have unindented {c : Char} (part : isNamePart c = true) : isIndent c = false ∧ c ≠ ')' := by
    have other : c ∉ [' ', '\t', ')'] := not_mem_of_class part (by decide)
    simp only [List.mem_cons, List.not_mem_nil, not_or] at other
    simp [isIndent, other]
  have started : ∀ c ∈ (word.text ++ text).head?, isIndent c = false := by
    obtain ⟨c, more, spelled, start⟩ := word.exists_cons
    rw [spelled]
    rintro _ ⟨⟩
    exact (unindented (isNamePart_of_isNameStart start)).1
  obtain ⟨letters, others, spelled, alpha, stop⟩ := exists_letters word.text
  rw [spelled, List.append_assoc] at started ⊢
  apply lexCast?_eq_none alpha _ started
  · cases others with
    | nil =>
        rw [List.append_nil] at spelled
        refine noCast.imp_left fun other => ?_
        simpa [Word.isCast, Word.value, foldCase, spelled] using other
    | cons d others =>
        -- A character that is no letter stands before the parenthesis.
        have part : isNamePart d = true :=
          List.all_eq_true.mp word.parts d (by simp [spelled])
        right
        simp [unindented part]
  · cases others with
    | nil => exact fun c head => isAlpha_of_isNamePart (ends c head)
    | cons d others => exact stop

theorem lexCast?_of_word_blanks {gap : Nat} (word : Word) {c : Char} {text : List Char}
    (ends : endsName c = true) (solid : isIndent c = false)
    (noCast : word.isCast = false ∨ c ≠ ')') :
    lexCast? ('(' :: (List.replicate gap ' ' ++ (word.text ++
      (List.replicate gap ' ' ++ c :: text)))) = none := by
  apply lexCast?_of_word
  · intro d head
    cases gap with
    | zero =>
        cases head
        exact isNamePart_of_endsName ends
    | succ gap =>
        cases head
        rfl
  · refine noCast.imp_right fun other => ?_
    rw [List.dropWhile_append_of_pos fun d among => List.eq_of_mem_replicate among ▸ rfl]
    simp [solid, other]

theorem exists_closing {rest : List Char} (closing : closes rest.head? = true) :
    ∃ c text, rest = c :: text ∧ endsName c = true ∧ isIndent c = false := by
  cases rest with
  | nil => cases closing
  | cons c text =>
      have checked : [')', ']', ',', ';', '='].all (fun c => endsName c && !isIndent c) = true := by
        decide
      have plain := List.all_eq_true.mp checked c (by simpa [closes] using closing)
      exact ⟨c, text, rfl, by simpa using plain⟩

theorem CastFree.sign {gap : Nat} {kind : TokenKind} {pieces : List Piece}
    (known : kind ∈ closedSigns ++ openSigns) : CastFree gap (.sign kind :: pieces) := by
  have plain : ∀ kind ∈ closedSigns ++ openSigns,
      ((spelling kind).head?.any fun c => !c.isAlpha && !isIndent c) = true := by decide
  intro rest _
  apply lexCast?_of_head
  intro c head
  have start := plain kind known
  cases spelled : spelling kind with
  | nil => simp [spelled] at start
  | cons d more =>
      simp only [layout_cons, Piece.text, spelled, List.cons_append, List.head?_cons,
        Option.mem_some_iff] at head
      subst head
      simpa [spelled] using start

theorem CastFree.number (gap value : Nat) : CastFree gap [.number value] := by
  intro rest _
  apply lexCast?_of_head
  obtain ⟨c, more, written⟩ :=
    List.exists_cons_of_ne_nil (Nat.toDigits_ne_nil : Nat.toDigits 10 value ≠ [])
  have digit : c.isDigit = true :=
    Nat.isDigit_of_mem_toDigits (by decide) (by decide) (written ▸ List.mem_cons_self)
  have other : c ∉ [' ', '\t'] := not_mem_of_class digit (by decide)
  have start := isNameStart_of_isDigit digit
  simp only [isNameStart, Bool.or_eq_false_iff] at start
  simp only [layout_cons, Piece.text, written]
  rintro _ ⟨⟩
  exact ⟨start.1.1, by simpa [isIndent] using other⟩

theorem Expr.castFree (gap : Nat) (bare : Bool) (e : Expr) : CastFree gap (e.pieces bare) := by
  cases e with
  | int value fits => exact .number gap value
  | str value =>
      intro rest _
      apply lexCast?_of_head
      simp [Expr.pieces, Piece.text, isIndent]
  | const name =>
      intro rest closing
      obtain ⟨c, text, rfl, ends, solid⟩ := exists_closing closing
      simpa [Expr.pieces, Piece.text] using
        lexCast?_of_word_blanks name.toWord ends solid (.inl name.noCast)
  | classConst owner name =>
      intro rest _
      simpa [Expr.pieces, Piece.text] using
        lexCast?_of_word_blanks (c := ':') owner.toWord (by decide) (by decide) (.inr (by decide))
  | unary op operand => exact .sign (by cases op <;> decide)
  | binary op left right => exact .sign (by decide)
  | ternary condition whenTrue whenFalse => exact .sign (by decide)
  | shortTernary condition whenFalse => exact .sign (by decide)
  | array bracketed items =>
      cases bracketed with
      | true => exact .sign (by decide)
      | false =>
          intro rest _
          simpa [Expr.pieces, Piece.text, parenthesized] using
            lexCast?_of_word_blanks (c := '(') .arrayWord (by decide) (by decide) (.inr (by decide))
  | dim base index => exact .sign (by decide)

theorem Legible.parenthesized {gap : Nat} {pieces : List Piece}
    (inner : Legible gap closes pieces) (castFree : CastFree gap pieces) :
    Legible gap (fun _ => true) (parenthesized pieces) := by
  intro rest marks _ reads
  have close : Legible gap (fun _ => true) [.sign .closeParen] :=
    .single (by simp) rfl fun _ _ => rfl
  have body := inner _ _ (by simp [Piece.text, closes]) (close rest marks rfl reads)
  have before : (Piece.sign .openParen).Before
      (List.replicate gap ' ' ++ (layout gap pieces ++ (layout gap [.sign .closeParen] ++ rest))) :=
    ⟨rfl, fun _ => castFree _ (by simp [Piece.text, closes])⟩
  simpa [StaticReflection.parenthesized] using ReadsAs.piece _ before (body.blanks gap)

/-! Expressions. -/

theorem Legible.element {gap : Nat} (bare : Bool) {pieces : List Piece}
    (inner : Legible gap closes pieces) (castFree : CastFree gap pieces) :
    Legible gap closes (element bare pieces) := by
  cases bare with
  | true => exact inner
  | false => exact (inner.parenthesized castFree).mono fun _ _ => rfl

theorem Legible.separated {gap : Nat} {pieces : List Piece} (legible : Legible gap closes pieces) :
    Legible gap closes (separated pieces) := by
  cases pieces with
  | nil => exact .nil
  | cons piece pieces => exact .cons (by simp) rfl legible fun _ _ => rfl

theorem closes_separated {gap : Nat} {pieces : List Piece} (rest : List Char)
    (closing : closes rest.head? = true) :
    closes (layout gap (separated pieces) ++ rest).head? = true := by
  cases pieces with
  | nil => exact closing
  | cons piece pieces => simp [separated, Piece.text, closes]

theorem CastFree.append {gap : Nat} {first second : List Piece} (castFree : CastFree gap first)
    (joins : ∀ rest : List Char, closes rest.head? = true →
      closes (layout gap second ++ rest).head? = true) : CastFree gap (first ++ second) := by
  intro rest closing
  simpa using castFree _ (joins rest closing)

theorem CastFree.element {gap : Nat} (bare : Bool) {pieces : List Piece}
    (castFree : CastFree gap pieces) : CastFree gap (element bare pieces) := by
  cases bare with
  | true => exact castFree
  | false => exact .sign (by decide)

theorem Item.castFree (gap : Nat) (bare : Bool) (item : Item) :
    CastFree gap (item.pieces bare) := by
  cases item with
  | plain value => exact (value.castFree gap bare).element bare
  | keyed key value =>
      refine ((key.castFree gap bare).element bare).append fun rest _ => ?_
      simp [Piece.text, closes]
  | spread value => exact .sign (by decide)

/-- Without items, a closing parenthesis follows. -/
theorem Items.castFree (gap : Nat) (bare : Bool) (items : Items) :
    CastFree gap (items.pieces bare) := by
  cases items with
  | nil =>
      intro rest closing
      apply lexCast?_of_head
      obtain ⟨c, text, rfl, ends, solid⟩ := exists_closing closing
      rintro _ ⟨⟩
      exact ⟨isAlpha_of_isNamePart (isNamePart_of_endsName ends), solid⟩
  | cons item rest => exact (item.castFree gap bare).append closes_separated

theorem closes_endsName {next : Option Char} (closing : closes next = true) :
    next.all endsName = true := by
  have checked : ∀ next ∈ [some ')', some ']', some ',', some ';', some '='],
      next.all endsName = true := by decide
  exact checked next (by simpa [closes] using closing)

theorem head?_parenthesized (gap : Nat) (pieces : List Piece) (rest : List Char) :
    (layout gap (parenthesized pieces) ++ rest).head? = some '(' := by
  simp [parenthesized, Piece.text]

/-- A piece that stands before an operand in parentheses. -/
def Piece.Operates (piece : Piece) : Prop :=
  piece ≠ .sign .openParen ∧ piece.meets (some ' ') = true ∧ piece.meets (some '(') = true

theorem Legible.operator {gap : Nat} {piece : Piece} {pieces : List Piece}
    (operand : Legible gap (fun _ => true) (StaticReflection.parenthesized pieces))
    (operates : piece.Operates) :
    Legible gap (fun _ => true) (piece :: StaticReflection.parenthesized pieces) := by
  obtain ⟨paren, blank, meets⟩ := operates
  refine .cons paren blank operand fun rest _ => ?_
  rw [head?_parenthesized]
  exact meets

theorem UnaryOp.sign_operates (op : UnaryOp) : (Piece.sign op.kind).Operates := by
  cases op <;> exact ⟨by simp [kind], rfl, rfl⟩

theorem BinaryOp.piece_operates (op : BinaryOp) : op.piece.Operates := by
  obtain ⟨kind, binds, expression⟩ := op
  unfold Grammar.binaryPrecedence? at binds
  split at binds
  all_goals first
    | exact absurd rfl expression
    | exact ⟨by simp [piece], rfl, rfl⟩
    | cases binds

mutual

theorem Expr.legible (gap : Nat) (bare : Bool) (e : Expr) : Legible gap closes (e.pieces bare) := by
  cases e with
  | int value fits => exact .single (by simp) rfl fun _ => closes_endsName
  | str value => exact .single (by simp) rfl fun _ _ => rfl
  | const name => exact .single (by simp) rfl fun _ => closes_endsName
  | classConst owner name =>
      have member : Legible gap closes [.word name.toWord] :=
        .single (by simp) rfl fun _ => closes_endsName
      have colons : Legible gap closes [.sign .colonColon, .word name.toWord] :=
        .cons (by simp) rfl member fun _ _ => rfl
      refine .cons (by simp) rfl colons fun rest _ => ?_
      simp [Piece.text, Piece.meets, endsName, isNamePart]
  | unary op operand =>
      have inner := (operand.legible gap bare).parenthesized (operand.castFree gap bare)
      exact (inner.operator op.sign_operates).mono fun _ _ => rfl
  | binary op left right =>
      have first := (left.legible gap bare).parenthesized (left.castFree gap bare)
      have second := (right.legible gap bare).parenthesized (right.castFree gap bare)
      exact (first.append (second.operator op.piece_operates) fun _ _ => rfl).mono fun _ _ => rfl
  | ternary condition whenTrue whenFalse =>
      have first := (condition.legible gap bare).parenthesized (condition.castFree gap bare)
      have second := (whenTrue.legible gap bare).parenthesized (whenTrue.castFree gap bare)
      have third := (whenFalse.legible gap bare).parenthesized (whenFalse.castFree gap bare)
      have question : Piece.Operates (.sign .question) := ⟨by simp, rfl, rfl⟩
      have colon : Piece.Operates (.sign .colon) := ⟨by simp, rfl, rfl⟩
      have both := (second.operator question).append (third.operator colon) fun _ _ => rfl
      exact (first.append both fun _ _ => rfl).mono fun _ _ => rfl
  | shortTernary condition whenFalse =>
      have first := (condition.legible gap bare).parenthesized (condition.castFree gap bare)
      have second := (whenFalse.legible gap bare).parenthesized (whenFalse.castFree gap bare)
      have colon : Piece.Operates (.sign .colon) := ⟨by simp, rfl, rfl⟩
      refine .append first (.cons (by simp) rfl ((second.operator colon).mono fun _ _ => rfl)
        fun rest _ => ?_) fun _ _ => rfl
      simp [Piece.meets, openSigns, Piece.text]
  | array bracketed items =>
      have inner := items.legible gap bare
      cases bracketed with
      | true =>
          have close : Legible gap closes [.sign .closeBracket] :=
            .single (by simp) rfl fun _ _ => rfl
          refine .cons (by simp) rfl (.append inner close fun rest _ => ?_) fun _ _ => rfl
          simp [Piece.text, closes]
      | false =>
          have whole := inner.parenthesized (items.castFree gap bare)
          refine .cons (by simp) rfl (whole.mono fun _ _ => rfl) fun rest _ => ?_
          rw [head?_parenthesized]
          rfl
  | dim base index =>
      have first := (base.legible gap bare).parenthesized (base.castFree gap bare)
      have second := (index.legible gap bare).element bare (index.castFree gap bare)
      have close : Legible gap closes [.sign .closeBracket] :=
        .single (by simp) rfl fun _ _ => rfl
      refine .append first (.cons (by simp) rfl (.append second close fun rest _ => ?_)
        fun _ _ => rfl) fun _ _ => rfl
      simp [Piece.text, closes]

theorem Item.legible (gap : Nat) (bare : Bool) (item : Item) :
    Legible gap closes (item.pieces bare) := by
  cases item with
  | plain value => exact (value.legible gap bare).element bare (value.castFree gap bare)
  | keyed key value =>
      have first := (key.legible gap bare).element bare (key.castFree gap bare)
      have second := (value.legible gap bare).element bare (value.castFree gap bare)
      refine first.append (.cons (by simp) rfl second fun _ _ => rfl) fun rest _ => ?_
      simp [Piece.text, closes]
  | spread value =>
      have inner := (value.legible gap bare).element bare (value.castFree gap bare)
      exact .cons (by simp) rfl inner fun _ _ => rfl

theorem Items.legible (gap : Nat) (bare : Bool) (items : Items) :
    Legible gap closes (items.pieces bare) := by
  cases items with
  | nil => exact .nil
  | cons item rest =>
      exact (item.legible gap bare).append (rest.legible gap bare).separated closes_separated

end

/-! Files. -/

def openTag : List Char := ['<', '?', 'p', 'h', 'p', ' ']

/-- After the opening tag, the rest of a text is inside the tags. -/
theorem tokenize_openTag {text : List Char} (front : frontOf text = .token) :
    tokenize (openTag ++ text) =
      Scanner.tokensFrom ((openTag ++ text).length + 1)
        { rest := text, pos := 6, inCode := true } := by
  have found : findOpenTag 0 (openTag ++ text) = .code 6 := by
    simp [openTag, findOpenTag, isTagSpace]
  have entered : Scanner.next { rest := openTag ++ text } =
      Scanner.next { rest := text, pos := 6, inCode := true } := by
    have inside : Scanner.next { rest := text, pos := 6, inCode := true } = _ :=
      ReadsAs.next_eq_takeToken rfl front
    have skipped : { Scanner.skip { rest := openTag ++ text } 6 with inCode := true } =
        ({ rest := text, pos := 6, inCode := true } : Scanner) := rfl
    rw [inside, Scanner.next, Scanner.nextFrom]
    simp only [found, Bool.not_false, if_true]
    rw [skipped, Scanner.nextFrom]
    simp [front]
  unfold tokenize Scanner.tokens
  rw [Scanner.tokensFrom, Scanner.tokensFrom, entered]

theorem ReadsAs.tokenize {text : List Char} {marks : List Mark} (reads : ReadsAs text marks)
    (front : frontOf text = .token) :
    (tokenize (openTag ++ text)).map Token.mark = marks ∧
      ∀ token ∈ tokenize (openTag ++ text), token.problems = [] := by
  rw [tokenize_openTag front]
  have room : text.length < (openTag ++ text).length + 1 := by
    rw [List.length_append]
    omega
  exact reads 6 _ room

def constWord : Word := ⟨['c', 'o', 'n', 's', 't'], by decide, by decide⟩
def nameWord : Word := ⟨['X'], by decide, by decide⟩

/-- A file that declares a constant with the given value. -/
def Expr.declaration (style : Style) (e : Expr) : Text :=
  "<?php const X = ".toList ++ e.render style ++ ";".toList

/-- After a blank, any text can follow. -/
theorem Legible.spaced {piece : Piece} (paren : piece ≠ .sign .openParen)
    (blank : piece.meets (some ' ') = true) : Legible 1 (fun _ => true) [piece] := by
  intro rest marks _ reads
  simpa using ReadsAs.piece _ ⟨blank, fun is => absurd is paren⟩ reads.blank

/-- The tokens of a file that defines a constant, from those of its value. -/
theorem tokenize_definition {text : Text} {marks : List Mark}
    (reads : ReadsAs text marks) :
    (tokenize ("<?php const X = ".toList ++ text)).map Token.mark =
      ⟨.constKw, "const", []⟩ :: ⟨.identifier, "X", []⟩ :: ⟨.equals, "", []⟩ :: marks ∧
    ∀ token ∈ tokenize ("<?php const X = ".toList ++ text), token.problems = [] := by
  have start : Legible 1 (fun _ => true) [.word constWord, .word nameWord, .sign .equals] :=
    (Legible.spaced (by simp) rfl).append
      ((Legible.spaced (by simp) rfl).append (.spaced (by simp) rfl) fun _ _ => rfl) fun _ _ => rfl
  have tokens := (start _ _ rfl reads).tokenize rfl
  have opening : "<?php const X = ".toList =
      openTag ++ layout 1 [.word constWord, .word nameWord, .sign .equals] := by decide
  have words : Piece.mark (.word constWord) = ⟨.constKw, "const", []⟩ ∧
      Piece.mark (.word nameWord) = ⟨.identifier, "X", []⟩ := by decide
  rw [opening, List.append_assoc]
  simpa [words] using tokens

theorem Expr.tokenize_declaration (style : Style) (e : Expr) :
    (tokenize (e.declaration style)).map Token.mark =
      ⟨.constKw, "const", []⟩ :: ⟨.identifier, "X", []⟩ :: ⟨.equals, "", []⟩ ::
        ((e.pieces style.bare).map Piece.mark ++ [⟨.semicolon, "", []⟩, ⟨.endOfFile, "", []⟩]) ∧
      ∀ token ∈ tokenize (e.declaration style), token.problems = [] := by
  have stop : Legible 0 (fun _ => true) [.sign .semicolon] :=
    .single (by simp) rfl fun _ _ => rfl
  have value := e.legible style.gap style.bare _ _ (by simp [closes, Piece.text])
    (stop [] _ rfl .nil)
  have closing : layout 0 [.sign .semicolon] ++ [] = ";".toList := by decide
  rw [closing] at value
  unfold declaration
  rw [List.append_assoc]
  exact tokenize_definition value

end StaticReflection
