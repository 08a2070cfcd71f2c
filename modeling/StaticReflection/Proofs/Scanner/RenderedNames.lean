import StaticReflection.Proofs.Scanner.RenderedTokens

namespace StaticReflection

/-! Names of several segments, and texts that are made of them and of a few signs. -/

/-- Segments with separators between them. A name may begin with a separator too. -/
structure WrittenName where
  rooted : Bool := false
  first : Word
  more : List Word := []

/-- Further segments, with a separator before each. -/
def furtherText (more : List Word) : Text :=
  more.flatMap fun word => '\\' :: word.text

@[simp] theorem furtherText_nil : furtherText [] = [] := rfl

@[simp] theorem furtherText_cons (word : Word) (more : List Word) :
    furtherText (word :: more) = '\\' :: (word.text ++ furtherText more) := by
  simp [furtherText]

namespace WrittenName

/-- The segments without the separator before them. -/
def path (name : WrittenName) : Text :=
  name.first.text ++ furtherText name.more

def text (name : WrittenName) : Text :=
  if name.rooted then '\\' :: name.path else name.path

def value (name : WrittenName) : String :=
  String.ofList name.text

def isQualified (name : WrittenName) : Bool :=
  name.rooted || !name.more.isEmpty

def kind (name : WrittenName) : TokenKind :=
  nameKind name.isQualified name.value

def mark (name : WrittenName) : Mark :=
  ⟨name.kind, name.value, []⟩

/-- A name that is no reserved word. -/
def IsFree (name : WrittenName) : Prop :=
  name.kind = .identifier ∨ name.kind = .qualifiedName

end WrittenName

/-- A word as a name. -/
def Word.name (word : Word) : WrittenName where
  first := word

/-! Names in a text. -/

theorem moreSegments_furtherText {more : List Word} {rest : List Char} {fuel : Nat}
    (enough : more.length ≤ fuel) (ends : ∀ c ∈ rest.head?, isNamePart c = false)
    (last : ∀ fuel, moreSegments fuel rest = 0) :
    moreSegments fuel (furtherText more ++ rest) = (furtherText more).length := by
  induction more generalizing fuel with
  | nil => exact last fuel
  | cons word more ih =>
      obtain ⟨fuel, rfl⟩ : ∃ less, fuel = less + 1 :=
        Nat.exists_eq_add_one_of_ne_zero (by simp at enough; omega)
      obtain ⟨c, text, spelled, start⟩ := word.exists_cons
      have starts : startsName (word.text ++ (furtherText more ++ rest)) = true := by
        rw [spelled]
        exact start
      have taken : (word.text ++ (furtherText more ++ rest)).takeWhile isNamePart = word.text := by
        refine takeWhile_append_stop (List.all_eq_true.mp word.parts) ?_
        cases more with
        | nil => exact ends
        | cons word more =>
            rintro _ ⟨⟩
            rfl
      have others : moreSegments fuel (furtherText more ++ rest) = (furtherText more).length :=
        ih (by simpa using enough)
      rw [furtherText_cons, List.cons_append, List.append_assoc, moreSegments, if_pos starts, taken]
      simp only [List.drop_left, others, List.length_cons, List.length_append]
      omega

theorem length_le_furtherText (more : List Word) : more.length ≤ (furtherText more).length := by
  induction more with
  | nil => exact Nat.le_refl _
  | cons word more ih =>
      simp only [furtherText_cons, List.length_cons, List.length_append]
      omega

namespace WrittenName

/-- The name begins with its separator, if it has one, and then with a letter. -/
theorem head?_text (name : WrittenName) (rest : List Char) :
    (name.text ++ rest).head? = some '\\' ↔ name.rooted = true := by
  obtain ⟨c, more, spelled, start⟩ := name.first.exists_cons
  have other : c ≠ '\\' := by
    rintro rfl
    cases start
  unfold text path
  cases name.rooted <;> simp [spelled, other]

theorem lexName_append (name : WrittenName) {rest : List Char}
    (ends : ∀ c ∈ rest.head?, isNamePart c = false) (last : ∀ fuel, moreSegments fuel rest = 0) :
    lexName (name.text ++ rest) =
      let group := if rest.take 2 = ['\\', '\x7b'] then 1 else 0
      let value := String.ofList (name.text ++ rest.take group)
      { kind := nameKind (name.isQualified || group ≠ 0) value
        length := name.text.length + group
        value } := by
  let lead := if name.rooted = true then 1 else 0
  have split : name.text ++ rest = (if name.rooted = true then ['\\'] else []) ++
      (name.first.text ++ (furtherText name.more ++ rest)) := by
    unfold text path
    cases name.rooted <;> simp
  have leading : (if (name.text ++ rest).head? = some '\\' then 1 else 0) = lead := by
    simp only [head?_text, lead]
  have dropped (count : Nat) : (name.text ++ rest).drop (lead + count) =
      (name.first.text ++ (furtherText name.more ++ rest)).drop count := by
    rw [split, ← List.drop_drop]
    congr 1
    unfold lead
    cases name.rooted <;> rfl
  have taken : (name.first.text ++ (furtherText name.more ++ rest)).takeWhile isNamePart =
      name.first.text := by
    refine takeWhile_append_stop (List.all_eq_true.mp name.first.parts) ?_
    cases name.more with
    | nil => exact ends
    | cons word more =>
        rintro _ ⟨⟩
        rfl
  have enough : name.more.length ≤ (furtherText name.more ++ rest).length := by
    have := length_le_furtherText name.more
    rw [List.length_append]
    omega
  have segments := moreSegments_furtherText enough ends last
  have length : name.text.length =
      lead + name.first.text.length + (furtherText name.more).length := by
    unfold text path lead
    cases name.rooted with
    | false => simp
    | true =>
        simp only [List.length_append, List.length_cons, if_true]
        omega
  have qualified : (lead + (furtherText name.more).length ≠ 0) ↔ name.isQualified = true := by
    unfold isQualified lead
    cases name.rooted <;> cases name.more <;> simp
  have zero := dropped 0
  unfold lexName nameExtent
  simp only [leading, Nat.add_zero, List.drop_zero] at zero ⊢
  simp only [zero, taken, dropped, List.drop_left, segments, ← length]
  generalize (if rest.take 2 = ['\\', '\x7b'] then 1 else 0) = group
  have compound : decide (lead + (furtherText name.more).length + group ≠ 0) =
      (name.isQualified || decide (group ≠ 0)) := by
    rw [Bool.eq_iff_iff, Bool.or_eq_true, decide_eq_true_eq, decide_eq_true_eq, ← qualified]
    omega
  rw [List.take_length_add_append, compound]

theorem lexName_alone (name : WrittenName) {rest : List Char}
    (ends : ∀ c ∈ rest.head?, endsName c = true) :
    lexName (name.text ++ rest) =
      { kind := name.kind, length := name.text.length, value := name.value } := by
  have unseparated : rest.head? ≠ some '\\' := fun head => by cases ends _ head
  have ungrouped : rest.take 2 ≠ ['\\', '\x7b'] := by
    intro group
    apply unseparated
    cases rest with
    | nil => cases group
    | cons d rest => exact congrArg List.head? (group : d :: _ = _)
  rw [name.lexName_append (fun c head => isNamePart_of_endsName (ends c head))]
  · simp [ungrouped, kind, value]
  · intro fuel
    cases fuel with
    | zero => rfl
    | succ fuel =>
        cases rest with
        | nil => rfl
        | cons d rest =>
            rw [moreSegments]
            rintro _ ⟨⟩
            exact unseparated rfl

/-- Before a brace, a separator belongs to the name. -/
theorem lexName_opening (name : WrittenName) (rest : List Char) :
    lexName (name.text ++ '\\' :: '\x7b' :: rest) =
      { kind := .qualifiedName
        length := name.text.length + 1
        value := String.ofList (name.text ++ ['\\']) } := by
  rw [name.lexName_append]
  · simp [nameKind]
  · rintro _ ⟨⟩
    rfl
  · intro fuel
    cases fuel <;> rfl

theorem lexToken_eq_lexName (name : WrittenName) (rest : List Char) :
    lexToken (name.text ++ rest) = lexName (name.text ++ rest) := by
  obtain ⟨c, more, spelled, start⟩ := name.first.exists_cons
  have plain : c ≠ '$' := by
    rintro rfl
    cases start
  cases rooted : name.rooted <;>
    simp [text, path, rooted, spelled, lexToken, startsName, plain, start]

theorem frontOf_text (name : WrittenName) (rest : List Char) :
    frontOf (name.text ++ rest) = .token := by
  obtain ⟨c, more, spelled, start⟩ := name.first.exists_cons
  cases rooted : name.rooted with
  | false => simpa [text, path, rooted, spelled] using
      frontOf_namePart (isNamePart_of_isNameStart start)
  | true => simp [text, rooted, frontOf, isSeparatorSpace]

end WrittenName

/-! What is read. -/

namespace ReadsAs

variable {text : Text} {marks : List Mark}

theorem space {c : Char} (space : isSeparatorSpace c = true) (reads : ReadsAs text marks) :
    ReadsAs (c :: text) marks := by
  intro pos fuel enough
  have front : frontOf (c :: text) = .blank 1 := by simp [frontOf, space]
  have same : Scanner.next { rest := c :: text, pos, inCode := true } =
      Scanner.next { rest := text, pos := pos + Text.byteSize [c], inCode := true } := by
    rw [Scanner.next, Scanner.next, List.length_cons, Scanner.nextFrom]
    simp [front, Scanner.skip]
  obtain ⟨fuel, rfl⟩ : ∃ less, fuel = less + 1 := ⟨fuel - 1, by omega⟩
  have tokens := reads (pos + Text.byteSize [c]) (fuel + 1) (by simp at enough; omega)
  rw [Scanner.tokensFrom] at tokens ⊢
  rw [same]
  exact tokens

theorem spaces {gap : Text} (spaces : gap.all isSeparatorSpace = true)
    (reads : ReadsAs text marks) : ReadsAs (gap ++ text) marks := by
  induction gap with
  | nil => exact reads
  | cons c gap ih =>
      rw [List.all_cons, Bool.and_eq_true] at spaces
      exact (ih spaces.2).space spaces.1

theorem name (name : WrittenName) (ends : ∀ c ∈ text.head?, endsName c = true)
    (reads : ReadsAs text marks) : ReadsAs (name.text ++ text) (name.mark :: marks) := by
  have lexes := (name.lexToken_eq_lexName text).trans (name.lexName_alone ends)
  exact reads.token _ (name.frontOf_text text) (by rw [lexes]; rfl) (by rw [lexes])
    (by rw [lexes])

theorem sign (kind : TokenKind) (closed : kind ∈ closedSigns) (other : kind ≠ .openParen)
    (reads : ReadsAs text marks) :
    ReadsAs (spelling kind ++ text) (⟨kind, "", []⟩ :: marks) := by
  refine reads.piece (.sign kind) ⟨?_, fun same => absurd (Piece.sign.inj same) other⟩
  simp [Piece.meets, closed]

/-- A brace is a token of its own, whatever follows. -/
theorem brace {c : Char} {kind : TokenKind}
    (brace : (c, kind) ∈ [('\x7b', TokenKind.openBrace), ('\x7d', .closeBrace)])
    (reads : ReadsAs text marks) : ReadsAs (c :: text) (⟨kind, "", []⟩ :: marks) := by
  have lexes : lexToken (c :: text) = { kind, length := 1 } ∧
      frontOf (c :: text) = .token := by
    have known : punctuation? (c :: text) = some (kind, 1) := by
      have unchanged : prolongs [c] = [] ∧ punctuation? [c] = some (kind, 1) := by
        simp only [List.mem_cons, Prod.mk.injEq, List.not_mem_nil, or_false] at brace
        obtain ⟨rfl, rfl⟩ | ⟨rfl, rfl⟩ := brace <;> decide
      have same : punctuation? ([c] ++ text) = punctuation? [c] :=
        punctuation?_append (by simp [unchanged])
      exact same.trans unchanged.2
    simp only [List.mem_cons, Prod.mk.injEq, List.not_mem_nil, or_false] at brace
    obtain ⟨rfl, rfl⟩ | ⟨rfl, rfl⟩ := brace <;>
      simp [lexToken, isNameStart, lexPunctuation, known, frontOf, isSeparatorSpace]
  exact reads.token [c] lexes.2 (by rw [List.singleton_append, lexes.1])
    (by rw [List.singleton_append, lexes.1]; rfl) (by rw [List.singleton_append, lexes.1])

/-- The front of a group: a name, a separator and a brace with nothing between them. -/
theorem opening (name : WrittenName) (reads : ReadsAs text marks) :
    ReadsAs (name.text ++ '\\' :: '\x7b' :: text)
      (⟨.qualifiedName, String.ofList (name.text ++ ['\\']), []⟩ ::
        ⟨.openBrace, "", []⟩ :: marks) := by
  have lexes := (name.lexToken_eq_lexName _).trans (name.lexName_opening text)
  have braced : ReadsAs ('\x7b' :: text) (⟨.openBrace, "", []⟩ :: marks) := reads.brace (by simp)
  have split : name.text ++ '\\' :: '\x7b' :: text = (name.text ++ ['\\']) ++ '\x7b' :: text := by
    simp
  have front := name.frontOf_text ('\\' :: '\x7b' :: text)
  rw [split] at lexes front ⊢
  exact braced.token _ front (by rw [lexes]) (by rw [lexes]; simp) (by rw [lexes])

end ReadsAs

/-! Texts. -/

inductive Symbol where
  | name (written : WrittenName)
  /-- A name, a separator and the brace that opens a group. -/
  | opening (space : WrittenName)
  | closing
  | comma
  | semicolon

namespace Symbol

def text : Symbol → Text
  | .name written => written.text
  | .opening space => space.text ++ ['\\', '\x7b']
  | .closing => ['\x7d']
  | .comma => [',']
  | .semicolon => [';']

def marks : Symbol → List Mark
  | .name written => [written.mark]
  | .opening space =>
      [⟨.qualifiedName, String.ofList (space.text ++ ['\\']), []⟩, ⟨.openBrace, "", []⟩]
  | .closing => [⟨.closeBrace, "", []⟩]
  | .comma => [⟨.comma, "", []⟩]
  | .semicolon => [⟨.semicolon, "", []⟩]

/-- Whether the symbol ends before a character. A name ends only before one. -/
def endsBefore : Symbol → Option Char → Bool
  | .name _, next => next.any endsName
  | _, _ => true

end Symbol

/-- The tokens of some symbols. -/
def symbolMarks (symbols : List Symbol) : List Mark :=
  symbols.flatMap Symbol.marks

@[simp] theorem symbolMarks_nil : symbolMarks [] = [] := rfl

@[simp] theorem symbolMarks_cons (symbol : Symbol) (symbols : List Symbol) :
    symbolMarks (symbol :: symbols) = symbol.marks ++ symbolMarks symbols :=
  List.flatMap_cons

@[simp] theorem symbolMarks_append (first second : List Symbol) :
    symbolMarks (first ++ second) = symbolMarks first ++ symbolMarks second :=
  List.flatMap_append

/-- The text is made of the symbols, with any white space after each of them that keeps names
apart. -/
inductive Spells : List Symbol → Text → Prop
  | nil : Spells [] []
  | cons {symbol : Symbol} {symbols : List Symbol} {gap text : Text}
      (space : gap.all isSeparatorSpace = true)
      (ends : symbol.endsBefore (gap ++ text).head? = true) (rest : Spells symbols text) :
      Spells (symbol :: symbols) (symbol.text ++ (gap ++ text))

theorem Symbol.reads (symbol : Symbol) {text : Text} {marks : List Mark}
    (ends : symbol.endsBefore text.head? = true) (reads : ReadsAs text marks) :
    ReadsAs (symbol.text ++ text) (symbol.marks ++ marks) := by
  cases symbol with
  | name written =>
      refine reads.name written fun c head => ?_
      rw [Option.mem_def.mp head] at ends
      exact ends
  | opening space => simpa [Symbol.text, Symbol.marks] using reads.opening space
  | closing => exact reads.brace (c := '\x7d') (by simp)
  | comma =>
      simpa [Symbol.text, Symbol.marks] using
        reads.sign .comma (by decide) (by decide)
  | semicolon =>
      simpa [Symbol.text, Symbol.marks] using
        reads.sign .semicolon (by decide) (by decide)

/-- A text of symbols is read as them, before any other text. -/
theorem Spells.reads {symbols : List Symbol} {text rest : Text} {marks : List Mark}
    (spells : Spells symbols text) (reads : ReadsAs rest marks) :
    ReadsAs (text ++ rest) (symbolMarks symbols ++ marks) := by
  induction spells with
  | nil => exact reads
  | @cons symbol symbols gap text space ends _ ih =>
      have after : symbol.endsBefore (gap ++ (text ++ rest)).head? = true := by
        rw [← List.append_assoc, List.head?_append]
        cases symbol with
        | name written =>
            cases head : (gap ++ text).head? with
            | none => simp [head, Symbol.endsBefore] at ends
            | some c => simpa [head] using ends
        | _ => rfl
      simpa using symbol.reads after (ih.spaces space)

theorem WrittenName.not_mem_text (name : WrittenName) : '>' ∉ name.text := by
  have apart (word : Word) : '>' ∉ word.text := fun among =>
    nomatch List.all_eq_true.mp word.parts _ among
  have further : '>' ∉ furtherText name.more := by
    simp [furtherText, apart]
  unfold text path
  split <;> simp [apart, further]

theorem Spells.not_mem {symbols : List Symbol} {text : Text} (spells : Spells symbols text) :
    '>' ∉ text := by
  induction spells with
  | nil => exact List.not_mem_nil
  | @cons symbol _ gap _ space _ _ ih =>
      have blank : '>' ∉ gap := fun among => nomatch List.all_eq_true.mp space _ among
      have plain : '>' ∉ symbol.text := by
        cases symbol <;> simp [Symbol.text, WrittenName.not_mem_text]
      simp [blank, plain, ih]

theorem Spells.frontOf {name : WrittenName} {symbols : List Symbol} {text : Text}
    (spells : Spells (.name name :: symbols) text) (rest : Text) :
    StaticReflection.frontOf (text ++ rest) = .token := by
  cases spells with
  | cons space ends others =>
      rw [List.append_assoc]
      exact name.frontOf_text _

/-- The symbols with a blank after each. -/
def symbolText (symbols : List Symbol) : Text :=
  symbols.flatMap fun symbol => symbol.text ++ [' ']

theorem spells_symbolText (symbols : List Symbol) : Spells symbols (symbolText symbols) := by
  induction symbols with
  | nil => exact .nil
  | cons symbol symbols ih =>
      have one : Spells (symbol :: symbols) (symbol.text ++ ([' '] ++ symbolText symbols)) := by
        refine .cons (by decide) ?_ ih
        cases symbol <;> rfl
      simpa [symbolText] using one

end StaticReflection
