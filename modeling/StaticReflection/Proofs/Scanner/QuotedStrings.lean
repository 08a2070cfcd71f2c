import Mathlib.Data.List.Forall2
import StaticReflection.Proofs.Scanner.Tiling
import StaticReflection.Proofs.Scanner.TokenRoundTrip

namespace StaticReflection

/-! What stands between quotes: texts that are escaped are read back, and an expression that is
interpolated ends with the string around it. -/

namespace Scanner

theorem tokensFrom_of_lt {scanner : Scanner} {fuel more : Nat}
    (enough : scanner.rest.length < fuel) (enoughToo : scanner.rest.length < more) :
    scanner.tokensFrom fuel = scanner.tokensFrom more := by
  induction fuel generalizing scanner more with
  | zero => omega
  | succ fuel ih =>
      obtain ⟨more, rfl⟩ : ∃ fewer, more = fewer + 1 := ⟨more - 1, by omega⟩
      have reads := scanner.next_reads
      unfold tokensFrom
      dsimp only
      split
      · rfl
      · rename_i inside
        have shorter := reads.taken inside
        exact congrArg _ (ih (by omega) (by omega))

/-- The next token, and those after it if it is not the end. -/
theorem tokens_eq (scanner : Scanner) : scanner.tokens = scanner.next.1 ::
    if scanner.next.1.kind = .endOfFile then [] else scanner.next.2.tokens := by
  have reads := scanner.next_reads
  rw [tokens, tokensFrom]
  dsimp only
  split
  · rfl
  · rename_i inside
    have shorter := reads.taken inside
    rw [tokens, tokensFrom_of_lt shorter (Nat.lt_succ_self _)]

/-- A token at the front of the text, and those after it. -/
theorem tokens_of_front {scanner : Scanner} (inside : scanner.inCode = true)
    (front : frontOf scanner.rest = .token) :
    scanner.tokens = (scanner.takeToken []).1 :: (scanner.takeToken []).2.tokens := by
  have read : scanner.next = scanner.takeToken [] := ReadsAs.next_eq_takeToken inside front
  obtain ⟨c, rest, whole⟩ : ∃ c rest, scanner.rest = c :: rest := by
    cases whole : scanner.rest with
    | nil => simp [whole, frontOf] at front
    | cons c rest => exact ⟨c, rest, rfl⟩
  have kind : (scanner.takeToken []).1.kind ≠ .endOfFile := by
    change (lexToken scanner.rest).kind ≠ _
    rw [whole]
    exact (lexToken_proper c rest).inside
  rw [tokens_eq, read, if_neg kind]

theorem tokens_of_nil (pos : Nat) :
    tokens { rest := [], pos, inCode := true } = [{ kind := .endOfFile, span := ⟨pos, pos⟩ }] := by
  simp [tokens, tokensFrom, next, nextFrom, frontOf, take, skip, Text.byteSize]

end Scanner

/-! Escaped texts. -/

/-- The characters that a backslash escapes between double quotes. -/
def doublyEscaped : Text → Text
  | [] => []
  | c :: text =>
      if c = '\\' ∨ c = '"' ∨ c = '$' then '\\' :: c :: doublyEscaped text
      else c :: doublyEscaped text

/-- The byte is written with two digits in base sixteen. -/
def HexEscape (byte : UInt8) (text : Text) : Prop :=
  ∃ high low, text = ['\\', 'x', high, low] ∧
    digitValue? high = some (byte.toNat / 16) ∧ digitValue? low = some (byte.toNat % 16)

/-- The text inside the tags is one string literal with the given contents. -/
def Text.IsLiteral (text : Text) (bytes : List UInt8) : Prop :=
  Scanner.tokens { rest := text, inCode := true } =
    [{ kind := .stringLiteral, span := ⟨0, text.byteSize⟩, lexeme := text
       value := Utf8.decodeString bytes, bytes },
     { kind := .endOfFile, span := ⟨text.byteSize, text.byteSize⟩ }]

theorem Text.isLiteral_of_lexToken {text : Text} {bytes : List UInt8}
    (front : frontOf text = .token)
    (lexes : lexToken text = .ofBytes text.length bytes {} none) : text.IsLiteral bytes := by
  rw [IsLiteral, Scanner.tokens_of_front rfl front]
  simp [Scanner.takeToken, Scanner.take, Scanner.skip, lexes, Lexeme.ofBytes,
    Scanner.tokens_of_nil]

theorem decodeEscapesOnto_escape {quote : Option Char} {text : List Char} {bytes : List UInt8}
    {length : Nat} (decoded : List UInt8) (escapes : escape quote text = (bytes, length)) :
    decodeEscapesOnto quote decoded 0 ('\\' :: text) =
      decodeEscapesOnto quote (bytes.reverse ++ decoded) length text := by
  rw [decodeEscapesOnto, if_pos rfl, escapes]

theorem decodeEscapesOnto_plain {c : Char} (plain : c ≠ '\\') (quote : Option Char)
    (decoded : List UInt8) (text : List Char) :
    decodeEscapesOnto quote decoded 0 (c :: text) =
      decodeEscapesOnto quote ((String.utf8EncodeChar c).reverse ++ decoded) 0 text := by
  rw [decodeEscapesOnto, if_neg plain]

/-- An escaped character stands for itself. -/
theorem escape_of_special {c : Char} (special : c = '\\' ∨ c = '"' ∨ c = '$') (text : List Char) :
    escape (some '"') (c :: text) = (String.utf8EncodeChar c, 1) := by
  obtain rfl | rfl | rfl := special
  · rfl
  · rfl
  · rfl

theorem decodeEscapesOnto_doublyEscaped (text : Text) (decoded : List UInt8) :
    decodeEscapesOnto (some '"') decoded 0 (doublyEscaped text) =
      decoded.reverse ++ Utf8.encode text := by
  induction text generalizing decoded with
  | nil => simp [doublyEscaped, decodeEscapesOnto, Utf8.encode]
  | cons c text ih =>
      rw [doublyEscaped]
      split
      · rename_i special
        rw [decodeEscapesOnto_escape decoded (escape_of_special special _), decodeEscapesOnto, ih]
        simp [Utf8.encode]
      · rename_i ordinary
        rw [decodeEscapesOnto_plain (fun is => ordinary (.inl is)), ih]
        simp [Utf8.encode]

theorem quotedLength?_plain {c : Char} {text : List Char} (backslash : c ≠ '\\') (quote : c ≠ '"')
    (length : Nat) :
    quotedLength? '"' length (c :: text) = quotedLength? '"' (length + 1) text := by
  rw [quotedLength?, if_neg quote]
  rintro _ _ rfl
  exact absurd rfl backslash

theorem quotedLength?_doublyEscaped (text rest : Text) (length : Nat) :
    quotedLength? '"' length (doublyEscaped text ++ '"' :: rest) =
      some (length + (doublyEscaped text).length) := by
  induction text generalizing length with
  | nil => simp [doublyEscaped, quotedLength?]
  | cons c text ih =>
      rw [doublyEscaped]
      split
      · rw [List.cons_append, List.cons_append, quotedLength?, ih]
        simp
        omega
      · rename_i ordinary
        rw [List.cons_append, quotedLength?_plain (fun is => ordinary (.inl is))
          fun is => ordinary (.inr (.inl is)), ih]
        simp
        omega

theorem head?_doublyEscaped_ne (text : Text) : (doublyEscaped text).head? ≠ some '$' := by
  cases text with
  | nil => nofun
  | cons c text =>
      rw [doublyEscaped]
      split
      · nofun
      · rename_i ordinary
        intro dollar
        exact ordinary (.inr (.inr (Option.some.inj dollar)))

theorem hasInterpolation_plain {c : Char} {text : List Char} (backslash : c ≠ '\\')
    (dollar : c ≠ '$') (brace : c = '\x7b' → text.head? ≠ some '$') :
    hasInterpolation (c :: text) = hasInterpolation text := by
  by_cases opens : c = '\x7b'
  · subst opens
    cases text with
    | nil => rfl
    | cons d text =>
        have other : d ≠ '$' := fun is => brace rfl (congrArg some is)
        rw [hasInterpolation, beq_eq_false_iff_ne.mpr other, Bool.false_or]
  · rw [hasInterpolation]
    all_goals simp_all

theorem hasInterpolation_doublyEscaped (text : Text) :
    hasInterpolation (doublyEscaped text) = false := by
  induction text with
  | nil => rfl
  | cons c text ih =>
      rw [doublyEscaped]
      split
      · rw [hasInterpolation, ih]
      · rename_i ordinary
        rw [hasInterpolation_plain (fun is => ordinary (.inl is))
          (fun is => ordinary (.inr (.inr is))) fun _ => head?_doublyEscaped_ne text, ih]

/-- A byte in base sixteen, with whatever quote. -/
theorem escape_hex {byte : UInt8} {high low : Char}
    (highValue : digitValue? high = some (byte.toNat / 16))
    (lowValue : digitValue? low = some (byte.toNat % 16)) (quote : Option Char)
    (text : List Char) :
    escape quote ('x' :: high :: low :: text) = ([byte], 3) := by
  have highDigit : isHexDigit high = true := by rw [isHexDigit, highValue]; rfl
  have lowDigit : isHexDigit low = true := by rw [isHexDigit, lowValue]; rfl
  have octal : (digitOf? 8 'x').isSome = false := by decide
  have halves : byte.toNat / 16 * 16 + byte.toNat % 16 = byte.toNat := by omega
  have value : UInt8.ofNat (digitsValue 16 [high, low]) = byte := by
    simp [digitsValue, highValue, lowValue, halves]
  simp [escape, simpleEscape?, octal, highDigit, lowDigit, value]

theorem decodeEscapesOnto_hex {bytes : List UInt8} {texts : List Text}
    (written : List.Forall₂ HexEscape bytes texts) (quote : Option Char)
    (decoded : List UInt8) :
    decodeEscapesOnto quote decoded 0 texts.flatten = decoded.reverse ++ bytes := by
  induction written generalizing decoded with
  | nil => simp [decodeEscapesOnto]
  | @cons byte text bytes texts escaped _ ih =>
      obtain ⟨high, low, rfl, highValue, lowValue⟩ := escaped
      have escapes := escape_hex highValue lowValue quote texts.flatten
      simp only [List.flatten_cons, List.cons_append, List.nil_append]
      rw [decodeEscapesOnto_escape decoded escapes]
      simp only [decodeEscapesOnto]
      rw [ih]
      simp

theorem frontOf_doubleQuote (text : Text) : frontOf ('"' :: text) = .token := by
  simp [frontOf, isSeparatorSpace]

theorem isLiteral_doubleQuoted (text : Text) :
    Text.IsLiteral ('"' :: doublyEscaped text ++ ['"']) (Utf8.encode text) := by
  refine Text.isLiteral_of_lexToken (frontOf_doubleQuote _) ?_
  have lexes : lexToken ('"' :: doublyEscaped text ++ ['"']) =
      lexDoubleQuoted ('"' :: (doublyEscaped text ++ ['"'])) := by
    simp [lexToken, isNameStart]
  rw [lexes, lexDoubleQuoted_of_closed (quotedLength?_doublyEscaped text [] 0)]
  simp [hasInterpolation_doublyEscaped, decodeEscapes, decodeEscapesOnto_doublyEscaped]

theorem isLiteral_singleQuoted (text : Text) :
    Text.IsLiteral ('\'' :: escaped text ++ ['\'']) (Utf8.encode text) := by
  refine Text.isLiteral_of_lexToken (by simp [frontOf, isSeparatorSpace]) ?_
  have lexes : lexToken ('\'' :: escaped text ++ ['\'']) =
      lexSingleQuoted ('\'' :: (escaped text ++ ['\''])) := by
    simp [lexToken, isNameStart]
  rw [lexes, lexSingleQuoted, List.tail_cons, singleQuoted_escaped]
  simp [Nat.add_comm]

/-- A text that is escaped between quotes of either kind is one string literal with its bytes,
and bytes in base sixteen are decoded to themselves. -/
theorem string_literals_read_back (text : Text) :
    Text.IsLiteral ('"' :: doublyEscaped text ++ ['"']) (Utf8.encode text) ∧
    Text.IsLiteral ('\'' :: escaped text ++ ['\'']) (Utf8.encode text) ∧
    ∀ (quote : Option Char) (bytes : List UInt8) (texts : List Text),
      List.Forall₂ HexEscape bytes texts → decodeEscapes quote texts.flatten = bytes :=
  ⟨isLiteral_doubleQuoted text, isLiteral_singleQuoted text, fun quote _ _ written =>
    decodeEscapesOnto_hex written quote []⟩

/-- Characters with a meaning of their own between quotes, and a byte in digits of both cases. -/
theorem quotes_and_signs_read_back :
    let text : Text := ['\x7b', '$', 'a', '"', '\\', 'é', '\'']
    List.Forall₂ HexEscape [0xc3, 0xa9] [['\\', 'x', 'C', '3'], ['\\', 'x', 'a', '9']] ∧
    Text.IsLiteral ['"', '\x7b', '\\', '$', 'a', '\\', '"', '\\', '\\', 'é', '\'', '"']
      (Utf8.encode text) ∧
    decodeEscapes none ['\\', 'x', 'C', '3', '\\', 'x', 'a', '9'] = [0xc3, 0xa9] := by
  intro text
  have written :
      List.Forall₂ HexEscape [0xc3, 0xa9] [['\\', 'x', 'C', '3'], ['\\', 'x', 'a', '9']] :=
    .cons ⟨'C', '3', rfl, by decide, by decide⟩ (.cons ⟨'a', '9', rfl, by decide, by decide⟩ .nil)
  obtain ⟨double, -, hex⟩ := string_literals_read_back text
  exact ⟨written, double, hex none _ _ written⟩

/-! Interpolation. -/

/-- Nothing ends a string in double quotes, nor escapes its end. -/
def Text.Unquoted (text : Text) : Prop :=
  ∀ c ∈ text, c ≠ '\\' ∧ c ≠ '"'

/-- Nothing has a meaning of its own between double quotes. -/
def Text.Plain (text : Text) : Prop :=
  ∀ c ∈ text, c ∉ ['"', '\\', '$', '\x7b']

theorem Text.Plain.unquoted {text : Text} (plain : text.Plain) : text.Unquoted := by
  intro c among
  have other := plain c among
  simp only [List.mem_cons, not_or] at other
  exact ⟨other.2.1, other.1⟩

theorem Word.unquoted (word : Word) : Text.Unquoted word.text := by
  intro c among
  have part := List.all_eq_true.mp word.parts c among
  constructor
  · rintro rfl
    cases part
  · rintro rfl
    cases part

theorem quotedLength?_unquoted {body : Text} (unquoted : body.Unquoted) (rest : Text)
    (length : Nat) : quotedLength? '"' length (body ++ '"' :: rest) =
      some (length + body.length) := by
  induction body generalizing length with
  | nil => simp [quotedLength?]
  | cons c body ih =>
      obtain ⟨⟨backslash, quote⟩, others⟩ := List.forall_mem_cons.mp unquoted
      rw [List.cons_append, quotedLength?_plain backslash quote, ih others, List.length_cons]
      congr 1
      omega

theorem hasInterpolation_cons {c : Char} {text : List Char} (backslash : c ≠ '\\')
    (interpolated : hasInterpolation text = true) : hasInterpolation (c :: text) = true := by
  rw [hasInterpolation.eq_def]
  split <;> simp_all

theorem hasInterpolation_expression {body : Text} (unquoted : body.Unquoted) (rest : Text) :
    hasInterpolation (body ++ '\x7b' :: '$' :: rest) = true := by
  induction body with
  | nil => rfl
  | cons c body ih =>
      obtain ⟨⟨backslash, -⟩, others⟩ := List.forall_mem_cons.mp unquoted
      exact hasInterpolation_cons backslash (ih others)

theorem hasInterpolation_of_plain {text : Text} (plain : text.Plain) :
    hasInterpolation text = false := by
  induction text with
  | nil => rfl
  | cons c text ih =>
      obtain ⟨here, others⟩ := List.forall_mem_cons.mp plain
      simp only [List.mem_cons, List.not_mem_nil, or_false, not_or] at here
      rw [hasInterpolation_plain here.2.1 here.2.2.1 fun brace => absurd brace here.2.2.2,
        ih others]

theorem lexToken_doubleQuote {body : Text} (unquoted : body.Unquoted) (rest : Text) :
    lexToken ('"' :: body ++ '"' :: rest) =
      if hasInterpolation body then
        { kind := .interpolatedString, length := body.length + 2, value := String.ofList body }
      else .ofBytes (body.length + 2) (decodeEscapes (some '"') body) {} none := by
  have lexes : lexToken ('"' :: body ++ '"' :: rest) =
      lexDoubleQuoted ('"' :: (body ++ '"' :: rest)) := by
    simp [lexToken, isNameStart]
  rw [lexes, lexDoubleQuoted_of_closed (quotedLength?_unquoted unquoted rest 0)]
  simp

theorem decodeEscapes_unquoted {text : Text} (unquoted : text.Unquoted) (quote : Option Char) :
    decodeEscapes quote text = Utf8.encode text := by
  have onto (decoded : List UInt8) :
      decodeEscapesOnto quote decoded 0 text = decoded.reverse ++ Utf8.encode text := by
    induction text generalizing decoded with
    | nil => simp [decodeEscapesOnto, Utf8.encode]
    | cons c text ih =>
        obtain ⟨⟨backslash, -⟩, others⟩ := List.forall_mem_cons.mp unquoted
        rw [decodeEscapesOnto_plain backslash, ih others]
        simp [Utf8.encode]
  exact onto []

/-- A string with an expression to interpolate at the front of a text. -/
def Token.interpolated (lexeme body : Text) : Token where
  kind := .interpolatedString
  span := ⟨0, lexeme.byteSize⟩
  lexeme := lexeme
  value := String.ofList body

/-- The first quote after an interpolated expression ends the string, also inside the braces of
the expression. What follows that quote is code: a key that is a word is a token of its own, and
the quote after it begins another string, with the bracket and the brace that close the
expression. -/
theorem interpolated_string_ends_at_quote {before : Text} (unquoted : before.Unquoted)
    (name : Word) (key after : Text) :
    let body : Text := before ++ ['\x7b', '$'] ++ name.text ++ ['[']
    let opening : Text := '"' :: body ++ ['"']
    let rest : Text := key ++ ['"', ']', '\x7d'] ++ after ++ ['"']
    let tokens := Scanner.tokens { rest := opening ++ rest, inCode := true }
    tokens = .interpolated opening body ::
      Scanner.tokens { rest, pos := opening.byteSize, inCode := true } ∧
    opening.byteSize < (opening ++ rest).byteSize ∧
    (after.Plain → ∀ word : Word, key = word.text →
      tokens.map Token.mark = [⟨.interpolatedString, String.ofList body, []⟩,
        ⟨word.kind, word.value, []⟩,
        ⟨.stringLiteral, Utf8.decodeString (Utf8.encode (']' :: '\x7d' :: after)),
          Utf8.encode (']' :: '\x7d' :: after)⟩,
        ⟨.endOfFile, "", []⟩]) := by
  intro body opening rest tokens
  have clear : body.Unquoted := by
    simp only [body, Text.Unquoted, List.forall_mem_append]
    exact ⟨⟨⟨unquoted, by simp⟩, name.unquoted⟩, by simp⟩
  have whole : opening ++ rest = '"' :: body ++ '"' :: rest := by simp [opening]
  have lexes : lexToken (opening ++ rest) =
      { kind := .interpolatedString, length := opening.length, value := String.ofList body } := by
    have expression : hasInterpolation body = true := by
      simpa [body] using hasInterpolation_expression unquoted (name.text ++ ['['])
    rw [whole, lexToken_doubleQuote clear, if_pos expression]
    simp [opening]
  have front : frontOf (opening ++ rest) = .token := frontOf_doubleQuote _
  have split : tokens = .interpolated opening body ::
      Scanner.tokens { rest, pos := opening.byteSize, inCode := true } := by
    change Scanner.tokens _ = _
    rw [Scanner.tokens_of_front rfl front]
    simp [Scanner.takeToken, Scanner.take, Scanner.skip, lexes, Token.interpolated]
  refine ⟨split, ?_, fun plain word same => ?_⟩
  · have size := Text.length_le_byteSize rest
    have nonempty : rest ≠ [] := by simp [rest]
    have sum : (opening ++ rest).byteSize = opening.byteSize + rest.byteSize :=
      Text.byteSize_append opening rest
    have count := List.length_pos_iff.mpr nonempty
    omega
  · subst same
    have closing : Text.Plain (']' :: '\x7d' :: after) :=
      List.forall_mem_cons.mpr ⟨by decide, List.forall_mem_cons.mpr ⟨by decide, plain⟩⟩
    have literal : ReadsAs ('"' :: (']' :: '\x7d' :: after) ++ ['"'] ++ [])
        [⟨.stringLiteral, Utf8.decodeString (Utf8.encode (']' :: '\x7d' :: after)),
          Utf8.encode (']' :: '\x7d' :: after)⟩, ⟨.endOfFile, "", []⟩] := by
      have lexed := lexToken_doubleQuote closing.unquoted []
      rw [hasInterpolation_of_plain closing, decodeEscapes_unquoted closing.unquoted] at lexed
      simp only [Bool.false_eq_true, if_false] at lexed
      refine ReadsAs.nil.token _ (frontOf_doubleQuote _) ?_ ?_ ?_ <;> rw [List.append_nil, lexed]
      · rfl
      · simp [Lexeme.ofBytes]
      · rfl
    have others : ReadsAs (word.text ++ ('"' :: (']' :: '\x7d' :: after) ++ ['"'] ++ []))
        (⟨word.kind, word.value, []⟩ :: _) :=
      literal.piece (.word word) ⟨rfl, by simp⟩
    have spelled : rest = word.text ++ ('"' :: (']' :: '\x7d' :: after) ++ ['"'] ++ []) := by
      simp [rest]
    rw [split, List.map_cons, spelled]
    exact congrArg _ (others opening.byteSize _ (Nat.lt_succ_self _)).1

theorem quoted_key_is_code :
    let before : Text := ['a', ' ']
    let text : Text := "\"a \x7b$v[\"k\"]\x7d\"".toList
    before.Unquoted ∧ Text.Plain [] ∧
    (Scanner.tokens { rest := text, inCode := true }).map Token.mark =
      [⟨.interpolatedString, "a \x7b$v[", []⟩, ⟨.identifier, "k", []⟩,
        ⟨.stringLiteral, "]\x7d", [0x5d, 0x7d]⟩, ⟨.endOfFile, "", []⟩] := by
  intro before text
  have unquoted : before.Unquoted := by simp [before, Text.Unquoted]
  have plain : Text.Plain [] := nofun
  obtain ⟨-, -, marks⟩ := interpolated_string_ends_at_quote unquoted ⟨['v'], rfl, rfl⟩ ['k'] []
  refine ⟨unquoted, plain, (marks plain ⟨['k'], rfl, rfl⟩ rfl).trans ?_⟩
  decide +kernel

end StaticReflection
