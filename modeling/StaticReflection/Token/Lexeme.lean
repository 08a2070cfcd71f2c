import StaticReflection.Number.Literal
import StaticReflection.Token.Escape
import StaticReflection.Token.Kind

namespace StaticReflection

/-! One token at the front of a text. -/

/-- Properties of a token beyond its kind. -/
structure TokenFlags where
  /-- The string or comment ran to the end of the text. -/
  unterminated : Bool := false
  /-- The string is a heredoc or a nowdoc. -/
  heredoc : Bool := false
  /-- The integer literal does not fit into 64 bits. -/
  overflow : Bool := false
  deriving DecidableEq, Repr

/-- A token without its place in the text. -/
structure Lexeme where
  kind : TokenKind
  /-- How many characters it takes. -/
  length : Nat
  /-- The name, the number without separators, the cast type, or the contents. -/
  value : String := ""
  /-- The contents of a string literal. -/
  bytes : List UInt8 := []
  flags : TokenFlags := {}
  /-- What is wrong with it. -/
  problem : Option String := none

/-- A string literal with the given contents. -/
def Lexeme.ofBytes (length : Nat) (bytes : List UInt8) (flags : TokenFlags)
    (problem : Option String) : Lexeme where
  kind := .stringLiteral
  length := length
  value := Utf8.decodeString bytes
  bytes := bytes
  flags := flags
  problem := problem

def startsName (text : List Char) : Bool :=
  text.head?.any isNameStart

/-- The segments of a name after its first one: each a separator and a name. -/
def moreSegments : Nat → List Char → Nat
  | 0, _ => 0
  | fuel + 1, '\\' :: text =>
      if startsName text then
        let segment := (text.takeWhile isNamePart).length
        segment + 1 + moreSegments fuel (text.drop segment)
      else 0
  | _ + 1, _ => 0

def nameKind (qualified : Bool) (value : String) : TokenKind :=
  if qualified then .qualifiedName else (keyword? value).getD .identifier

/-- The length of the name at the front, and whether it has a separator. One before a brace
belongs to the name: it opens a group of imports. -/
def nameExtent (text : List Char) : Nat × Bool :=
  let lead := if text.head? = some '\\' then 1 else 0
  let first := lead + ((text.drop lead).takeWhile isNamePart).length
  let rest := text.drop first
  let more := moreSegments rest.length rest
  let group := if (text.drop (first + more)).take 2 = ['\\', '\x7b'] then 1 else 0
  (first + more + group, lead + more + group ≠ 0)

/-- A name, a keyword or a namespaced name. -/
def lexName (text : List Char) : Lexeme :=
  let (length, qualified) := nameExtent text
  let value := String.ofList (text.take length)
  { kind := nameKind qualified value, length, value }

def isDecimalPart (c : Char) : Bool :=
  c.isDigit || c == '_'

/-- The length of an exponent, or zero when there is none. -/
def exponentLength : List Char → Nat
  | e :: text =>
      if e == 'e' || e == 'E' then
        let sign := if text.head? = some '+' || text.head? = some '-' then 1 else 0
        let digits := text.drop sign
        if digits.head?.any Char.isDigit then
          1 + sign + (digits.takeWhile isDecimalPart).length
        else 0
      else 0
  | [] => 0

/-- The base that the second character of a literal selects after a zero. -/
def markedBase? : List Char → Option Nat
  | '0' :: c :: _ =>
      if c == 'x' || c == 'X' then some 16
      else if c == 'b' || c == 'B' then some 2
      else if c == 'o' || c == 'O' then some 8
      else none
  | _ => none

/-- The kind and the length of the number at the front. -/
def numberExtent (text : List Char) : TokenKind × Nat :=
  match markedBase? text with
  | some base =>
      let digits := (text.drop 2).takeWhile fun c => c == '_' || (digitOf? base c).isSome
      (.integerLiteral, 2 + digits.length)
  | none =>
      let whole := (text.takeWhile isDecimalPart).length
      let afterWhole := text.drop whole
      let point := match afterWhole with
        | '.' :: rest =>
            if rest.head? = some '.' then 0
            else 1 + (rest.takeWhile isDecimalPart).length
        | _ => 0
      let exponent := exponentLength (afterWhole.drop point)
      (if point + exponent = 0 then .integerLiteral else .floatLiteral,
        whole + point + exponent)

def lexNumber (text : List Char) : Lexeme :=
  let (kind, length) := numberExtent text
  let digits := (text.take length).filter (· ≠ '_')
  let overflow := kind == .integerLiteral &&
    match integerLiteral digits with
    | .int _ => false
    | .float _ => true
  { kind, length, value := String.ofList digits, flags := { overflow } }

def unterminatedString : String := "Unterminated string literal"

def lexSingleQuoted (text : List Char) : Lexeme :=
  let (body, length, closed) := singleQuoted [] 1 text.tail
  Lexeme.ofBytes length (Utf8.encode body) { unterminated := !closed }
    (if closed then none else some unterminatedString)

/-- How far a search for the quote that closes a body comes. -/
structure QuotedExtent where
  /-- The number of characters before the quote, or before the end of the text. -/
  length : Nat
  closed : Bool
  /-- An expression to interpolate is passed on the way. -/
  interpolated : Bool
  deriving DecidableEq, Repr

/-- Whether a character and what follows it begin an expression to interpolate. -/
def opensExpression (c : Char) (text : List Char) : Bool :=
  (c == '$' && text.head?.any fun next => isNameStart next || next == '\x7b') ||
    (c == '\x7b' && text.head? == some '$')

/-- Searches for the closing double quote, and notes on the way whether there is an expression
to interpolate. -/
def doubleQuotedExtent (length : Nat) (interpolated : Bool) : List Char → QuotedExtent
  | [] => ⟨length, false, interpolated⟩
  | '\\' :: _ :: text => doubleQuotedExtent (length + 2) interpolated text
  | c :: text =>
      if c = '"' then ⟨length, true, interpolated⟩
      else doubleQuotedExtent (length + 1) (interpolated || opensExpression c text) text

def lexDoubleQuoted (text : List Char) : Lexeme :=
  let extent := doubleQuotedExtent 0 false text.tail
  let body := text.tail.take extent.length
  let length := extent.length + if extent.closed then 2 else 1
  let flags : TokenFlags := { unterminated := !extent.closed }
  let problem := if extent.closed then none else some unterminatedString
  if extent.interpolated then
    { kind := .interpolatedString, length, value := String.ofList body, flags, problem }
  else
    Lexeme.ofBytes length (decodeEscapes (some '"') body) flags problem

def lexShellCommand (text : List Char) : Lexeme :=
  let body := quotedLength? '\x60' 0 text.tail
  let length := match body with
    | some length => length + 2
    | none => text.length
  { kind := .interpolatedString, length, value := String.ofList (text.take length)
    flags := { unterminated := body.isNone }
    problem := if body.isSome then none else some "Unterminated shell command" }

/-! Heredocs. -/

structure HeredocOpening where
  label : List Char
  /-- Written with single quotes: the body is taken as it stands. -/
  raw : Bool
  /-- Length through the end of the line. -/
  length : Nat

def lineEndLength : List Char → Nat
  | '\n' :: _ => 1
  | '\r' :: '\n' :: _ => 2
  | '\r' :: _ => 1
  | _ => 0

/-- Reads `<<<LABEL`, `<<<"LABEL"` or `<<<'LABEL'` and the line end after it. -/
def HeredocOpening.read? (text : List Char) : Option HeredocOpening := do
  let blanks := (text.drop 3).takeWhile isIndent
  let start := 3 + blanks.length
  let quote := (text[start]?).filter fun c => c == '\'' || c == '"'
  let quoteLength := if quote.isSome then 1 else 0
  let label := (text.drop (start + quoteLength)).takeWhile isNamePart
  if !startsName label then none
  let labelEnd := start + quoteLength + label.length
  if quote.isSome && text[labelEnd]? != quote then none
  let lineEnd := lineEndLength (text.drop (labelEnd + quoteLength))
  if lineEnd = 0 then none
  return ⟨label, quote == some '\'', labelEnd + quoteLength + lineEnd⟩

/-- The indentation of a line that closes a heredoc: nothing but blanks before the
label, and no name character after it. -/
def closingIndent? (label line : List Char) : Option Nat :=
  let trimmed := line.dropWhile isIndent
  if label.isPrefixOf trimmed && !(trimmed.drop label.length).head?.any isNamePart then
    some (line.length - trimmed.length)
  else
    none

def dropCarriageReturn (line : List Char) : List Char :=
  if line.getLast? = some '\r' then line.dropLast else line

/-- A line without its indentation, at most as deep as that of the closing line. -/
def dropIndent (indent : Nat) (line : List Char) : List Char :=
  line.drop ((line.take indent).takeWhile isIndent).length

structure HeredocBody where
  text : List Char
  /-- Length through the closing label. -/
  length : Nat

/-- The body among the lines after the opening; nothing when no line closes it. -/
def HeredocBody.read? (label : List Char) (lines : List (List Char)) :
    Option HeredocBody := do
  let count := (lines.takeWhile fun line => (closingIndent? label line).isNone).length
  let closing ← lines[count]?
  let indent ← closingIndent? label closing
  let body := lines.take count
  let length := body.flatten.length + body.length + indent + label.length
  let text := List.intercalate ['\n']
    (body.map fun line => dropIndent indent (dropCarriageReturn line))
  return ⟨text, length⟩

/-- A heredoc or nowdoc, if one starts here. -/
def lexHeredoc? (text : List Char) : Option Lexeme := do
  let opening ← HeredocOpening.read? text
  let lines := (text.drop opening.length).splitOn '\n'
  match HeredocBody.read? opening.label lines with
  | none =>
      return Lexeme.ofBytes text.length [] { unterminated := true, heredoc := true }
        (some "Unterminated heredoc")
  | some body =>
      let length := opening.length + body.length
      let flags : TokenFlags := { heredoc := true }
      if opening.raw then
        return Lexeme.ofBytes length (Utf8.encode body.text) flags none
      else if hasInterpolation body.text then
        return { kind := .interpolatedString, length, value := String.ofList body.text, flags }
      else
        return Lexeme.ofBytes length (decodeEscapes none body.text) flags none

/-! Casts and punctuation. -/

/-- The types that a cast can name, with their canonical names. -/
def castTypes : List (String × String) := [
  ("int", "int"), ("integer", "int"), ("bool", "bool"), ("boolean", "bool"),
  ("float", "float"), ("double", "float"), ("real", "float"),
  ("string", "string"), ("binary", "string"), ("array", "array"),
  ("object", "object"), ("unset", "unset")]

/-- A parenthesized type name, with blanks around the name at most. -/
def lexCast? (text : List Char) : Option Lexeme := do
  let blanks := (text.drop 1).takeWhile isIndent
  let wordStart := 1 + blanks.length
  let word := (text.drop wordStart).takeWhile Char.isAlpha
  let wordEnd := wordStart + word.length
  let close := wordEnd + ((text.drop wordEnd).takeWhile isIndent).length
  if text[close]? ≠ some ')' then none
  let type ← castTypes.lookup (String.ofList (word.map Char.toLower))
  return { kind := .cast, length := close + 1, value := type }

def lexPunctuation (text : List Char) : Lexeme :=
  match punctuation? text with
  | some (kind, length) => { kind, length }
  | none =>
      let c := text.head?.getD '\x00'
      { kind := .unknown, length := 1, problem := some s!"Unexpected character '{c}'" }

def lexVariable (text : List Char) : Lexeme :=
  let name := text.tail.takeWhile isNamePart
  { kind := .variableName, length := name.length + 1, value := String.ofList name }

/-- The token at the front of a non-empty text that starts with no separator. -/
def lexToken (text : List Char) : Lexeme :=
  match text with
  | [] => { kind := .endOfFile, length := 0 }
  | c :: rest =>
      if c = '$' ∧ startsName rest then lexVariable text
      else if isNameStart c || (c == '\\' && startsName rest) then lexName text
      else if c.isDigit || (c == '.' && rest.head?.any Char.isDigit) then lexNumber text
      else if c = '\'' then lexSingleQuoted text
      else if c = '"' then lexDoubleQuoted text
      else if c = '\x60' then lexShellCommand text
      else if text.take 3 = ['<', '<', '<'] then
        (lexHeredoc? text).getD (lexPunctuation text)
      else if c = '(' then (lexCast? text).getD (lexPunctuation text)
      else lexPunctuation text

end StaticReflection
