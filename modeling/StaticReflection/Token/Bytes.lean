import StaticReflection.Token.Basic

namespace StaticReflection

/-! The scanner on the bytes of a text. It looks at single bytes and moves on by single bytes,
also into the middle of a character and past the end, and cuts pieces out of the text by their
offsets. Nothing comes of a cut that is out of bounds or parts a character. -/

/-- An offset in a text at which no character is parted. -/
def isBoundary (bytes : List UInt8) (pos : Nat) : Bool :=
  pos == 0 || pos == bytes.length || (bytes[pos]?).any fun byte => byte < 0x80 || 0xc0 ≤ byte

/-- The text between two offsets. -/
def cut? (bytes : List UInt8) (start stop : Nat) : Option Text :=
  if start ≤ stop && isBoundary bytes start && isBoundary bytes stop then
    some (Utf8.decode ((bytes.take stop).drop start))
  else none

/-- What is left of a text to look at. A byte of ASCII stands for its character; any other one
is taken for a part of a name, as the character is that it belongs to. -/
def ahead (bytes : List UInt8) (pos : Nat) : List Char :=
  (byteChars bytes).drop pos

/-! One token at an offset. Its length is in bytes. -/

def byteVariable? (bytes : List UInt8) (pos : Nat) : Option Lexeme := do
  let length := ((ahead bytes (pos + 1)).takeWhile isNamePart).length
  let name ← cut? bytes (pos + 1) (pos + 1 + length)
  return { kind := .variableName, length := length + 1, value := String.ofList name }

def byteName? (bytes : List UInt8) (pos : Nat) : Option Lexeme := do
  let (length, qualified) := nameExtent (ahead bytes pos)
  let name ← cut? bytes pos (pos + length)
  let value := String.ofList name
  return { kind := nameKind qualified value, length, value }

def byteNumber? (bytes : List UInt8) (pos : Nat) : Option Lexeme := do
  let (kind, length) := numberExtent (ahead bytes pos)
  let written ← cut? bytes pos (pos + length)
  let digits := written.filter (· ≠ '_')
  let overflow := kind == .integerLiteral &&
    match integerLiteral digits with
    | .int _ => false
    | .float _ => true
  return { kind, length, value := String.ofList digits, flags := { overflow } }

/-- The characters of a single-quoted body, where it ends, and whether a quote ends it. All but
the escapes are read as whole characters; so each round passes a byte at least. -/
def byteSingleQuotedBody? (bytes : List UInt8) (read : List Char) :
    Nat → Nat → Option (List Char × Nat × Bool)
  | 0, _ => none
  | rounds + 1, pos =>
      let text := ahead bytes pos
      if text = [] then some (read.reverse, pos, false)
      else if text.head? = some '\'' then some (read.reverse, pos + 1, true)
      else if text.take 2 = ['\\', '\''] then
        byteSingleQuotedBody? bytes ('\'' :: read) rounds (pos + 2)
      else if text.take 2 = ['\\', '\\'] then
        byteSingleQuotedBody? bytes ('\\' :: read) rounds (pos + 2)
      else do
        let c := (← cut? bytes pos bytes.length).head?.getD '\x00'
        byteSingleQuotedBody? bytes (c :: read) rounds (pos + c.utf8Size)

def byteSingleQuoted? (bytes : List UInt8) (pos : Nat) : Option Lexeme := do
  let (body, stop, closed) ← byteSingleQuotedBody? bytes [] (bytes.length - pos + 1) (pos + 1)
  return .ofBytes (stop - pos) (Utf8.encode body) { unterminated := !closed }
    (if closed then none else some unterminatedString)

/-- Where the search for a closing quote stops: at the quote, or else at the end or one byte
past it. An escape takes two bytes, whatever the second one is. -/
def byteQuoteStop (quote : Char) (pos : Nat) (interpolated : Bool) : List Char → Nat × Bool
  | [] => (pos, interpolated)
  | c :: rest =>
      if c = quote then (pos, interpolated)
      else if c = '\\' then
        match rest with
        | [] => (pos + 2, interpolated)
        | _ :: rest => byteQuoteStop quote (pos + 2) interpolated rest
      else byteQuoteStop quote (pos + 1) (interpolated || opensExpression c rest) rest

def byteDoubleQuoted? (bytes : List UInt8) (pos : Nat) : Option Lexeme := do
  let (stop, interpolated) := byteQuoteStop '"' (pos + 1) false (ahead bytes (pos + 1))
  let closed := (ahead bytes stop).head? == some '"'
  let length := (if closed then stop + 1 else bytes.length) - pos
  let body ← cut? bytes (pos + 1) (min stop bytes.length)
  let flags : TokenFlags := { unterminated := !closed }
  let problem := if closed then none else some unterminatedString
  if interpolated then
    return { kind := .interpolatedString, length, value := String.ofList body, flags, problem }
  else
    return .ofBytes length (decodeEscapes (some '"') body) flags problem

def byteShellCommand? (bytes : List UInt8) (pos : Nat) : Option Lexeme := do
  let (stop, _) := byteQuoteStop '\x60' (pos + 1) false (ahead bytes (pos + 1))
  let closed := (ahead bytes stop).head? == some '\x60'
  let length := min (if closed then stop + 1 else stop) bytes.length - pos
  let written ← cut? bytes pos (pos + length)
  return { kind := .interpolatedString, length, value := String.ofList written
           flags := { unterminated := !closed }
           problem := if closed then none else some "Unterminated shell command" }

/-! Heredocs. -/

/-- Where the label of a heredoc begins. -/
def labelStart (text : List Char) : Nat :=
  let start := 3 + ((text.drop 3).takeWhile isIndent).length
  if (text[start]?).any fun c => c == '\'' || c == '"' then start + 1 else start

structure ByteHeredoc where
  lines : List Text
  indent : Nat
  /-- The offset after the closing label. -/
  stop : Nat

/-- The lines from an offset on up to the one that closes a heredoc, if one does. -/
def byteHeredocLines? (bytes : List UInt8) (label : Text) (lines : List Text) :
    Nat → Nat → Option (Option ByteHeredoc)
  | 0, _ => none
  | rounds + 1, start =>
      if bytes.length < start then some none
      else do
        let stop := start + ((ahead bytes start).takeWhile (· ≠ '\n')).length
        let line ← cut? bytes start stop
        match closingIndent? label line with
        | some indent => return some ⟨lines, indent, start + indent + label.byteSize⟩
        | none =>
            let lines := lines ++ [dropCarriageReturn line]
            if bytes.length ≤ stop then return none
            else byteHeredocLines? bytes label lines rounds (stop + 1)

/-- A line without its indentation, cut by bytes. -/
def byteDropIndent? (indent : Nat) (line : Text) : Option Text :=
  let bytes := Utf8.encode line
  cut? bytes (((byteChars bytes).take indent).takeWhile isIndent).length bytes.length

/-- A heredoc or nowdoc, if one starts here. -/
def byteHeredoc? (bytes : List UInt8) (pos : Nat) : Option (Option Lexeme) := do
  let text := ahead bytes pos
  let start := labelStart text
  if !startsName (text.drop start) then return none
  let length := ((text.drop start).takeWhile isNamePart).length
  let label ← cut? bytes (pos + start) (pos + start + length)
  match HeredocOpening.read? text with
  | none => return none
  | some opening =>
      match ← byteHeredocLines? bytes label [] (bytes.length + 1) (pos + opening.length) with
      | none =>
          return some (.ofBytes (bytes.length - pos) []
            { unterminated := true, heredoc := true } (some "Unterminated heredoc"))
      | some heredoc =>
          let lines ← heredoc.lines.mapM (byteDropIndent? heredoc.indent)
          let body := List.intercalate ['\n'] lines
          let length := heredoc.stop - pos
          let flags : TokenFlags := { heredoc := true }
          if opening.raw then
            return some (.ofBytes length (Utf8.encode body) flags none)
          else if hasInterpolation body then
            return some { kind := .interpolatedString, length, value := String.ofList body, flags }
          else
            return some (.ofBytes length (decodeEscapes none body) flags none)

/-! Casts, punctuation, and any token. -/

/-- A parenthesized type name, if one stands here. -/
def byteCast? (bytes : List UInt8) (pos : Nat) : Option (Option Lexeme) := do
  let text := ahead bytes pos
  let wordStart := 1 + ((text.drop 1).takeWhile isIndent).length
  let wordEnd := wordStart + ((text.drop wordStart).takeWhile Char.isAlpha).length
  let word ← cut? bytes (pos + wordStart) (pos + wordEnd)
  let close := wordEnd + ((text.drop wordEnd).takeWhile isIndent).length
  if text[close]? ≠ some ')' then return none
  else
    return (castTypes.lookup (String.ofList (word.map Char.toLower))).map fun type =>
      { kind := .cast, length := close + 1, value := type }

def bytePunctuation? (bytes : List UInt8) (pos : Nat) : Option Lexeme :=
  match punctuation? (ahead bytes pos) with
  | some (kind, length) => some { kind, length }
  | none => do
      let rest ← cut? bytes pos bytes.length
      let c := rest.head?.getD '\x00'
      return { kind := .unknown, length := max c.utf8Size 1
               problem := some s!"Unexpected character '{c}'" }

/-- The token at an offset, where there is a byte that is no separator. -/
def byteToken? (bytes : List UInt8) (pos : Nat) : Option Lexeme :=
  match ahead bytes pos with
  | [] => none
  | c :: rest =>
      if c = '$' ∧ startsName rest then byteVariable? bytes pos
      else if isNameStart c || (c == '\\' && startsName rest) then byteName? bytes pos
      else if c.isDigit || (c == '.' && rest.head?.any Char.isDigit) then byteNumber? bytes pos
      else if c = '\'' then byteSingleQuoted? bytes pos
      else if c = '"' then byteDoubleQuoted? bytes pos
      else if c = '\x60' then byteShellCommand? bytes pos
      else if c = '<' then do
        let rest ← cut? bytes pos bytes.length
        if rest.take 3 = ['<', '<', '<'] then
          match ← byteHeredoc? bytes pos with
          | some lexeme => return lexeme
          | none => bytePunctuation? bytes pos
        else bytePunctuation? bytes pos
      else if c = '(' then do
        match ← byteCast? bytes pos with
        | some lexeme => return lexeme
        | none => bytePunctuation? bytes pos
      else bytePunctuation? bytes pos

/-! Tokens in their places. Offsets that are handed out have 32 bits. -/

structure ByteToken where
  kind : TokenKind
  start : Nat
  stop : Nat
  value : String := ""
  bytes : List UInt8 := []
  flags : TokenFlags := {}
  /-- The place of the documentation comment before the token. -/
  doc : Option (UInt32 × UInt32) := none
  /-- What was wrong between the previous token and the end of this one, and where. -/
  problems : List (String × UInt32) := []

namespace ByteToken

def pos32 (token : ByteToken) : UInt32 :=
  .ofNat token.start

def end32 (token : ByteToken) : UInt32 :=
  .ofNat token.stop

/-- The text of the token as it is written. -/
def text? (token : ByteToken) (bytes : List UInt8) : Option Text :=
  cut? bytes token.start token.stop

end ByteToken

/-- A place in the bytes of a text. -/
structure ByteScanner where
  bytes : List UInt8
  pos : Nat := 0
  /-- Inside the tags. -/
  inCode : Bool := false
  /-- The place of a documentation comment that no token has taken yet. -/
  pendingDoc : Option (UInt32 × UInt32) := none

namespace ByteScanner

def ahead (scanner : ByteScanner) : List Char :=
  StaticReflection.ahead scanner.bytes scanner.pos

def skip (scanner : ByteScanner) (length : Nat) : ByteScanner :=
  { scanner with pos := scanner.pos + length }

def take (scanner : ByteScanner) (kind : TokenKind) (length : Nat) (value : String)
    (problems : List (String × UInt32)) : ByteToken × ByteScanner :=
  ({ kind, value, problems, start := scanner.pos, stop := scanner.pos + length },
    scanner.skip length)

/-- Passes a block comment. -/
def skipComment (scanner : ByteScanner) (length : Nat) (isDoc : Bool) : ByteScanner :=
  let next := scanner.skip length
  if isDoc then { next with pendingDoc := some (.ofNat scanner.pos, .ofNat next.pos) } else next

def takeToken? (scanner : ByteScanner) (problems : List (String × UInt32)) :
    Option (ByteToken × ByteScanner) := do
  let lexeme ← byteToken? scanner.bytes scanner.pos
  let found := lexeme.problem.toList.map fun message => (message, UInt32.ofNat scanner.pos)
  let (token, next) :=
    scanner.take lexeme.kind lexeme.length lexeme.value (problems ++ found)
  return ({ token with bytes := lexeme.bytes, flags := lexeme.flags, doc := scanner.pendingDoc },
    { next with pendingDoc := none })

/-- The next token, unless it takes more rounds. -/
def nextWithin? : Nat → ByteScanner → List (String × UInt32) → Option (ByteToken × ByteScanner)
  | 0, _, _ => none
  | rounds + 1, scanner, problems =>
      if !scanner.inCode then
        if scanner.bytes.length < scanner.pos then none
        else match findOpenTag 0 scanner.ahead with
        | .none => some ((scanner.skip scanner.ahead.length).take .endOfFile 0 "" problems)
        | .code length => nextWithin? rounds { scanner.skip length with inCode := true } problems
        | .echo before =>
            some ({ scanner.skip before with inCode := true }.take .echoKw 3 "echo" problems)
      else
        match frontOf scanner.ahead with
        | .done => some (scanner.take .endOfFile 0 "" problems)
        | .blank length => nextWithin? rounds (scanner.skip length) problems
        | .blockComment length closed isDoc =>
            let problem := if closed then [] else [("Unterminated comment", .ofNat scanner.pos)]
            nextWithin? rounds (scanner.skipComment length isDoc) (problems ++ problem)
        | .closeTag length =>
            some ({ scanner with inCode := false }.take .semicolon length "" problems)
        | .token => scanner.takeToken? problems

/-- Reads the next token; every round before the last but one passes a byte. -/
def next? (scanner : ByteScanner) : Option (ByteToken × ByteScanner) :=
  scanner.nextWithin? (scanner.bytes.length - scanner.pos + 2) []

/-- The scanner after a number of tokens. -/
def after? : Nat → ByteScanner → Option ByteScanner
  | 0, scanner => some scanner
  | count + 1, scanner => do
      let (_, next) ← (← scanner.after? count).next?
      return next

/-- The token after a number of tokens. -/
def scan? (scanner : ByteScanner) (count : Nat) : Option ByteToken := do
  let (token, _) ← (← scanner.after? count).next?
  return token

end ByteScanner

end StaticReflection
