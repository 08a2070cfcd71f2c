import StaticReflection.Token.Lexeme

namespace StaticReflection

/-! Tokens in their places, and the sequence of tokens of a text. It is read by characters;
`ByteScanner` reads the same tokens by bytes, with offsets of 32 bits. -/

structure DocComment where
  span : Span
  text : String
  deriving DecidableEq, Repr

/-- Something wrong at an offset. -/
structure ScanProblem where
  message : String
  pos : Nat
  deriving DecidableEq, Repr

structure Token where
  kind : TokenKind
  span : Span
  /-- The characters of the token. -/
  lexeme : List Char := []
  value : String := ""
  bytes : List UInt8 := []
  flags : TokenFlags := {}
  /-- The documentation comment before the token. -/
  doc : Option DocComment := none
  /-- What was wrong between the previous token and the end of this one. -/
  problems : List ScanProblem := []

/-- What stands before the first token. -/
def Token.initial : Token :=
  { kind := .unknown, span := ⟨0, 0⟩ }

/-- A place in a text. -/
structure Scanner where
  /-- The text from here on. -/
  rest : List Char
  pos : Nat := 0
  /-- Inside the tags. -/
  inCode : Bool := false
  /-- A documentation comment that no token has taken yet. -/
  pendingDoc : Option DocComment := none

/-- Where the text outside the tags ends. -/
inductive OpenTag where
  | none
  /-- The number of characters through the tag. -/
  | code (length : Nat)
  /-- The number of characters before a tag that prints. -/
  | echo (before : Nat)

/-- Finds the next tag; `before` characters have been passed. -/
def findOpenTag : Nat → List Char → OpenTag
  | _, [] => .none
  | before, '<' :: '?' :: text =>
      if text.head? = some '=' then .echo before
      else if (text.take 3).map Char.toLower = ['p', 'h', 'p']
          && (text[3]?).all isTagSpace then
        .code (before + min 6 (text.length + 2))
      else findOpenTag (before + 2) text
  | before, _ :: text => findOpenTag (before + 1) text

/-- A comment through the end of its line, or up to a closing tag. -/
def lineCommentLength : List Char → Nat
  | [] => 0
  | c :: text =>
      if c == '\n' || c == '\r' || (c == '?' && text.head? == some '>') then 0
      else lineCommentLength text + 1

/-- The length of a text through the first end of a block comment. -/
def blockCommentEnd? : Nat → List Char → Option Nat
  | length, '*' :: '/' :: _ => some (length + 2)
  | length, _ :: text => blockCommentEnd? (length + 1) text
  | _, [] => none

/-- The length of a closing tag with the line end after it. -/
def closeTagLength (text : List Char) : Nat :=
  match text.drop 2 with
  | '\n' :: _ => 3
  | '\r' :: '\n' :: _ => 4
  | _ => 2

/-- What stands at the front of a text inside the tags. -/
inductive Front where
  | done
  | blank (length : Nat)
  | blockComment (length : Nat) (closed isDoc : Bool)
  | closeTag (length : Nat)
  | token

def frontOf : List Char → Front
  | [] => .done
  | c :: text =>
      if isSeparatorSpace c then .blank 1
      else if (c == '#' && text.head? != some '[')
          || (c == '/' && text.head? == some '/') then
        .blank (lineCommentLength (c :: text))
      else if c == '/' && text.head? == some '*' then
        let closing := blockCommentEnd? 2 text.tail
        .blockComment (closing.getD (text.length + 1)) closing.isSome
          (text[1]? == some '*' && (text[2]?).any isTagSpace)
      else if c == '?' && text.head? == some '>' then .closeTag (closeTagLength (c :: text))
      else .token

/-- Moves on by a number of characters. -/
def Scanner.skip (scanner : Scanner) (length : Nat) : Scanner :=
  { scanner with
    rest := scanner.rest.drop length
    pos := scanner.pos + Text.byteSize (scanner.rest.take length) }

def Scanner.take (scanner : Scanner) (kind : TokenKind) (length : Nat) (value : String)
    (problems : List ScanProblem) : Token × Scanner :=
  let next := scanner.skip length
  ({ kind, value, problems
     span := ⟨scanner.pos, next.pos⟩
     lexeme := scanner.rest.take length }, next)

/-- Passes a block comment. -/
def Scanner.skipComment (scanner : Scanner) (length : Nat) (isDoc : Bool) : Scanner :=
  let next := scanner.skip length
  if isDoc then
    { next with
      pendingDoc := some
        ⟨⟨scanner.pos, next.pos⟩, String.ofList (scanner.rest.take length)⟩ }
  else next

/-- Takes the token at the front; it gets the documentation comment that waits. -/
def Scanner.takeToken (scanner : Scanner) (problems : List ScanProblem) : Token × Scanner :=
  let lexeme := lexToken scanner.rest
  let found := lexeme.problem.toList.map fun message => ⟨message, scanner.pos⟩
  let (token, next) :=
    scanner.take lexeme.kind lexeme.length lexeme.value (problems ++ found)
  ({ token with bytes := lexeme.bytes, flags := lexeme.flags, doc := scanner.pendingDoc },
    { next with pendingDoc := none })

/-- The next token. Each step before it passes at least one character, except the
one that enters the tags at the end of the text. -/
def Scanner.nextFrom : Nat → Scanner → List ScanProblem → Token × Scanner
  | 0, scanner, problems => scanner.take .endOfFile 0 "" problems
  | fuel + 1, scanner, problems =>
      if !scanner.inCode then
        match findOpenTag 0 scanner.rest with
        | .none => (scanner.skip scanner.rest.length).take .endOfFile 0 "" problems
        | .code length => nextFrom fuel { scanner.skip length with inCode := true } problems
        | .echo before =>
            { scanner.skip before with inCode := true }.take .echoKw 3 "echo" problems
      else
        match frontOf scanner.rest with
        | .done => scanner.take .endOfFile 0 "" problems
        | .blank length => nextFrom fuel (scanner.skip length) problems
        | .blockComment length closed isDoc =>
            let problem := if closed then [] else [⟨"Unterminated comment", scanner.pos⟩]
            nextFrom fuel (scanner.skipComment length isDoc) (problems ++ problem)
        | .closeTag length => { scanner with inCode := false }.take .semicolon length "" problems
        | .token => scanner.takeToken problems

def Scanner.next (scanner : Scanner) : Token × Scanner :=
  scanner.nextFrom (scanner.rest.length + 2) []

/-- The tokens from here on. -/
def Scanner.tokensFrom : Nat → Scanner → List Token
  | 0, _ => []
  | fuel + 1, scanner =>
      let (token, next) := scanner.next
      if token.kind = .endOfFile then [token] else token :: tokensFrom fuel next

/-- The tokens of a text; the last one marks the end. -/
def Scanner.tokens (scanner : Scanner) : List Token :=
  scanner.tokensFrom (scanner.rest.length + 1)

/-- The tokens of a file, which starts outside the tags. -/
def tokenize (text : Text) : List Token :=
  Scanner.tokens { rest := text }

/-! Reading tokens one by one. -/

/-- A scanner together with the token it read last and the problems found so far. -/
structure TokenReader where
  scanner : Scanner
  current : Token := Token.initial
  problems : List ScanProblem := []

def TokenReader.advance (reader : TokenReader) : TokenReader :=
  let (token, next) := reader.scanner.next
  ⟨next, token, reader.problems ++ token.problems⟩

/-- Goes back to an earlier state. Problems found since then are dropped. -/
def TokenReader.rewind (reader saved : TokenReader) : TokenReader :=
  { saved with problems := reader.problems.take saved.problems.length }

def TokenReader.clearProblems (reader : TokenReader) : TokenReader :=
  { reader with problems := [] }

end StaticReflection
