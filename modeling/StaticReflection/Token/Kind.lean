import StaticReflection.Text.Basic

namespace StaticReflection

/-! Kinds of tokens. Blank space, comments, open tags and text outside the tags
produce no tokens. -/

inductive TokenKind where
  | unknown
  | endOfFile
  | variableName
  | identifier
  | qualifiedName
  | integerLiteral
  | floatLiteral
  | stringLiteral
  | interpolatedString
  | cast
  | attributeStart
  | openBrace
  | closeBrace
  | openParen
  | closeParen
  | openBracket
  | closeBracket
  | semicolon
  | comma
  | dot
  | dotDotDot
  | colon
  | colonColon
  | question
  | questionQuestion
  | questionArrow
  | arrow
  | fatArrow
  | atSign
  | dollar
  | plus
  | minus
  | asterisk
  | asteriskAsterisk
  | slash
  | percent
  | equals
  | equalsEquals
  | equalsEqualsEquals
  | exclamationEquals
  | exclamationEqualsEquals
  | lessThan
  | lessThanEquals
  | greaterThan
  | greaterThanEquals
  | spaceship
  | lessThanLessThan
  | greaterThanGreaterThan
  | ampersand
  | bar
  | caret
  | tilde
  | exclamation
  | ampersandAmpersand
  | barBar
  | plusPlus
  | minusMinus
  | plusEquals
  | minusEquals
  | asteriskEquals
  | asteriskAsteriskEquals
  | slashEquals
  | dotEquals
  | percentEquals
  | ampersandEquals
  | barEquals
  | caretEquals
  | lessThanLessThanEquals
  | greaterThanGreaterThanEquals
  | questionQuestionEquals
  | abstractKw
  | andKw
  | arrayKw
  | asKw
  | breakKw
  | callableKw
  | caseKw
  | catchKw
  | classKw
  | cloneKw
  | constKw
  | continueKw
  | declareKw
  | defaultKw
  | doKw
  | echoKw
  | elseKw
  | elseIfKw
  | emptyKw
  | enumKw
  | evalKw
  | exitKw
  | extendsKw
  | finalKw
  | finallyKw
  | fnKw
  | forKw
  | foreachKw
  | functionKw
  | globalKw
  | gotoKw
  | ifKw
  | implementsKw
  | includeKw
  | includeOnceKw
  | instanceofKw
  | insteadofKw
  | interfaceKw
  | issetKw
  | listKw
  | matchKw
  | namespaceKw
  | newKw
  | orKw
  | printKw
  | privateKw
  | protectedKw
  | publicKw
  | readonlyKw
  | requireKw
  | requireOnceKw
  | returnKw
  | staticKw
  | switchKw
  | throwKw
  | traitKw
  | tryKw
  | unsetKw
  | useKw
  | varKw
  | whileKw
  | xorKw
  | yieldKw
  | magicLine
  | magicFile
  | magicDir
  | magicClass
  | magicTrait
  | magicMethod
  | magicFunction
  | magicNamespace
  deriving DecidableEq, Repr, Inhabited

/-- The name of a kind in messages and listings. -/
def TokenKind.label : TokenKind → String
  | .unknown => "Unknown"
  | .endOfFile => "EndOfFileToken"
  | .variableName => "Variable"
  | .identifier => "Identifier"
  | .qualifiedName => "QualifiedName"
  | .integerLiteral => "IntegerLiteral"
  | .floatLiteral => "FloatLiteral"
  | .stringLiteral => "StringLiteral"
  | .interpolatedString => "InterpolatedString"
  | .cast => "CastToken"
  | .attributeStart => "AttributeStart"
  | .openBrace => "OpenBraceToken"
  | .closeBrace => "CloseBraceToken"
  | .openParen => "OpenParenToken"
  | .closeParen => "CloseParenToken"
  | .openBracket => "OpenBracketToken"
  | .closeBracket => "CloseBracketToken"
  | .semicolon => "SemicolonToken"
  | .comma => "CommaToken"
  | .dot => "DotToken"
  | .dotDotDot => "DotDotDotToken"
  | .colon => "ColonToken"
  | .colonColon => "ColonColonToken"
  | .question => "QuestionToken"
  | .questionQuestion => "QuestionQuestionToken"
  | .questionArrow => "QuestionArrowToken"
  | .arrow => "ArrowToken"
  | .fatArrow => "FatArrowToken"
  | .atSign => "AtToken"
  | .dollar => "DollarToken"
  | .plus => "PlusToken"
  | .minus => "MinusToken"
  | .asterisk => "AsteriskToken"
  | .asteriskAsterisk => "AsteriskAsteriskToken"
  | .slash => "SlashToken"
  | .percent => "PercentToken"
  | .equals => "EqualsToken"
  | .equalsEquals => "EqualsEqualsToken"
  | .equalsEqualsEquals => "EqualsEqualsEqualsToken"
  | .exclamationEquals => "ExclamationEqualsToken"
  | .exclamationEqualsEquals => "ExclamationEqualsEqualsToken"
  | .lessThan => "LessThanToken"
  | .lessThanEquals => "LessThanEqualsToken"
  | .greaterThan => "GreaterThanToken"
  | .greaterThanEquals => "GreaterThanEqualsToken"
  | .spaceship => "SpaceshipToken"
  | .lessThanLessThan => "LessThanLessThanToken"
  | .greaterThanGreaterThan => "GreaterThanGreaterThanToken"
  | .ampersand => "AmpersandToken"
  | .bar => "BarToken"
  | .caret => "CaretToken"
  | .tilde => "TildeToken"
  | .exclamation => "ExclamationToken"
  | .ampersandAmpersand => "AmpersandAmpersandToken"
  | .barBar => "BarBarToken"
  | .plusPlus => "PlusPlusToken"
  | .minusMinus => "MinusMinusToken"
  | .plusEquals => "PlusEqualsToken"
  | .minusEquals => "MinusEqualsToken"
  | .asteriskEquals => "AsteriskEqualsToken"
  | .asteriskAsteriskEquals => "AsteriskAsteriskEqualsToken"
  | .slashEquals => "SlashEqualsToken"
  | .dotEquals => "DotEqualsToken"
  | .percentEquals => "PercentEqualsToken"
  | .ampersandEquals => "AmpersandEqualsToken"
  | .barEquals => "BarEqualsToken"
  | .caretEquals => "CaretEqualsToken"
  | .lessThanLessThanEquals => "LessThanLessThanEqualsToken"
  | .greaterThanGreaterThanEquals => "GreaterThanGreaterThanEqualsToken"
  | .questionQuestionEquals => "QuestionQuestionEqualsToken"
  | .abstractKw => "AbstractKeyword"
  | .andKw => "AndKeyword"
  | .arrayKw => "ArrayKeyword"
  | .asKw => "AsKeyword"
  | .breakKw => "BreakKeyword"
  | .callableKw => "CallableKeyword"
  | .caseKw => "CaseKeyword"
  | .catchKw => "CatchKeyword"
  | .classKw => "ClassKeyword"
  | .cloneKw => "CloneKeyword"
  | .constKw => "ConstKeyword"
  | .continueKw => "ContinueKeyword"
  | .declareKw => "DeclareKeyword"
  | .defaultKw => "DefaultKeyword"
  | .doKw => "DoKeyword"
  | .echoKw => "EchoKeyword"
  | .elseKw => "ElseKeyword"
  | .elseIfKw => "ElseIfKeyword"
  | .emptyKw => "EmptyKeyword"
  | .enumKw => "EnumKeyword"
  | .evalKw => "EvalKeyword"
  | .exitKw => "ExitKeyword"
  | .extendsKw => "ExtendsKeyword"
  | .finalKw => "FinalKeyword"
  | .finallyKw => "FinallyKeyword"
  | .fnKw => "FnKeyword"
  | .forKw => "ForKeyword"
  | .foreachKw => "ForeachKeyword"
  | .functionKw => "FunctionKeyword"
  | .globalKw => "GlobalKeyword"
  | .gotoKw => "GotoKeyword"
  | .ifKw => "IfKeyword"
  | .implementsKw => "ImplementsKeyword"
  | .includeKw => "IncludeKeyword"
  | .includeOnceKw => "IncludeOnceKeyword"
  | .instanceofKw => "InstanceofKeyword"
  | .insteadofKw => "InsteadofKeyword"
  | .interfaceKw => "InterfaceKeyword"
  | .issetKw => "IssetKeyword"
  | .listKw => "ListKeyword"
  | .matchKw => "MatchKeyword"
  | .namespaceKw => "NamespaceKeyword"
  | .newKw => "NewKeyword"
  | .orKw => "OrKeyword"
  | .printKw => "PrintKeyword"
  | .privateKw => "PrivateKeyword"
  | .protectedKw => "ProtectedKeyword"
  | .publicKw => "PublicKeyword"
  | .readonlyKw => "ReadonlyKeyword"
  | .requireKw => "RequireKeyword"
  | .requireOnceKw => "RequireOnceKeyword"
  | .returnKw => "ReturnKeyword"
  | .staticKw => "StaticKeyword"
  | .switchKw => "SwitchKeyword"
  | .throwKw => "ThrowKeyword"
  | .traitKw => "TraitKeyword"
  | .tryKw => "TryKeyword"
  | .unsetKw => "UnsetKeyword"
  | .useKw => "UseKeyword"
  | .varKw => "VarKeyword"
  | .whileKw => "WhileKeyword"
  | .xorKw => "XorKeyword"
  | .yieldKw => "YieldKeyword"
  | .magicLine => "LineMagicConst"
  | .magicFile => "FileMagicConst"
  | .magicDir => "DirMagicConst"
  | .magicClass => "ClassMagicConst"
  | .magicTrait => "TraitMagicConst"
  | .magicMethod => "MethodMagicConst"
  | .magicFunction => "FunctionMagicConst"
  | .magicNamespace => "NamespaceMagicConst"

/-- The reserved words and the names of the magic constants. -/
def reservedWords : List (String × TokenKind) := [
  ("abstract", .abstractKw),
  ("and", .andKw),
  ("array", .arrayKw),
  ("as", .asKw),
  ("break", .breakKw),
  ("callable", .callableKw),
  ("case", .caseKw),
  ("catch", .catchKw),
  ("class", .classKw),
  ("clone", .cloneKw),
  ("const", .constKw),
  ("continue", .continueKw),
  ("declare", .declareKw),
  ("default", .defaultKw),
  ("do", .doKw),
  ("echo", .echoKw),
  ("else", .elseKw),
  ("elseif", .elseIfKw),
  ("empty", .emptyKw),
  ("enum", .enumKw),
  ("eval", .evalKw),
  ("exit", .exitKw),
  ("die", .exitKw),
  ("extends", .extendsKw),
  ("final", .finalKw),
  ("finally", .finallyKw),
  ("fn", .fnKw),
  ("for", .forKw),
  ("foreach", .foreachKw),
  ("function", .functionKw),
  ("global", .globalKw),
  ("goto", .gotoKw),
  ("if", .ifKw),
  ("implements", .implementsKw),
  ("include", .includeKw),
  ("include_once", .includeOnceKw),
  ("instanceof", .instanceofKw),
  ("insteadof", .insteadofKw),
  ("interface", .interfaceKw),
  ("isset", .issetKw),
  ("list", .listKw),
  ("match", .matchKw),
  ("namespace", .namespaceKw),
  ("new", .newKw),
  ("or", .orKw),
  ("print", .printKw),
  ("private", .privateKw),
  ("protected", .protectedKw),
  ("public", .publicKw),
  ("readonly", .readonlyKw),
  ("require", .requireKw),
  ("require_once", .requireOnceKw),
  ("return", .returnKw),
  ("static", .staticKw),
  ("switch", .switchKw),
  ("throw", .throwKw),
  ("trait", .traitKw),
  ("try", .tryKw),
  ("unset", .unsetKw),
  ("use", .useKw),
  ("var", .varKw),
  ("while", .whileKw),
  ("xor", .xorKw),
  ("yield", .yieldKw),
  ("__line__", .magicLine),
  ("__file__", .magicFile),
  ("__dir__", .magicDir),
  ("__class__", .magicClass),
  ("__trait__", .magicTrait),
  ("__method__", .magicMethod),
  ("__function__", .magicFunction),
  ("__namespace__", .magicNamespace)]

/-- The reserved word with the given spelling, in any case. -/
def keyword? (text : String) : Option TokenKind :=
  reservedWords.lookup (foldCase text)

def TokenKind.isMagicConstant : TokenKind → Bool
  | .magicLine | .magicFile | .magicDir | .magicClass
  | .magicTrait | .magicMethod | .magicFunction | .magicNamespace => true
  | _ => false

/-- Whether the kind is that of a reserved word or of a magic constant. -/
def TokenKind.isKeyword (kind : TokenKind) : Bool :=
  reservedWords.any (·.2 == kind)

/-- The words that may precede a class member. -/
def TokenKind.isMemberModifier : TokenKind → Bool
  | .publicKw | .protectedKw | .privateKw | .staticKw
  | .abstractKw | .finalKw | .readonlyKw | .varKw => true
  | _ => false

/-- Assignment operators that also compute. -/
def TokenKind.isCompoundAssignment : TokenKind → Bool
  | .plusEquals | .minusEquals | .asteriskEquals | .asteriskAsteriskEquals
  | .slashEquals | .dotEquals | .percentEquals | .ampersandEquals | .barEquals
  | .caretEquals | .lessThanLessThanEquals | .greaterThanGreaterThanEquals
  | .questionQuestionEquals => true
  | _ => false

/-- How a binary operator is written in messages. -/
def TokenKind.operatorSymbol : TokenKind → String
  | .plus => "+"
  | .minus => "-"
  | .asterisk => "*"
  | .slash => "/"
  | .percent => "%"
  | .asteriskAsterisk => "**"
  | .dot => "."
  | .ampersand => "&"
  | .bar => "|"
  | .caret => "^"
  | .lessThanLessThan => "<<"
  | .greaterThanGreaterThan => ">>"
  | .equalsEquals => "=="
  | .exclamationEquals => "!="
  | .equalsEqualsEquals => "==="
  | .exclamationEqualsEquals => "!=="
  | .lessThan => "<"
  | .lessThanEquals => "<="
  | .greaterThan => ">"
  | .greaterThanEquals => ">="
  | .spaceship => "<=>"
  | .ampersandAmpersand | .andKw => "&&"
  | .barBar | .orKw => "||"
  | .xorKw => "xor"
  | .questionQuestion => "??"
  | _ => "?"

/-- Punctuation and operators, the longer spellings first. -/
def punctuation : List (String × TokenKind) := [
  ("...", .dotDotDot), ("??=", .questionQuestionEquals), ("?->", .questionArrow),
  ("**=", .asteriskAsteriskEquals), ("===", .equalsEqualsEquals),
  ("!==", .exclamationEqualsEquals), ("<=>", .spaceship),
  ("<<=", .lessThanLessThanEquals), (">>=", .greaterThanGreaterThanEquals),
  ("#[", .attributeStart), (".=", .dotEquals), ("::", .colonColon),
  ("??", .questionQuestion), ("->", .arrow), ("--", .minusMinus),
  ("-=", .minusEquals), ("++", .plusPlus), ("+=", .plusEquals),
  ("**", .asteriskAsterisk), ("*=", .asteriskEquals), ("/=", .slashEquals),
  ("%=", .percentEquals), ("==", .equalsEquals), ("=>", .fatArrow),
  ("!=", .exclamationEquals), ("<<", .lessThanLessThan),
  ("<=", .lessThanEquals), ("<>", .exclamationEquals),
  (">>", .greaterThanGreaterThan), (">=", .greaterThanEquals),
  ("&&", .ampersandAmpersand), ("&=", .ampersandEquals), ("||", .barBar),
  ("|=", .barEquals), ("^=", .caretEquals),
  ("\x7b", .openBrace), ("\x7d", .closeBrace), ("(", .openParen),
  (")", .closeParen), ("[", .openBracket), ("]", .closeBracket),
  (";", .semicolon), (",", .comma), ("@", .atSign), ("~", .tilde), (".", .dot),
  (":", .colon), ("?", .question), ("-", .minus), ("+", .plus),
  ("*", .asterisk), ("/", .slash), ("%", .percent), ("=", .equals),
  ("!", .exclamation), ("<", .lessThan), (">", .greaterThan),
  ("&", .ampersand), ("|", .bar), ("^", .caret), ("$", .dollar)]

/-- The longest punctuation at the front of a text, with its length. -/
def punctuation? (text : List Char) : Option (TokenKind × Nat) :=
  (punctuation.find? fun entry => entry.1.toList.isPrefixOf text).map
    fun entry => (entry.2, entry.1.length)

end StaticReflection
