import Mathlib.Algebra.Group.Nat.Defs
import StaticReflection.Proofs.Parser.TokenRuns

namespace StaticReflection

/-! Constant expressions as trees, and their text with all operands in parentheses. -/

structure Word where
  text : List Char
  starts : startsName text = true
  parts : text.all isNamePart = true

namespace Word

def value (word : Word) : String :=
  String.ofList word.text

def kind (word : Word) : TokenKind :=
  nameKind false word.value

/-- Whether the word in parentheses is a cast. -/
def isCast (word : Word) : Bool :=
  (castTypes.lookup (foldCase word.value)).isSome

def arrayWord : Word := ⟨['a', 'r', 'r', 'a', 'y'], by decide, by decide⟩
def andWord : Word := ⟨['a', 'n', 'd'], by decide, by decide⟩
def orWord : Word := ⟨['o', 'r'], by decide, by decide⟩
def xorWord : Word := ⟨['x', 'o', 'r'], by decide, by decide⟩

end Word

structure ClassName extends Word where
  free : keyword? toWord.value = none

structure ConstantName extends ClassName where
  noCast : toWord.isCast = false

/-- A member of a class. Reserved words can name one, but `class` does in one spelling only. -/
structure MemberName extends Word where
  canonical : toWord.kind = .classKw → toWord.value = "class"

inductive UnaryOp where
  | not
  | minus
  | plus
  | complement
  deriving DecidableEq, Repr

def UnaryOp.kind : UnaryOp → TokenKind
  | .not => .exclamation
  | .minus => .minus
  | .plus => .plus
  | .complement => .tilde

/-- An operator of the table that takes an expression on each side. -/
structure BinaryOp where
  kind : TokenKind
  binds : (Grammar.binaryPrecedence? kind).isSome = true
  expression : kind ≠ .instanceofKw

mutual

inductive Expr where
  | int (value : Nat) (fits : value < 2 ^ 63)
  | str (value : String)
  | const (name : ConstantName)
  | classConst (owner : ClassName) (name : MemberName)
  | unary (op : UnaryOp) (operand : Expr)
  | binary (op : BinaryOp) (left right : Expr)
  | ternary (condition whenTrue whenFalse : Expr)
  | shortTernary (condition whenFalse : Expr)
  | array (bracketed : Bool) (items : Items)
  | dim (base index : Expr)

inductive Item where
  | plain (value : Expr)
  | keyed (key value : Expr)
  | spread (value : Expr)

inductive Items where
  | nil
  | cons (item : Item) (rest : Items)

end

/-! Rendering. -/

inductive Piece where
  | number (value : Nat)
  | quoted (value : String)
  | word (name : Word)
  | sign (kind : TokenKind)

/-- The first spelling in the table of signs. -/
def spelling (kind : TokenKind) : List Char :=
  ((punctuation.find? (·.2 == kind)).map (·.1.toList)).getD []

def escaped : List Char → List Char
  | [] => []
  | c :: text => if c = '\\' ∨ c = '\'' then '\\' :: c :: escaped text else c :: escaped text

namespace Piece

def text : Piece → List Char
  | .number value => Nat.toDigits 10 value
  | .quoted value => '\'' :: escaped value.toList ++ ['\'']
  | .word name => name.text
  | .sign kind => spelling kind

def mark : Piece → Mark
  | .number value => ⟨.integerLiteral, String.ofList (Nat.toDigits 10 value), []⟩
  | .quoted value =>
      ⟨.stringLiteral, Utf8.decodeString (Utf8.encode value.toList), Utf8.encode value.toList⟩
  | .word name => ⟨name.kind, name.value, []⟩
  | .sign kind => ⟨kind, "", []⟩

@[simp] theorem mark_number (value : Nat) : (Piece.number value).mark =
    ⟨.integerLiteral, String.ofList (Nat.toDigits 10 value), []⟩ := rfl

@[simp] theorem mark_quoted (value : String) : (Piece.quoted value).mark =
    ⟨.stringLiteral, Utf8.decodeString (Utf8.encode value.toList), Utf8.encode value.toList⟩ :=
  rfl

@[simp] theorem mark_word (name : Word) : (Piece.word name).mark = ⟨name.kind, name.value, []⟩ :=
  rfl

@[simp] theorem mark_sign (kind : TokenKind) : (Piece.sign kind).mark = ⟨kind, "", []⟩ := rfl

end Piece

def BinaryOp.piece (op : BinaryOp) : Piece :=
  match op.kind with
  | .andKw => .word .andWord
  | .orKw => .word .orWord
  | .xorKw => .word .xorWord
  | kind => .sign kind

/-- How freely an expression is written. -/
structure Style where
  /-- The number of blanks after each token. -/
  gap : Nat
  /-- Keys, values and indices are no operands, and stand without parentheses. -/
  bare : Bool

def parenthesized (pieces : List Piece) : List Piece :=
  .sign .openParen :: (pieces ++ [.sign .closeParen])

def element (bare : Bool) (pieces : List Piece) : List Piece :=
  if bare then pieces else parenthesized pieces

/-- What comes after an item. -/
def separated : List Piece → List Piece
  | [] => []
  | rest => .sign .comma :: rest

mutual

def Expr.pieces (bare : Bool) : Expr → List Piece
  | .int value _ => [.number value]
  | .str value => [.quoted value]
  | .const name => [.word name.toWord]
  | .classConst owner name => [.word owner.toWord, .sign .colonColon, .word name.toWord]
  | .unary op operand => .sign op.kind :: parenthesized (operand.pieces bare)
  | .binary op left right =>
      parenthesized (left.pieces bare) ++ op.piece :: parenthesized (right.pieces bare)
  | .ternary condition whenTrue whenFalse =>
      parenthesized (condition.pieces bare) ++
        .sign .question :: (parenthesized (whenTrue.pieces bare) ++
          .sign .colon :: parenthesized (whenFalse.pieces bare))
  | .shortTernary condition whenFalse =>
      parenthesized (condition.pieces bare) ++
        .sign .question :: .sign .colon :: parenthesized (whenFalse.pieces bare)
  | .array true items => .sign .openBracket :: (items.pieces bare ++ [.sign .closeBracket])
  | .array false items => .word .arrayWord :: parenthesized (items.pieces bare)
  | .dim base index =>
      parenthesized (base.pieces bare) ++
        .sign .openBracket :: (element bare (index.pieces bare) ++ [.sign .closeBracket])

def Item.pieces (bare : Bool) : Item → List Piece
  | .plain value => element bare (value.pieces bare)
  | .keyed key value =>
      element bare (key.pieces bare) ++ .sign .fatArrow :: element bare (value.pieces bare)
  | .spread value => .sign .dotDotDot :: element bare (value.pieces bare)

def Items.pieces (bare : Bool) : Items → List Piece
  | .nil => []
  | .cons item rest => item.pieces bare ++ separated (rest.pieces bare)

end

/-- The text of some tokens, with blanks after each. -/
def layout (gap : Nat) (pieces : List Piece) : List Char :=
  pieces.flatMap fun piece => piece.text ++ List.replicate gap ' '

def Expr.render (style : Style) (e : Expr) : List Char :=
  layout style.gap (e.pieces style.bare)

/-! How many expressions are open at once. An operand on the right opens one outside its
parentheses, and the parentheses one inside. -/

mutual

def Expr.nesting (bare : Bool) : Expr → Nat
  | .int .. | .str .. | .const .. | .classConst .. => 1
  | .unary _ operand => operand.nesting bare + 2
  | .binary _ left right => max (left.nesting bare) (right.nesting bare + 1) + 1
  | .ternary condition whenTrue whenFalse =>
      max (condition.nesting bare)
        (max (whenTrue.nesting bare) (whenFalse.nesting bare) + 1) + 1
  | .shortTernary condition whenFalse =>
      max (condition.nesting bare) (whenFalse.nesting bare + 1) + 1
  | .array _ items => items.nesting bare + 1
  | .dim base index => max (base.nesting bare) (index.nesting bare + (!bare).toNat) + 1

def Item.nesting (bare : Bool) : Item → Nat
  | .plain value | .spread value => value.nesting bare + (!bare).toNat
  | .keyed key value => max (key.nesting bare) (value.nesting bare) + (!bare).toNat

def Items.nesting (bare : Bool) : Items → Nat
  | .nil => 0
  | .cons item rest => max (item.nesting bare) (rest.nesting bare)

end

end StaticReflection
