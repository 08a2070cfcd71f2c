import StaticReflection.Token.Kind
import StaticReflection.Value.KeyedArray

namespace StaticReflection

/-! What can go wrong when an expression is evaluated. -/

/-- What an offset is taken of. -/
inductive Container where
  | array
  | string
  deriving DecidableEq, Repr

inductive Fault where
  /-- Operators. -/
  | unsupportedOperator (op : TokenKind)
  | unsupportedOperands (left : String) (op : TokenKind) (right : String)
  | divisionByZero
  | moduloByZero
  | negativeShift
  | bitwiseNot (type : String)
  /-- Conversions. -/
  | arrayToString
  | objectToString (owner : String)
  /-- Functions. -/
  | argumentType (function : String) (position : Nat) (expected given : String)
  | parameterType (function : String) (position : Nat) (parameter expected given : String)
  | argumentTooSmall (function : String) (position : Nat) (parameter : String) (least : Nat)
  | tooFewArguments (function : String) (given least : Nat)
  | tooManyArguments (function : String) (given most : Nat)
  | resultTooLong (length limit : Nat)
  | undefinedFunction (name : String)
  | argumentNotPassed (function : String) (position : Nat) (parameter : String)
  | unknownParameter (name : String)
  | parameterOverwritten (name : String)
  | positionalAfterNamed
  | positionalAfterNamedUnpacked
  | constantArguments (given : Nat)
  /-- Arrays. -/
  | arrayFull
  | emptyElement
  | notUnpackable
  | illegalKey (type : String)
  | emptyIndex
  | illegalOffset (type : String) (container : Container)
  | undefinedKey (key : ArrayKey)
  | stringOffset (offset : Int)
  | objectAsArray (owner : String)
  /-- Classes. -/
  | noClassScope (name : String)
  | noParent
  | lateStaticBinding
  | propertyOfNonObject (property type : String)
  | undefinedProperty (owner property : String)
  deriving DecidableEq, Repr

def Fault.message : Fault → String
  | .unsupportedOperator op => "Unsupported operator " ++ op.label
  | .unsupportedOperands left op right =>
      "Unsupported operand types: " ++ left ++ " " ++ op.operatorSymbol ++ " " ++ right
  | .divisionByZero => "Division by zero"
  | .moduloByZero => "Modulo by zero"
  | .negativeShift => "Bit shift by negative number"
  | .bitwiseNot type => "Cannot perform bitwise not on " ++ type
  | .arrayToString => "Array to string conversion"
  | .objectToString owner =>
      "Object of class " ++ owner ++ " could not be converted to string"
  | .argumentType function position expected given =>
      function ++ "(): Argument #" ++ intText position ++ " must be of type " ++ expected
        ++ ", " ++ given ++ " given"
  | .parameterType function position parameter expected given =>
      function ++ "(): Argument #" ++ intText position ++ " ($" ++ parameter
        ++ ") must be of type " ++ expected ++ ", " ++ given ++ " given"
  | .argumentTooSmall function position parameter least =>
      function ++ "(): Argument #" ++ intText position ++ " ($" ++ parameter
        ++ ") must be greater than or equal to " ++ intText least
  | .tooFewArguments function given least =>
      "Too few arguments to function " ++ function ++ "(), " ++ intText given
        ++ " passed and at least " ++ intText least ++ " expected"
  | .tooManyArguments function given most =>
      function ++ "() expects at most " ++ intText most ++ " arguments, " ++ intText given
        ++ " given"
  | .resultTooLong length limit =>
      "str_repeat(): result of " ++ intText length ++ " bytes exceeds the limit of "
        ++ intText limit
  | .undefinedFunction name => "Call to undefined function " ++ name ++ "()"
  | .argumentNotPassed function position parameter =>
      function ++ "(): Argument #" ++ intText position ++ " ($" ++ parameter ++ ") not passed"
  | .unknownParameter name => "Unknown named parameter $" ++ name
  | .parameterOverwritten name =>
      "Named parameter $" ++ name ++ " overwrites previous argument"
  | .positionalAfterNamed => "Cannot use positional argument after named argument"
  | .positionalAfterNamedUnpacked =>
      "Cannot use positional argument after named argument during unpacking"
  | .constantArguments given =>
      "constant() expects exactly 1 argument, " ++ intText given ++ " given"
  | .arrayFull =>
      "Cannot add element to the array as the next element is already occupied"
  | .emptyElement => "Cannot use empty array elements in arrays"
  | .notUnpackable => "Only arrays and Traversables can be unpacked"
  | .illegalKey type => "Illegal offset type " ++ type
  | .emptyIndex => "Cannot use [] for reading"
  | .illegalOffset type container =>
      "Cannot access offset of type " ++ type ++ " on "
        ++ match container with
          | .array => "array"
          | .string => "string"
  | .undefinedKey key => "Undefined array key " ++ key.render
  | .stringOffset offset => "Uninitialized string offset " ++ intText offset
  | .objectAsArray owner => "Cannot use object of type " ++ owner ++ " as array"
  | .noClassScope name => "Cannot use \"" ++ name ++ "\" when no class scope is active"
  | .noParent => "Cannot use \"parent\" when current class scope has no parent"
  | .lateStaticBinding => "\"static::\" is not allowed in compile-time constants"
  | .propertyOfNonObject property type =>
      "Attempt to read property \"" ++ property ++ "\" on " ++ type
  | .undefinedProperty owner property => "Undefined property: " ++ owner ++ "::$" ++ property

end StaticReflection
