import StaticReflection.Value.Basic

namespace StaticReflection

/-! Constants that exist without a declaration. -/

/-- The values of `true`, `false` and `null`, in any case. -/
def literalConstant? (name : String) : Option Value :=
  match foldCase name with
  | "true" => some (.bool true)
  | "false" => some (.bool false)
  | "null" => some .null
  | _ => none

/-- The predefined constants that are doubles, by their bits. -/
def predefinedFloats : List (String × UInt64) :=
  [("PHP_FLOAT_EPSILON", 0x3CB0000000000000), ("PHP_FLOAT_MAX", 0x7FEFFFFFFFFFFFFF),
    ("PHP_FLOAT_MIN", 0x0010000000000000), ("NAN", 0x7FF8000000000000),
    ("INF", 0x7FF0000000000000), ("M_PI", 0x400921FB54442D18), ("M_E", 0x4005BF0A8B145769),
    ("M_SQRT2", 0x3FF6A09E667F3BCD), ("M_LN2", 0x3FE62E42FEFA39EF),
    ("M_LN10", 0x40026BB1BBB55516)]

def predefinedInts : List (String × Int) :=
  [("PHP_INT_MAX", 9223372036854775807), ("PHP_INT_MIN", -9223372036854775808),
    ("PHP_INT_SIZE", 8), ("PHP_FLOAT_DIG", 15), ("PHP_MAJOR_VERSION", 8),
    ("PHP_MINOR_VERSION", 3), ("PHP_RELEASE_VERSION", 0), ("PHP_VERSION_ID", 80300),
    ("PHP_MAXPATHLEN", 4096),
    ("E_ERROR", 1), ("E_WARNING", 2), ("E_PARSE", 4), ("E_NOTICE", 8), ("E_CORE_ERROR", 16),
    ("E_CORE_WARNING", 32), ("E_COMPILE_ERROR", 64), ("E_COMPILE_WARNING", 128),
    ("E_USER_ERROR", 256), ("E_USER_WARNING", 512), ("E_USER_NOTICE", 1024),
    ("E_STRICT", 2048), ("E_RECOVERABLE_ERROR", 4096), ("E_DEPRECATED", 8192),
    ("E_USER_DEPRECATED", 16384), ("E_ALL", 32767),
    ("SORT_REGULAR", 0), ("SORT_NUMERIC", 1), ("SORT_STRING", 2), ("SORT_LOCALE_STRING", 5),
    ("SORT_NATURAL", 6), ("SORT_FLAG_CASE", 8), ("SORT_ASC", 4), ("SORT_DESC", 3),
    ("COUNT_NORMAL", 0), ("COUNT_RECURSIVE", 1),
    ("STR_PAD_LEFT", 0), ("STR_PAD_RIGHT", 1), ("STR_PAD_BOTH", 2),
    ("ENT_QUOTES", 3), ("ENT_HTML5", 48),
    ("JSON_HEX_TAG", 1), ("JSON_HEX_QUOT", 8), ("JSON_PRETTY_PRINT", 128),
    ("JSON_UNESCAPED_SLASHES", 64), ("JSON_UNESCAPED_UNICODE", 256),
    ("JSON_PRESERVE_ZERO_FRACTION", 1024), ("JSON_THROW_ON_ERROR", 4194304),
    ("ARRAY_FILTER_USE_BOTH", 1), ("ARRAY_FILTER_USE_KEY", 2), ("PREG_SPLIT_NO_EMPTY", 1),
    ("LC_ALL", 6)]

/-- The predefined constants that are strings. Two of them follow the directory
separator. -/
def predefinedTexts (separator : Char) : List (String × String) :=
  [("PHP_EOL", "\n"), ("PHP_VERSION", "8.3.0"), ("PHP_OS", "Linux"),
    ("PHP_OS_FAMILY", "Linux"), ("DIRECTORY_SEPARATOR", separator.toString),
    ("PATH_SEPARATOR", if separator = '\\' then ";" else ":")]

/-- The value of a predefined constant; case counts. -/
def predefinedConstant? (separator : Char) (name : String) : Option Value :=
  ((predefinedInts.lookup name).map fun i => .int (Int64.ofInt i))
    <|> ((predefinedFloats.lookup name).map fun bits => .float (Float.ofBits bits))
    <|> (((predefinedTexts separator).lookup name).map .text)

end StaticReflection
