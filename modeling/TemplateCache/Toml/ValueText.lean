import TemplateCache.Toml.Value

/-!
# The text of a value

One canonical line of TOML for every value. A string takes the first of five forms that can hold
it, from plain quotes to quotes with escapes; a key is bare where it may be. Arrays and tables
are written on one line. A date-time that stands alone is written as the one-entry table that
stands for a date-time in data without one.
-/

namespace TemplateCache.Toml

/-! ## Strings -/

/-- A control character, with a line end counted as one. -/
def isControl (c : Char) : Bool := (c.toNat < 0x20 && c != '\t') || c == '\x7F'

/-- A control character other than a line end. -/
def isHardControl (c : Char) : Bool := isControl c && c != '\n'

/-- Whether a character stands three times in a row, when it has just stood `run` times. -/
def hasTriple (mark : Char) : Nat → List Char → Bool
  | _, [] => false
  | run, c :: rest =>
      if c = mark then run == 2 || hasTriple mark (run + 1) rest else hasTriple mark 0 rest

/-- Four upper-case hexadecimal digits of a control character. -/
def controlNumber (n : Nat) : List Char :=
  ['0', '0', (Nat.digitChar (n / 16)).toUpper, (Nat.digitChar (n % 16)).toUpper]

/-- A character between quotes that is neither a quote nor a line end. -/
def escapeOther (c : Char) : List Char :=
  if c = '\x08' then ['\\', 'b']
  else if c = '\t' then ['\\', 't']
  else if c = '\x0C' then ['\\', 'f']
  else if c = '\r' then ['\\', 'r']
  else if c = '\\' then ['\\', '\\']
  else if isControl c then '\\' :: 'u' :: controlNumber c.toNat
  else [c]

/-- A character between single-line quotes. -/
def escapeInline (c : Char) : List Char :=
  if c = '"' then ['\\', '"'] else if c = '\n' then ['\\', 'n'] else escapeOther c

/-- Text between multi-line quotes, after `run` quotes in a row: every third one is escaped. -/
def escapeMultiline : Nat → List Char → List Char
  | _, [] => []
  | run, c :: rest =>
      if c = '"' then
        if run = 2 then '\\' :: '"' :: escapeMultiline 0 rest
        else '"' :: escapeMultiline (run + 1) rest
      else if c = '\n' then '\n' :: escapeMultiline 0 rest
      else escapeOther c ++ escapeMultiline 0 rest

/-- Text in single-line quotes. -/
def inlineQuoted (s : List Char) : List Char := '"' :: s.flatMap escapeInline ++ ['"']

/-- Text between apostrophes, as it is. -/
def inlineLiteral (s : List Char) : List Char := '\'' :: s ++ ['\'']

/-- A line end after the opening quotes of a text that has one. -/
def lineStart (s : List Char) : List Char := if s.contains '\n' then ['\n'] else []

/-- Text in multi-line quotes. -/
def multilineQuoted (s : List Char) : List Char :=
  "\"\"\"".toList ++ lineStart s ++ escapeMultiline 0 s ++ "\"\"\"".toList

/-- Text between three apostrophes, as it is. -/
def multilineLiteral (s : List Char) : List Char :=
  "'''".toList ++ lineStart s ++ s ++ "'''".toList

/-- The first form that can hold a text. -/
def stringText (s : List Char) : List Char :=
  let hard := s.any isHardControl
  if !hard && !s.contains '\n' && !s.contains '\\' && !s.contains '"' then inlineQuoted s
  else if !hard && !s.contains '\n' && !s.contains '\'' then inlineLiteral s
  else if !hard && !s.contains '\\' && !hasTriple '"' 0 s then multilineQuoted s
  else if !hard && !hasTriple '\'' 0 s then multilineLiteral s
  else if s.contains '\n' then multilineQuoted s
  else inlineQuoted s

/-! ## Keys -/

/-- The characters of a key without quotes. -/
def isBareKeyChar (c : Char) : Bool :=
  ('a' ≤ c && c ≤ 'z') || ('A' ≤ c && c ≤ 'Z') || c.isDigit || c == '_' || c == '-'

/-- A key: bare, quoted, literal or escaped, the first that can hold it. -/
def keyText (key : List Char) : List Char :=
  if !key.isEmpty && key.all isBareKeyChar then key
  else if !key.any isControl && !key.contains '\\' && !key.contains '"' then inlineQuoted key
  else if !key.any isControl && !key.contains '\'' then inlineLiteral key
  else inlineQuoted key

/-! ## Values -/

/-- The key of the one-entry table that stands for a date-time. -/
def datetimeKey : String := "$__toml_private_datetime"

/-- A floating-point number; every NaN is written alike. -/
def floatText (f : Binary64) : List Char :=
  if f.isNaN then "nan".toList
  else if f.isInfinite then Decimal.infiniteText f
  else Decimal.finiteText f

def booleanText (b : Bool) : List Char := if b then "true".toList else "false".toList

/-- A scalar inside an array or a table. -/
def Scalar.text : Scalar → List Char
  | .string s => stringText s.toList
  | .integer n => Decimal.signed n.toInt
  | .float f => floatText f
  | .boolean b => booleanText b
  | .datetime d => d.text

mutual

/-- A value inside an array or a table. -/
def Value.text : Value → List Char
  | .scalar s => s.text
  | .array [] => "[]".toList
  | .array (item :: items) => '[' :: item.text ++ itemsText items
  | .table [] => ['{', '}']
  | .table ((key, value) :: entries) =>
      ['{', ' '] ++ keyText key.toList ++ " = ".toList ++ value.text ++ entriesText entries

/-- The rest of an array. -/
def itemsText : List Value → List Char
  | [] => [']']
  | item :: items => ", ".toList ++ item.text ++ itemsText items

/-- The rest of a table. -/
def entriesText : List (String × Value) → List Char
  | [] => [' ', '}']
  | (key, value) :: entries =>
      ", ".toList ++ keyText key.toList ++ " = ".toList ++ value.text ++ entriesText entries

end

/-- A value that stands alone. -/
def Value.standaloneText : Value → List Char
  | .scalar (.datetime d) =>
      ['{', ' '] ++ keyText datetimeKey.toList ++ " = ".toList ++ stringText d.text ++ [' ', '}']
  | v => v.text

end TemplateCache.Toml
