import TemplateCache.Toml.Document
import TemplateCache.Toml.Read.Blank
import TemplateCache.Toml.Read.Datetime
import TemplateCache.Toml.Read.Number

/-!
# Reading keys and values

A key is bare or quoted, and dotted keys join several. A value is a scalar, an array between
brackets or a table between braces; arrays and tables may hold each other up to a fixed depth,
which also makes the recursion end.
-/

namespace TemplateCache.Toml.Read

/-- Arrays and braced tables inside each other are fewer than this many, and so are the parts of
a key. -/
def depthLimit : Nat := 80

/-! ## Keys -/

def isBareKeyChar (c : Char) : Bool :=
  ('a' ≤ c && c ≤ 'z') || ('A' ≤ c && c ≤ 'Z') || c.isDigit || c == '_' || c == '-'

/-- The text of one part of a key, and what follows it. -/
def keyPart? : List Char → Option (List Char × List Char)
  | '"' :: rest => basic rest
  | '\'' :: rest => literal rest
  | text =>
      let part := text.takeWhile isBareKeyChar
      if part = [] then none else some (part, text.dropWhile isBareKeyChar)

/-- One part of a key, and what follows it. -/
def key? (text : List Char) : Option (Key × List Char) :=
  (keyPart? text).map fun (part, rest) =>
    (⟨String.ofList part, ⟨text.length, rest.length⟩⟩, rest)

/-- The parts of a dotted key, with blanks around each; `fuel` bounds their number. -/
def keyParts? : Nat → List Char → Option (List Key × List Char)
  | 0, _ => none
  | fuel + 1, text => do
      let (key, rest) ← key? (skipBlanks text)
      match skipBlanks rest with
      | '.' :: more =>
          let (keys, rest) ← keyParts? fuel more
          return (key :: keys, rest)
      | rest => return ([key], rest)

/-- A dotted key: the parts before the last, the last, and what follows. -/
def dottedKey? (text : List Char) : Option (List Key × Key × List Char) := do
  let (keys, rest) ← keyParts? (depthLimit - 1) text
  let last ← keys.getLast?
  return (keys.dropLast, last, rest)

/-! ## Values -/

/-- A word that stands first, and what follows it. -/
def word? (word text : List Char) : Option (List Char) :=
  if word.isPrefixOf text then some (text.drop word.length) else none

/-- A scalar and what follows it. -/
def scalar? (text : List Char) : Option (Scalar × List Char) :=
  match text with
  | [] => none
  | c :: _ =>
      if c = '"' ∨ c = '\'' then
        (string? text).map fun r => (.string (String.ofList r.1), r.2)
      else if c = 't' then (word? "true".toList text).map fun rest => (.boolean true, rest)
      else if c = 'f' then (word? "false".toList text).map fun rest => (.boolean false, rest)
      else
        match Datetime.announced text with
        | .date => (Datetime.dated? text).map fun r => (.datetime r.1, r.2)
        | .time => (Datetime.timed? text).map fun r => (.datetime r.1, r.2)
        | .neither => number? text

/-- The rest of an array whose items `item` reads: items, each followed by a comma or the closing
bracket. -/
def arrayItems? (item : List Char → Option (Item × List Char)) :
    Nat → List Char → Option (List Item × List Char)
  | 0, _ => none
  | fuel + 1, text =>
      match skipSpace text with
      | ']' :: rest => some ([], rest)
      | text => do
          let (first, rest) ← item text
          match skipSpace rest with
          | ']' :: rest => return ([first], rest)
          | ',' :: rest =>
              let (items, rest) ← arrayItems? item fuel rest
              return (first :: items, rest)
          | _ => none

/-- A key with its value, read by `item`. -/
def pair? (item : List Char → Option (Item × List Char)) (text : List Char) :
    Option (List Key × Key × Item × List Char) := do
  let (path, key, rest) ← dottedKey? text
  match rest with
  | '=' :: rest =>
      let (value, rest) ← item (skipBlanks rest)
      return (path, key, value, rest)
  | _ => none

/-- The rest of a braced table that holds some entries: pairs with commas between them. -/
def bracedEntries? (item : List Char → Option (Item × List Char)) :
    Nat → Entries → List Char → Option (Entries × List Char)
  | 0, _, _ => none
  | fuel + 1, entries, text => do
      let (path, key, value, rest) ← pair? item text
      let entries ← entries.add path key value
      match skipBlanks rest with
      | '}' :: rest => return (entries, rest)
      | ',' :: rest => bracedEntries? item fuel entries rest
      | _ => none

/-- A braced table after its opening brace. -/
def braced? (item : List Char → Option (Item × List Char)) (text : List Char) :
    Option (Entries × List Char) :=
  match skipBlanks text with
  | '}' :: rest => some ([], rest)
  | text => bracedEntries? item (text.length + 1) [] text

/-- A value and what follows it; `depth` is how many arrays and tables may still be opened. -/
def item? : Nat → List Char → Option (Item × List Char)
  | depth, text =>
      match text with
      | '[' :: rest =>
          match depth with
          | 0 => none
          | depth + 1 =>
              (arrayItems? (item? depth) (rest.length + 1) rest).map fun r =>
                (.array r.1 ⟨text.length, r.2.length⟩, r.2)
      | '{' :: rest =>
          match depth with
          | 0 => none
          | depth + 1 =>
              (braced? (item? depth) rest).map fun r =>
                (.braced r.1 ⟨text.length, r.2.length⟩, r.2)
      | _ => (scalar? text).map fun r => (.scalar r.1 ⟨text.length, r.2.length⟩, r.2)

/-- A value at the top of a statement. -/
def value? (text : List Char) : Option (Item × List Char) := item? (depthLimit - 1) text

end TemplateCache.Toml.Read
