import TemplateCache.Toml.Read.Item

/-!
# Reading documents

A document is a sequence of statements: keys with values, and headers, which open a table for
the pairs that follow. A statement ends with its line. Main definition: `Document.ofText?`, which
answers nothing for a text that is no TOML document.
-/

namespace TemplateCache.Toml.Read

/-- A header after its opening bracket or brackets: the key, and what follows the brackets. -/
def headerKey? (brackets : List Char) (text : List Char) :
    Option (List Key × Key × List Char) := do
  let (path, key, rest) ← dottedKey? text
  let rest ← word? brackets rest
  return (path, key, rest)

/-- A statement that starts with a bracket. -/
def header? (d : Draft) (text : List Char) : Option (Draft × List Char) :=
  match text with
  | '[' :: '[' :: rest => do
      let (path, key, rest) ← headerKey? "]]".toList rest
      let d ← d.header true path key ⟨text.length, rest.length⟩
      return (d, ← finishLine? rest)
  | '[' :: rest => do
      let (path, key, rest) ← headerKey? "]".toList rest
      let d ← d.header false path key ⟨text.length, rest.length⟩
      return (d, ← finishLine? rest)
  | _ => none

/-- A key with its value, up to the end of the line. -/
def pairLine? (d : Draft) (text : List Char) : Option (Draft × List Char) := do
  let (path, key, item, rest) ← pair? value? text
  let d ← d.pair path key item rest.length
  return (d, ← finishLine? rest)

/-- A line that is not blank at its start, up to its end. -/
def statement? (d : Draft) (text : List Char) : Option (Draft × List Char) :=
  match text with
  | '[' :: _ => header? d text
  | '#' :: _ => (finishLine? text).map fun rest => (d, rest)
  | '\n' :: rest => some (d, rest)
  | '\r' :: _ => (lineEnd? text).map fun rest => (d, rest)
  | _ => pairLine? d text

/-- The draft after all statements; `fuel` bounds their number. -/
def statements? : Nat → Draft → List Char → Option Draft
  | 0, _, _ => none
  | fuel + 1, d, text =>
      match skipBlanks text with
      | [] => some d
      | text => do
          let (d, rest) ← statement? d text
          statements? fuel d rest

/-- What follows a byte order mark, if one stands first. -/
def dropMark : List Char → List Char
  | '\uFEFF' :: rest => rest
  | text => text

end TemplateCache.Toml.Read

namespace TemplateCache.Toml

/-- The document that a text is, if it is one. -/
def Document.ofText? (text : List Char) : Option Document := do
  let d ← Read.statements? (text.length + 1) (.start text.length) (Read.dropMark text)
  d.finish text

end TemplateCache.Toml
