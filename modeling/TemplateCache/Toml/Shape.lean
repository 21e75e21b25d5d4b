import TemplateCache.Text.Quoted
import TemplateCache.Toml.Document
import TemplateCache.Toml.Read.Datetime
import TemplateCache.Toml.ValueText

/-!
# The shape of a document

What a document holds where a program expected something else, and the report of it: the line,
marks under the value, and what was found. Also the plain value of an item, where a table with
one particular key stands for a date-time, as data without date-times writes it.
-/

namespace TemplateCache.Toml

/-! ## Mismatches -/

/-- How an item strikes a reader who expected something else. -/
inductive Found where
  | integer (n : Int64)
  | float (f : Binary64)
  | boolean (b : Bool)
  | string (s : String)
  | sequence
  | map

/-- Why an item cannot be what was expected. -/
inductive Mismatch where
  | kind (found : Found) (expected : String)
  | length (n : Nat) (expected : String)
  /-- A table that stands for a date-time holds no text of one. -/
  | datetime

/-- A mismatch and where it stands. -/
structure Misfit where
  span : Span
  mismatch : Mismatch

/-- A floating-point number as messages show it. -/
def shownFloat (f : Binary64) : List Char :=
  if f.isNaN then "NaN".toList
  else if f.isInfinite then Decimal.infiniteText f
  else Decimal.finiteText f

def Found.text : Found → List Char
  | .integer n => "integer `".toList ++ Decimal.signed n.toInt ++ ['`']
  | .float f => "floating point `".toList ++ shownFloat f ++ ['`']
  | .boolean b => "boolean `".toList ++ booleanText b ++ ['`']
  | .string s => "string ".toList ++ Quoted.text s.toList
  | .sequence => "sequence".toList
  | .map => "map".toList

def Mismatch.text : Mismatch → List Char
  | .kind found expected =>
      "invalid type: ".toList ++ found.text ++ ", expected ".toList ++ expected.toList
  | .length n expected =>
      "invalid length ".toList ++ Decimal.digits n ++ ", expected ".toList ++ expected.toList
  | .datetime => "failed to parse datetime".toList

/-- A date-time is taken for the table that stands for it. -/
def Scalar.found : Scalar → Found
  | .integer n => .integer n
  | .float f => .float f
  | .boolean b => .boolean b
  | .string s => .string s
  | .datetime _ => .map

def Item.found : Item → Found
  | .scalar s _ => s.found
  | .array _ _ => .sequence
  | .tables _ => .sequence
  | .braced _ _ => .map
  | .table _ _ _ => .map

/-- The items of an array in either form. -/
def Item.elements? : Item → Option (List Item)
  | .array items _ => some items
  | .tables elements => some elements
  | _ => none

/-- The entries of a table in any form. -/
def Item.entries? : Item → Option Entries
  | .braced entries _ => some entries
  | .table _ _ entries => some entries
  | _ => none

/-- Where an item under a key stands: at the item, or at the key if that is all there is. -/
def Item.place (key : Key) (item : Item) : Span := item.span?.getD key.span

/-! ## Reports -/

/-- The number of bytes of a text. -/
def byteLength (text : List Char) : Nat := (Utf8.encode text).length

/-- The report of a mismatch: line and column, the line itself, marks under the value up to the
end of the line, and what is wrong. -/
def report (text : List Char) (misfit : Misfit) : List Char :=
  let position := text.length - misfit.span.start
  let before := text.take position
  let rest := text.drop position
  let line := Decimal.digits (before.count '\n' + 1)
  let onLine := (before.reverse.takeWhile (· != '\n')).reverse
  let content := onLine ++ rest.takeWhile (· != '\n')
  let size := byteLength (rest.take (misfit.span.start - misfit.span.stop))
  let marks := max 1 (min size (byteLength content - onLine.length))
  let gutter := List.replicate line.length ' '
  "TOML parse error at line ".toList ++ line ++ ", column ".toList
    ++ Decimal.digits (onLine.length + 1) ++ ['\n']
    ++ gutter ++ " |\n".toList
    ++ line ++ " | ".toList ++ content ++ ['\n']
    ++ gutter ++ " | ".toList ++ List.replicate onLine.length ' ' ++ List.replicate marks '^'
    ++ ['\n'] ++ misfit.mismatch.text ++ ['\n']

/-! ## Plain values -/

/-- The date-time that the text under the date-time key says. -/
def markedDatetime : Item → Except Mismatch Datetime
  | .scalar (.string s) _ =>
      match Datetime.ofText? s.toList with
      | some d => .ok d
      | none => .error .datetime
  | item => .error (.kind item.found "string containing a datetime")

/-- The value of a table whose first key is the date-time key: that key must be its only one. -/
def marked? : Entries → Option (Except Mismatch Value)
  | [] => none
  | (key, item) :: rest =>
      if key.text = datetimeKey then
        some do
          let d ← markedDatetime item
          if rest.isEmpty then .ok (.scalar (.datetime d))
          else .error (.length (rest.length + 1) "1 element in map")
      else none

mutual

/-- The plain value of an item. -/
def Item.value : Item → Except Mismatch Value
  | .scalar s _ => .ok (.scalar s)
  | .array items _ => (itemValues items).map .array
  | .tables elements => (itemValues elements).map .array
  | .braced entries _ =>
      match marked? entries with
      | some answer => answer
      | none => (entryValues entries).map fun pairs => .table (Table.ofList pairs)
  | .table _ _ entries =>
      match marked? entries with
      | some answer => answer
      | none => (entryValues entries).map fun pairs => .table (Table.ofList pairs)

def itemValues : List Item → Except Mismatch (List Value)
  | [] => .ok []
  | item :: rest => do
      let value ← item.value
      let values ← itemValues rest
      return value :: values

def entryValues : List (Key × Item) → Except Mismatch (List (String × Value))
  | [] => .ok []
  | (key, item) :: rest => do
      let value ← item.value
      let pairs ← entryValues rest
      return (key.text, value) :: pairs

end

/-- Whether the first key of a table is the date-time key; then whether its text is that of a
date-time. -/
def markReadable? : Entries → Option Bool
  | [] => none
  | (key, item) :: _ =>
      if key.text = datetimeKey then
        some (match markedDatetime item with | .ok _ => true | .error _ => false)
      else none

mutual

/-- Whether every table in an item that stands for a date-time has the text of one. -/
def Item.marksReadable : Item → Bool
  | .scalar _ _ => true
  | .array items _ => itemsReadable items
  | .tables elements => itemsReadable elements
  | .braced entries _ => (markReadable? entries).getD (entriesReadable entries)
  | .table _ _ entries => (markReadable? entries).getD (entriesReadable entries)

def itemsReadable : List Item → Bool
  | [] => true
  | item :: rest => item.marksReadable && itemsReadable rest

def entriesReadable : List (Key × Item) → Bool
  | [] => true
  | (_, item) :: rest => item.marksReadable && entriesReadable rest

end

/-- Whether a document can be read as plain data at all: the top of a document stands for no
date-time, any other table may. -/
def Document.readable (d : Document) : Bool := entriesReadable d.entries

end TemplateCache.Toml
