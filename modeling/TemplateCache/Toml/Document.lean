import TemplateCache.Toml.Value

/-!
# Documents

A document as it was written: the tables and values with their keys in the order of the text, and
where each of them stands. Tables come about in four ways, which decides what may still be added
to them: by a header, by the beginning of a longer header, by a dotted key, and between braces.

A place is counted from the end of the text, in characters, since a reader holds what is left
and not what it has passed.
-/

namespace TemplateCache.Toml

/-- A piece of the text: how much is left at its first character, and how much after it. -/
structure Span where
  start : Nat
  stop : Nat
  deriving DecidableEq, Repr

structure Key where
  text : String
  span : Span
  deriving DecidableEq

/-- How a table came about that is not between braces. -/
inductive TableKind where
  /-- By a header of its own. -/
  | stated
  /-- As the beginning of a longer header. -/
  | implied
  /-- By a dotted key. -/
  | dotted
  deriving DecidableEq, Repr

/-- What stands under a key. -/
inductive Item where
  | scalar (s : Scalar) (span : Span)
  | array (items : List Item) (span : Span)
  | braced (entries : List (Key × Item)) (span : Span)
  /-- A table made by a header has the span of its statements. -/
  | table (kind : TableKind) (span : Option Span) (entries : List (Key × Item))
  /-- Tables under headers in double brackets, one for each header. -/
  | tables (elements : List Item)

/-- Keys with what stands under them, in the order of the text, each key once. -/
abbrev Entries := List (Key × Item)

/-- A whole document: its text, its entries, and the span of the entries before any header. -/
structure Document where
  text : List Char
  entries : Entries
  span : Span

/-- Where an item stands, unless its key is all that there is of it. -/
def Item.span? : Item → Option Span
  | .scalar _ span => some span
  | .array _ span => some span
  | .braced _ span => some span
  | .table _ span _ => span
  | .tables elements =>
      match elements.head?, elements.getLast? with
      | some (.table _ (some first) _), some (.table _ (some last) _) =>
          some ⟨first.start, last.stop⟩
      | _, _ => none

namespace Entries

/-- What stands under a key. -/
def get? (name : String) : Entries → Option Item
  | [] => none
  | (key, item) :: rest => if key.text = name then some item else get? name rest

/-- The entries with something else under a key that is there. -/
def set (name : String) (item : Item) : Entries → Entries
  | [] => []
  | (key, old) :: rest =>
      if key.text = name then (key, item) :: rest else (key, old) :: set name item rest

/-- The entries without a key. -/
def erase (name : String) (entries : Entries) : Entries :=
  entries.filter fun entry => entry.1.text != name

/-- Edits the table that a path leads to. Tables that are missing on the way are made. A dotted
key may not pass a table that has a header of its own; of tables under double brackets a path
leads to the last. The edit is told whether the table was made by a dotted key. -/
def reach {α : Type} (dotted : Bool) (edit : Bool → Entries → Option (α × Entries)) :
    Bool → List Key → Entries → Option (α × Entries)
  | here, [], entries => edit here entries
  | _, key :: path, entries =>
      match get? key.text entries with
      | none =>
          (reach dotted edit dotted path []).map fun r =>
            (r.1, entries ++ [(key, .table (if dotted then .dotted else .implied) none r.2)])
      | some (.table kind span inner) =>
          if dotted ∧ kind = .stated then none
          else
            (reach dotted edit (kind == .dotted) path inner).map fun r =>
              (r.1, set key.text (.table kind span r.2) entries)
      | some (.tables elements) =>
          match elements.getLast? with
          | some (.table kind span inner) =>
              (reach dotted edit false path inner).map fun r =>
                (r.1, set key.text (.tables (elements.dropLast ++ [.table kind span r.2])) entries)
          | _ => none
      | some _ => none

/-- Adds a value under a dotted key. The key must be new, and the table that holds it must have
been made by dotted keys as well. -/
def add (path : List Key) (key : Key) (item : Item) (entries : Entries) : Option Entries :=
  let edit := fun (isDotted : Bool) (table : Entries) =>
    if isDotted == path.isEmpty ∨ (get? key.text table).isSome then none
    else some ((), table ++ [(key, item)])
  (reach true edit false path entries).map Prod.snd

end Entries

/-! ## Building a document by its statements -/

/-- A document up to some statement: what came before the current table, the current table with
its span, and where it will go. -/
structure Draft where
  before : Entries
  beforeSpan : Span
  current : Entries
  span : Span
  /-- The tables on the way to the current one, and its key; none for the top of the document. -/
  place : Option (List Key × Key)
  /-- Whether the current table is one of several under its key. -/
  oneOfMany : Bool

namespace Draft

/-- The draft of a text of which nothing has been read. -/
def start (length : Nat) : Draft :=
  ⟨[], ⟨length, length⟩, [], ⟨length, length⟩, none, false⟩

/-- Puts a table under its key, which must be free, or behind the others under its key. -/
def settle (oneOfMany : Bool) (key : Key) (table : Item) (entries : Entries) :
    Option (Unit × Entries) :=
  match Entries.get? key.text entries with
  | none => some ((), entries ++ [(key, if oneOfMany then .tables [table] else table)])
  | some (.tables elements) =>
      if oneOfMany then some ((), Entries.set key.text (.tables (elements ++ [table])) entries)
      else none
  | some _ => none

/-- The draft with its current table in place. -/
def close (d : Draft) : Option Draft :=
  match d.place with
  | none => some { d with before := d.current, beforeSpan := d.span, current := [] }
  | some (path, key) =>
      let edit := fun (_ : Bool) entries =>
        settle d.oneOfMany key (.table .stated (some d.span) d.current) entries
      (Entries.reach false edit false path d.before).map fun r =>
        { d with before := r.2, current := [] }

/-- What a header finds under its key: nothing, or a table that was only implied, which moves to
the place of the header with its entries. -/
def claim (key : Key) (entries : Entries) : Option (Entries × Entries) :=
  match Entries.get? key.text entries with
  | none => some ([], entries)
  | some (.table .implied _ inner) => some (inner, Entries.erase key.text entries)
  | some _ => none

/-- What a header in double brackets finds under its key: nothing, or others of its kind. -/
def claimMany (key : Key) (entries : Entries) : Option (Entries × Entries) :=
  match Entries.get? key.text entries with
  | none => some ([], entries ++ [(key, .tables [])])
  | some (.tables _) => some ([], entries)
  | some _ => none

/-- The draft after a header. -/
def header (d : Draft) (oneOfMany : Bool) (path : List Key) (key : Key) (span : Span) :
    Option Draft := do
  let d ← d.close
  let edit := fun (_ : Bool) entries =>
    if oneOfMany then claimMany key entries else claim key entries
  let (inner, before) ← Entries.reach false edit false path d.before
  return { d with before, current := inner, span, place := some (path, key), oneOfMany }

/-- The draft after a key with its value; `stop` is what is left after the value. -/
def pair (d : Draft) (path : List Key) (key : Key) (item : Item) (stop : Nat) : Option Draft := do
  let current ← d.current.add path key item
  return { d with current, span := ⟨d.span.start, stop⟩ }

/-- The document of a text whose statements have all been read. -/
def finish (d : Draft) (text : List Char) : Option Document := do
  let d ← d.close
  return ⟨text, d.before, d.beforeSpan⟩

end Draft

end TemplateCache.Toml
