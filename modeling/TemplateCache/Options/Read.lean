import TemplateCache.Error.Config
import TemplateCache.Options.Basic
import TemplateCache.Toml.Read.Document
import TemplateCache.Toml.Shape

/-!
# Options from a document

The entry `path` of a table names the destination and must be a string; every other entry is an
extra value. A wrong `path` is found before a wrong extra value, wherever they stand.
-/

namespace TemplateCache

open Toml

/-- Why a text could not be read: it is no document, or one of the wrong shape. -/
inductive ReadError where
  | malformed
  | misshapen (report : String)
  deriving DecidableEq

/-- As an error of the configuration. -/
def ReadError.toConfigError : ReadError → ConfigError
  | .malformed => .malformed
  | .misshapen report => .misshapen report

/-- What is read from a document, or the error with its report. -/
def readDocument {α : Type} (read : Document → Except Misfit α) (text : List Char) :
    Except ReadError α :=
  match Document.ofText? text with
  | none => .error .malformed
  | some document =>
      match read document with
      | .ok a => .ok a
      | .error misfit =>
          if document.readable then .error (.misshapen (String.ofList (report text misfit)))
          else .error .malformed

/-- The path that an item must be. -/
def pathItem (place : Span) : Item → Except Misfit Path
  | .scalar (.string s) _ => .ok (Path.ofString s)
  | item => .error ⟨place, .kind item.found "path string"⟩

namespace Options

/-- The destination among the entries of a table. -/
def destinationOf : Entries → Except Misfit (Option Path)
  | [] => .ok .none
  | (key, item) :: rest =>
      if key.text = "path" then (pathItem (item.place key) item).map some
      else destinationOf rest

/-- The options that the entries of a table are; what is wrong with an extra value is reported at
the table. -/
def ofEntries (place : Span) (entries : Entries) : Except Misfit Options := do
  let destination ← destinationOf entries
  match entryValues (entries.filter fun entry => entry.1.text != "path") with
  | .ok pairs => return ⟨destination, Table.ofList pairs⟩
  | .error mismatch => throw ⟨place, mismatch⟩

/-- The options that an item under a key is. A date-time is taken for the table that stands for
it. -/
def ofItem (key : Key) (item : Item) : Except Misfit Options :=
  match item with
  | .braced entries _ => ofEntries (item.place key) entries
  | .table _ _ entries => ofEntries (item.place key) entries
  | .scalar (.datetime d) _ =>
      .ok (none.withExtra datetimeKey (.scalar (.string (String.ofList d.text))))
  | _ => .error ⟨item.place key, .kind item.found "struct CompileOptions"⟩

/-- The options that a whole document is. -/
def ofDocument (d : Document) : Except Misfit Options := ofEntries d.span d.entries

/-- The options that a text is. -/
def ofText (text : List Char) : Except ReadError Options := readDocument ofDocument text

end Options

end TemplateCache
