import TemplateCache.Config.Basic
import TemplateCache.Options.Read

/-!
# Reading a configuration

A configuration is a TOML document with up to three tables that count: `resources` with the
entry `root`, `cache` with the entry `subdir`, and `options`. The first two may also be arrays,
whose first item is the entry. Everything else is ignored. Entries are taken in the order of the
document, and the first that does not fit is reported; then the directory of the artifacts is
checked.
-/

namespace TemplateCache.Config

open Toml

/-- The path under one key of a table. -/
def pathIn (name : String) : Entries → Except Misfit (Option Path)
  | [] => .ok .none
  | (key, item) :: rest =>
      if key.text = name then (pathItem (item.place key) item).map some else pathIn name rest

/-- The one path of a section, which is a table or an array. A date-time is taken for a table
without the entry. -/
def sectionPath (expected : String) (name : String) (key : Key) (item : Item) :
    Except Misfit (Option Path) :=
  match item with
  | .braced entries _ => pathIn name entries
  | .table _ _ entries => pathIn name entries
  | .array (first :: _) _ => (pathItem (first.place key) first).map some
  | .tables (first :: _) => (pathItem (first.place key) first).map some
  | .array [] _ => .ok .none
  | .tables [] => .ok .none
  | .scalar (.datetime _) _ => .ok .none
  | _ => .error ⟨item.place key, .kind item.found expected⟩

/-- Whether an item is an array without items. -/
def isEmptyArray : Item → Bool
  | .array [] _ => true
  | .tables [] => true
  | _ => false

/-- The resources root of a `resources` section; an array must have it. -/
def rootOf (key : Key) (item : Item) : Except Misfit (Option Path) :=
  if isEmptyArray item then
    .error ⟨item.place key, .length 0 "struct ResourcesConfig with 1 element"⟩
  else sectionPath "struct ResourcesConfig" "root" key item

/-- The directory of a `cache` section, or the usual one. -/
def subdirOf (key : Key) (item : Item) : Except Misfit Path :=
  (sectionPath "struct CacheConfig" "subdir" key item).map fun path => path.getD defaultSubdir

/-- A configuration with what one entry of a document says. -/
def withEntry (c : Config) (key : Key) (item : Item) : Except Misfit Config :=
  if key.text = "resources" then (rootOf key item).map fun root => { c with root }
  else if key.text = "cache" then (subdirOf key item).map fun subdir => { c with subdir }
  else if key.text = "options" then
    (Options.ofItem key item).map fun options => { c with options }
  else .ok c

/-- The configuration that entries make of another. -/
def withEntries : Entries → Config → Except Misfit Config
  | [], c => .ok c
  | (key, item) :: rest, c => (withEntry c key item).bind (withEntries rest)

/-- The configuration that a document is, by its shape. -/
def ofDocument (d : Document) : Except Misfit Config := withEntries d.entries .none

/-! ## Checks -/

/-- The text about the directory of the artifacts. -/
def subdirText (c : Config) (what : String) : String :=
  String.ofList ("cache.subdir `".toList ++ c.subdir.shown ++ "` ".toList ++ what.toList)

/-- The directory of the artifacts stays inside the root. -/
def check (c : Config) : Except ConfigError Config :=
  if c.subdir.isEmpty then .error (.missingField "cache.subdir")
  else if c.subdir.isAbsolute then .error (.invalid (c.subdirText "must be relative"))
  else if c.subdir.components.contains .up then
    .error (.invalid (c.subdirText "must not leave the resources root"))
  else .ok c

/-- The configuration that a text is. -/
def ofText (text : List Char) : Except ConfigError Config :=
  match readDocument ofDocument text with
  | .ok c => c.check
  | .error e => .error e.toConfigError

end TemplateCache.Config
