import TemplateCache.Path.Basic
import TemplateCache.Toml.ValueText

/-!
# Options of a compilation

Options name a destination directory and carry any number of extra values under keys of the
caller's choice. The extra values are for the transform, and their canonical text, one line of
`key=value` for each key in order, is the options' part of an artifact's name.
-/

namespace TemplateCache

structure Options where
  /-- Where the artifact goes instead of the default directory. -/
  destination : Option Path
  /-- What a transform may read. -/
  extra : Toml.Table

namespace Options

/-- No destination and no extra values. -/
def none : Options := ⟨.none, []⟩

def withDestination (o : Options) (path : Path) : Options := { o with destination := some path }

/-- A value under a key, in place of the one it had. -/
def withExtra (o : Options) (key : String) (value : Toml.Value) : Options :=
  { o with extra := o.extra.insert key value }

/-- The destination, where an empty path counts as none. -/
def override? (o : Options) : Option Path := o.destination.filter fun path => !path.isEmpty

/-- The line of an extra value. -/
def entryText (key : String) (value : Toml.Value) : List Char :=
  key.toList ++ '=' :: value.standaloneText ++ ['\n']

/-- The canonical text of the extra values. -/
def transformKey (o : Options) : List Char :=
  o.extra.flatMap fun entry => entryText entry.1 entry.2

/-- Two destinations say the same. -/
def sameDestination : Option Path → Option Path → Bool
  | .none, .none => true
  | some p, some q => p.same q
  | _, _ => false

/-- Equality of options: the same destination and equal values under the same keys. -/
def equal (a b : Options) : Bool :=
  sameDestination a.destination b.destination && Toml.Value.entriesEqual a.extra b.extra

end Options

end TemplateCache
