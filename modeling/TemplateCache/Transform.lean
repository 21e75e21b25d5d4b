import TemplateCache.Error.Compile
import TemplateCache.Options.Basic

/-!
# Transforms

A transform turns the bytes of a template into those of an artifact, or refuses. Its fingerprint
is part of every artifact's name, so transforms that differ must have different fingerprints.
-/

namespace TemplateCache

structure Transform where
  /-- The name of the transform and its version. -/
  fingerprint : String
  /-- What becomes of a template. -/
  apply : Bytes → Options → Except CompileError Bytes

namespace Transform

/-- Copies the template. -/
def identity : Transform := ⟨"identity/1", fun source _ => .ok source⟩

/-- Writes the template's small Latin letters as capitals. -/
def upper : Transform := ⟨"upper/1", fun source _ => .ok source.upper⟩

/-- The text that the `layout` option names. -/
def layout (o : Options) : String :=
  match o.extra.get? "layout" with
  | some (.scalar (.string text)) => text
  | _ => "none"

/-- Puts the name of the layout in brackets before the template. -/
def wrap : Transform :=
  ⟨"wrap/1", fun source o => .ok (Utf8.encode ('[' :: (layout o).toList ++ [']']) ++ source)⟩

/-- Refuses every template. -/
def reject : Transform := ⟨"reject/1", fun _ _ => .error (.rejected "unsupported")⟩

end Transform

end TemplateCache
