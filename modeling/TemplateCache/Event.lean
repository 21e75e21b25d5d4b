import TemplateCache.Error.Compile

/-!
# Events

What a compilation tells an observer while it goes on, from the finest to the gravest level.
-/

namespace TemplateCache

inductive Level where
  | trace
  | debug
  | info
  | warn
  deriving DecidableEq

inductive Event where
  /-- The default directory was found. -/
  | foundDefault (dir : Path)
  /-- The artifact was there already. -/
  | hit (source artifact : Path)
  /-- The artifact has to be made. -/
  | miss (source dir : Path)
  /-- The artifact was written, with so many bytes. -/
  | wrote (artifact : Path) (bytes : Nat)
  /-- So many expired artifacts were removed. -/
  | pruned (removed : Nat)
  /-- Expired artifacts could not be removed. -/
  | pruneFailed (error : CompileError)
  /-- The time of the source is not known, so nothing was removed. -/
  | timeUnknown (cause : SystemError)
  deriving DecidableEq

namespace Event

def level : Event → Level
  | .foundDefault _ => .trace
  | .hit _ _ => .debug
  | .miss _ _ => .debug
  | .wrote _ _ => .info
  | .pruned _ => .debug
  | .pruneFailed _ => .warn
  | .timeUnknown _ => .debug

def message : Event → String
  | .foundDefault _ => "resolved default cache directory"
  | .hit _ _ => "template cache hit"
  | .miss _ _ => "template cache miss"
  | .wrote _ _ => "wrote compiled template"
  | .pruned _ => "pruned expired templates"
  | .pruneFailed _ => "failed to prune expired templates"
  | .timeUnknown _ => "source mtime unavailable, skipping prune"

end Event

end TemplateCache
