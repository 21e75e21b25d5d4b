import TemplateCache.Error.Config

/-!
# Errors of a compilation

Why a template could not be compiled. A configuration error passes through unchanged: its text
and cause are its own.
-/

namespace TemplateCache

inductive CompileError where
  /-- The source is missing or cannot be read. -/
  | unreadable (source : Path) (cause : SystemError)
  /-- The directory or the artifact cannot be written. -/
  | unwritable (path : Path) (cause : SystemError)
  /-- The destination cannot be used. -/
  | config (error : ConfigError)
  /-- The transform refused the template. -/
  | rejected (reason : String)
  deriving DecidableEq

namespace CompileError

/-- The text of an error. -/
def message : CompileError → List Char
  | .unreadable source cause =>
      "cannot read template ".toList ++ source.shown ++ ": ".toList ++ cause.message
  | .unwritable path cause =>
      "cannot write compiled template ".toList ++ path.shown ++ ": ".toList ++ cause.message
  | .config error => error.message
  | .rejected reason => "template transform failed: ".toList ++ reason.toList

/-- The system's error behind an error, if there is one. -/
def cause? : CompileError → Option SystemError
  | .unreadable _ cause => some cause
  | .unwritable _ cause => some cause
  | .config error => error.cause?
  | .rejected _ => none

end CompileError

end TemplateCache
