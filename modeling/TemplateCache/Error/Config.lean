import TemplateCache.Error.System

/-!
# Errors of the configuration

Why a configuration could not be read, or why a directory it leads to cannot be used.
-/

namespace TemplateCache

inductive ConfigError where
  /-- The configuration file could not be read. -/
  | unreadable (cause : SystemError)
  /-- The text is no TOML document. -/
  | malformed
  /-- The document does not have the shape of a configuration; the report says where and why. -/
  | misshapen (report : String)
  /-- A value that must be there is missing or empty. -/
  | missingField (field : String)
  /-- A value is not allowed; the text says which and why. -/
  | invalid (text : String)
  /-- Something other than a directory stands where artifacts are to go. -/
  | notDirectory (path : Path)
  /-- The resources root could not be determined. -/
  | noRoot (reason : String)
  deriving DecidableEq

namespace ConfigError

/-- The text of an error. -/
def message : ConfigError → List Char
  | .unreadable cause => "failed to read configuration: ".toList ++ cause.message
  | .malformed => "failed to parse configuration: not a TOML document".toList
  | .misshapen report => "failed to parse configuration: ".toList ++ report.toList
  | .missingField field => "missing required field: ".toList ++ field.toList
  | .invalid text => "validation error: ".toList ++ text.toList
  | .notDirectory path =>
      "destination `".toList ++ path.shown ++ "` is not a directory".toList
  | .noRoot reason => "cannot resolve resources root: ".toList ++ reason.toList

/-- The system's error behind an error, if there is one. -/
def cause? : ConfigError → Option SystemError
  | .unreadable cause => some cause
  | _ => none

end ConfigError

end TemplateCache
