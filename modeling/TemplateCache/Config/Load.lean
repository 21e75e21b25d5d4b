import TemplateCache.Config.Read
import TemplateCache.FileSystem.Directories

/-!
# Loading a configuration

The configuration of a project stands in a file of its directory. Relative paths in it are taken
from that directory.
-/

namespace TemplateCache.Config

/-- The text of a file. -/
def readText (p : Path) : FileProgram (Except SystemError (List Char)) := do
  match ← FileProgram.ask (.contents p) with
  | .error e => return .error e
  | .ok bytes =>
      match Utf8.decode? bytes with
      | some text => return .ok text
      | .none => return .error .notText

/-- The configuration of the project in a directory. -/
def load (dir : Path) : FileProgram (Except ConfigError Config) := do
  match ← readText (dir.join fileName) with
  | .error e => return .error (.unreadable e)
  | .ok text => return (ofText text).map (rebased dir)

end TemplateCache.Config
