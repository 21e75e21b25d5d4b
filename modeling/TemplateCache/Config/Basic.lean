import TemplateCache.Options.Basic

/-!
# Configurations

A configuration says where the resources root is, if it says so, where under the root the
artifacts go, and which options a compilation without options of its own uses. The directory of
the artifacts must stay inside the root: it is relative and never goes up.
-/

namespace TemplateCache

structure Config where
  /-- The resources root; without one the environment decides. -/
  root : Option Path
  /-- The directory of the artifacts under the root. -/
  subdir : Path
  options : Options

/-- The directory under the root where artifacts go unless a configuration says otherwise. -/
def defaultSubdir : Path := .ofString "tmp/cache/mails"

namespace Config

/-- The configuration that says nothing. -/
def none : Config := ⟨.none, defaultSubdir, .none⟩

/-- The name of the configuration file of a project. -/
def fileName : Path := .ofString "mailtpl.toml"

/-- A relative path taken from a directory. -/
def rebase (dir path : Path) : Path := if path.isAbsolute then path else dir.join path

/-- A configuration whose relative root and destination are taken from a project's directory; an
empty destination stays empty. -/
def rebased (dir : Path) (c : Config) : Config where
  root := c.root.map (rebase dir)
  subdir := c.subdir
  options := { c.options with
    destination := c.options.destination.map fun path =>
      if path.isEmpty then path else rebase dir path }

end Config

end TemplateCache
