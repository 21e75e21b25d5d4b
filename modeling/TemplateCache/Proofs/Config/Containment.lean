import TemplateCache.FileSystem.Edit
import TemplateCache.Proofs.Config.Reading
import TemplateCache.Proofs.DefaultDir.FirstSuccess
import TemplateCache.Proofs.Path.Lexical

/-!
# The directory of the artifacts stays inside the root

A configuration is checked for the directory that it names under the root: this is looked at by
itself, and the default directory is put together of the two afterwards. What was checked is still
true then, for no way of spelling either path moves the place where one ends and the other begins.
Main statement: `default_stays_inside`.
-/

namespace TemplateCache

namespace Config

variable {text : List Char} {c : Config} {root : Path}

/-- The directory of an accepted configuration has passed the check. -/
theorem inside_of_ofText (h : ofText text = .ok c) : Inside c.subdir := by
  unfold ofText at h
  split at h
  · obtain ⟨rfl, hinside⟩ := check_eq_ok_iff.mp h
    exact hinside
  · cases h

/-- A first call for the default directory that a configuration describes. -/
def findDefault (c : Config) (s : FileSystem) :
    Except ConfigError Path × (DefaultDir × FileSystem) :=
  (DefaultDir.fresh c.subdir).getWith (fun s => s.runFiles c.rootSource.resolve) s

/-- A root that is named is found at once, and the files are not asked. -/
theorem findDefault_of_root (hroot : c.root = some root) (s : FileSystem) :
    c.findDefault s =
      (.ok (root.join c.subdir), (⟨c.subdir, some (root.join c.subdir)⟩, s)) := by
  have hresolve : s.runFiles c.rootSource.resolve = (.ok root, s) := by
    unfold rootSource
    rw [hroot]
    rfl
  unfold findDefault
  rw [DefaultDir.getWith_of_ok rfl (congrArg Prod.fst hresolve), hresolve]
  rfl

/-- **The default directory of an accepted configuration stays inside the root that it names.** It
is found, and it says what the root says and then only what the directory under it adds, which leads
down. -/
theorem default_stays_inside (h : ofText text = .ok c) (hroot : c.root = some root)
    (s : FileSystem) :
    ∃ dir, (c.findDefault s).1 = .ok dir ∧ Path.Below root c.subdir dir := by
  have hinside := inside_of_ofText h
  rw [findDefault_of_root hroot]
  exact ⟨_, rfl, Path.below_join root hinside.relative hinside.below⟩

/-! ### A directory with dots -/

/-- A root beside the working directory, and a name under it that only begins with dots. -/
def dottedText : List Char :=
  "[resources]\nroot = \"../r//\"\n[cache]\nsubdir = \"./..a//b/.\"\n".toList

theorem default_stays_inside_dotted :
    ∃ c, ofText dottedText = .ok c ∧ c.root = some (.ofString "../r//") ∧
      ∃ dir, (c.findDefault ⟨⟨[], by decide⟩, .inside [], ⟨0, 0⟩, .none, 0⟩).1 = .ok dir ∧
        Path.Below (.ofString "../r//") c.subdir dir := by
  have htext : ofText dottedText =
      .ok ⟨some (.ofString "../r//"), .ofString "./..a//b/.", .none⟩ := by rfl
  exact ⟨_, htext, rfl, default_stays_inside htext rfl _⟩

end Config

end TemplateCache
