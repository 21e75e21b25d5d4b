import TemplateCache.Artifact.Name
import TemplateCache.Options.Basic
import TemplateCache.Proofs.Text.Order
import TemplateCache.Proofs.Toml.Table

/-!
# Building options

Options are built step by step, and the steps may come in any order, overwrite each other and set a
destination in between. What counts for an artifact's name is only what was written last under each
key: the extra values are a table in order, and such a table is told by what is under its keys. Main
statement: `built_alike`.
-/

namespace TemplateCache.Options

open Toml

/-- One step on the way to some options. -/
inductive Setting where
  | destination (path : Path)
  | extra (key : String) (value : Value)

def Setting.apply (o : Options) : Setting → Options
  | .destination path => o.withDestination path
  | .extra key value => o.withExtra key value

/-- The options that some steps make, one after another. -/
def built (settings : List Setting) : Options := settings.foldl Setting.apply .none

/-- What was written under a key at last. -/
def lastUnder (key : String) : List Setting → Option Value
  | [] => .none
  | .destination _ :: rest => lastUnder key rest
  | .extra k value :: rest => (lastUnder key rest).or (if k = key then some value else .none)

/-! ## What a step keeps -/

theorem Setting.increasing_apply {o : Options} (h : o.extra.Increasing) (setting : Setting) :
    (setting.apply o).extra.Increasing := by
  cases setting with
  | destination path => exact h
  | extra key value => exact Table.increasing_insert h

theorem increasing_built (settings : List Setting) : (built settings).extra.Increasing := by
  have hfold : ∀ o : Options, o.extra.Increasing →
      (settings.foldl Setting.apply o).extra.Increasing := by
    induction settings with
    | nil => exact fun o h => h
    | cons setting rest ih => exact fun o h => ih _ (setting.increasing_apply h)
  exact hfold .none Table.increasing_nil

/-- What is not written any more stays. -/
theorem get?_foldl_apply (settings : List Setting) (o : Options) (key : String) :
    (settings.foldl Setting.apply o).extra.get? key =
      (lastUnder key settings).or (o.extra.get? key) := by
  induction settings generalizing o with
  | nil => rfl
  | cons setting rest ih =>
      rw [List.foldl_cons, ih]
      cases setting with
      | destination path => rfl
      | extra k value =>
          have hwritten : (Setting.apply o (.extra k value)).extra.get? key =
              if k = key then some value else o.extra.get? key := Table.get?_insert ..
          rw [hwritten, lastUnder, Option.or_assoc]
          split <;> rfl

theorem get?_built (settings : List Setting) (key : String) :
    (built settings).extra.get? key = lastUnder key settings := by
  rw [built, get?_foldl_apply]
  exact Option.or_none

/-! ## What counts -/

/-- Steps that end with the same under each key make the same extra values. -/
theorem extra_built_eq {a b : List Setting} (h : ∀ key, lastUnder key a = lastUnder key b) :
    (built a).extra = (built b).extra :=
  Table.ext (increasing_built a) (increasing_built b) fun key => by
    rw [get?_built, get?_built, h]

/-- **The order of steps does not show in names.** Options that are built with the same under each
key at last, whatever was overwritten and whatever destinations were set, have the same key: a line
for each key that was written, in the order of the keys' bytes. So artifacts have the same names
under them. -/
theorem built_alike {a b : List Setting} (h : ∀ key, lastUnder key a = lastUnder key b) :
    (built a).transformKey = (built b).transformKey ∧
    (∃ written : List (String × Value),
      (built a).transformKey = (written.flatMap fun entry =>
        entry.1.toList ++ '=' :: entry.2.standaloneText ++ ['\n']) ∧
      (written.Pairwise fun entry later => Utf8.ofString entry.1 < Utf8.ofString later.1) ∧
      ∀ key value, (key, value) ∈ written ↔ lastUnder key a = some value) ∧
    ∀ (source : Path) (fingerprint contents : Bytes),
      ArtifactName.forSource source fingerprint (Utf8.encode (built a).transformKey) contents =
        .forSource source fingerprint (Utf8.encode (built b).transformKey) contents := by
  have hkey : (built a).transformKey = (built b).transformKey := by
    unfold transformKey
    rw [extra_built_eq h]
  have horder := increasing_built a
  refine ⟨hkey, ⟨(built a).extra, rfl, ?_, fun key value => ?_⟩, fun source fingerprint contents => ?_⟩
  · exact horder.imp fun hless => Utf8.ofString_lt_iff.mpr hless
  · rw [← Table.get?_eq_some_iff horder, get?_built]
  · rw [hkey]

/-- A layout that is overwritten, with a destination set in between, and the two values written the
other way round. -/
theorem built_alike_overwritten :
    let a : List Setting := [.extra "layout" (.scalar (.string "text")), .destination (.ofString "/out"),
      .extra "escape" (.scalar (.boolean true)), .extra "layout" (.scalar (.string "html"))]
    let b : List Setting := [.extra "layout" (.scalar (.string "html")),
      .extra "escape" (.scalar (.boolean true))]
    (∀ key, lastUnder key a = lastUnder key b) ∧
    (built a).transformKey = (built b).transformKey ∧
    (built b).transformKey = "escape=true\nlayout=\"html\"\n".toList := by
  intro a b
  have hlast : ∀ key, lastUnder key a = lastUnder key b := by
    intro key
    simp only [a, b, lastUnder]
    by_cases hlayout : "layout" = key
    · subst hlayout
      simp
    · simp [hlayout]
  exact ⟨hlast, (built_alike hlast).1, by decide +kernel⟩

end TemplateCache.Options
