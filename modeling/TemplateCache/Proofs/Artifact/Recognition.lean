import TemplateCache.Options.Basic
import TemplateCache.Proofs.Artifact.Siblings
import TemplateCache.Proofs.Hash.Spelling

/-!
# Which files are taken for artifacts

Pruning removes what it takes for older artifacts of its source, transform and options. It goes by
the file name alone, so it matters which names those are. Two things let in more than was meant.

* The content key is any 32 digits, capitals included, though keys are written without capitals. So
  there are siblings that no compilation writes. `siblings_spelled` says which names are siblings
  and which of them are those of artifacts.
* Of the hash of transform and options four bytes are left in the name. Variants of a source whose
  hashes begin alike are siblings of each other, and one of them may remove what was made for the
  other. `variants_taken_for_each_other_iff` says that it comes to this in no other case.
-/

namespace TemplateCache

open FileSystem

namespace ArtifactName

/-! ## Content keys -/

/-- The name for contents with another hash. -/
def withKey (n : ArtifactName) (h : ContentHash) : ArtifactName := { n with contentKey := h }

/-- The file name with any digits in the place of the content key. -/
def fileNameWith (n : ArtifactName) (digits : List Char) : List Char :=
  n.identity ++ digits ++ '.' :: n.extension

/-- What a text has in the place of the content key. -/
def keyPart (n : ArtifactName) (text : List Char) : List Char :=
  (text.drop n.identity.length).take 32

theorem keyPart_fileNameWith (n : ArtifactName) {digits : List Char} (h : digits.length = 32) :
    n.keyPart (n.fileNameWith digits) = digits := by
  unfold keyPart fileNameWith
  rw [List.append_assoc, List.drop_left, List.take_left' h]

theorem fileNameWith_inj {n : ArtifactName} {digits digits' : List Char}
    (h : n.fileNameWith digits = n.fileNameWith digits') : digits = digits' := by
  unfold fileNameWith at h
  exact List.append_cancel_left (List.append_cancel_right h)

/-- A sibling has some spelling of a hash for its key. -/
theorem isSibling_iff_spelledBy {n : ArtifactName} {text : List Char} :
    n.isSibling text = true ↔
      ∃ (h : ContentHash) (digits : List Char), h.SpelledBy digits ∧
        text = n.fileNameWith digits := by
  rw [isSibling_iff]
  constructor
  · rintro ⟨digits, hlen, hdigits, htext⟩
    obtain ⟨h, hspelled⟩ := ContentHash.exists_spelledBy_iff.mpr ⟨hlen, hdigits⟩
    exact ⟨h, digits, hspelled, htext⟩
  · rintro ⟨h, digits, hspelled, htext⟩
    obtain ⟨hlen, hdigits⟩ := ContentHash.exists_spelledBy_iff.mp ⟨h, hspelled⟩
    exact ⟨digits, hlen, hdigits, htext⟩

/-- An artifact has the text of a hash for its key, which has no capitals. -/
theorem exists_withKey_iff {n : ArtifactName} {text : List Char} :
    (∃ h, text = (n.withKey h).fileName) ↔
      n.isSibling text = true ∧ ∀ c ∈ n.keyPart text, c.isUpper = false := by
  rw [isSibling_iff_spelledBy]
  constructor
  · rintro ⟨h, rfl⟩
    have hname : (n.withKey h).fileName = n.fileNameWith h.text := rfl
    rw [hname, keyPart_fileNameWith n h.length_text]
    exact ⟨⟨h, h.text, .text h, rfl⟩, fun _ => ContentHash.not_isUpper_of_mem_text⟩
  · rintro ⟨⟨h, digits, hspelled, rfl⟩, hsmall⟩
    obtain ⟨hlen, -⟩ := ContentHash.exists_spelledBy_iff.mp ⟨h, hspelled⟩
    rw [keyPart_fileNameWith n hlen] at hsmall
    rw [hspelled.eq_text_iff.mpr hsmall]
    exact ⟨h, rfl⟩

/-- What pruning looks at is text that is a sibling, and not the artifact itself. -/
theorem isOther_iff {n : ArtifactName} {name : Name} :
    Store.isOther n name = true ↔
      ∃ text, name = Utf8.encode text ∧ text ≠ n.fileName ∧ n.isSibling text = true := by
  unfold Store.isOther
  constructor
  · intro h
    split at h
    · cases h
    · rename_i text htext
      rw [Bool.and_eq_true, bne_iff_ne] at h
      exact ⟨text, (Utf8.encode_of_decode? htext).symm, h.1, h.2⟩
  · rintro ⟨text, rfl, hne, hsibling⟩
    rw [Utf8.decode?_encode]
    simp [hne, hsibling]

/-- **A sibling is an artifact's file name, but for capitals in its content key.** Its key becomes
the text of a hash when the capitals are made small; artifacts are those siblings that have none
there. Pruning looks at all of them. -/
theorem siblings_spelled (n : ArtifactName) :
    (∀ text, n.isSibling text = true ↔
      ∃ (h : ContentHash) (digits : List Char), h.SpelledBy digits ∧
        text = n.fileNameWith digits) ∧
    (∀ text, (∃ h, text = (n.withKey h).fileName) ↔
      n.isSibling text = true ∧ ∀ c ∈ n.keyPart text, c.isUpper = false) ∧
    ∀ name, Store.isOther n name = true ↔
      ∃ (h : ContentHash) (digits : List Char), h.SpelledBy digits ∧
        digits ≠ n.contentKey.text ∧ name = Utf8.encode (n.fileNameWith digits) := by
  refine ⟨fun _ => isSibling_iff_spelledBy, fun _ => exists_withKey_iff, fun name => ?_⟩
  have hself : n.fileName = n.fileNameWith n.contentKey.text := rfl
  rw [isOther_iff]
  constructor
  · rintro ⟨text, rfl, hne, hsibling⟩
    obtain ⟨h, digits, hspelled, rfl⟩ := isSibling_iff_spelledBy.mp hsibling
    exact ⟨h, digits, hspelled, fun e => hne (hself ▸ e ▸ rfl), rfl⟩
  · rintro ⟨h, digits, hspelled, hne, rfl⟩
    exact ⟨_, rfl, fun e => hne (fileNameWith_inj (e.trans hself)),
      isSibling_iff_spelledBy.mpr ⟨h, digits, hspelled, rfl⟩⟩

/-! ### A name in capitals -/

/-- The artifact of a source at the root. -/
def rootArtifact : ArtifactName :=
  forSource (.ofString "/a") (Utf8.ofString "identity/1") [] [1, 2, 3]

/-- A file name that differs from its own in the key, which is in capitals. -/
def capitalText : List Char := rootArtifact.fileNameWith (List.replicate 32 'A')

/-- A directory in which someone keeps a file of this name. -/
def capitalSystem : FileSystem where
  disk := ⟨[([], .directory ⟨0, 0⟩), ([Utf8.ofString "out"], .directory ⟨0, 0⟩),
    ([Utf8.encode capitalText, Utf8.ofString "out"], .file [7] ⟨1, 0⟩ fileMode)], by simp⟩
  workingDir := .inside []
  now := ⟨8, 0⟩
  resources := none
  seed := 0

/-- No compilation gives a file this name, and pruning removes it. -/
theorem capitals_pruned :
    rootArtifact.isSibling capitalText = true ∧
    (∀ h, capitalText ≠ (rootArtifact.withKey h).fileName) ∧
    (capitalSystem.runFiles
      ((⟨.ofString "/out"⟩ : Store).prune rootArtifact ⟨5, 0⟩)).1 = .ok 1 ∧
    (capitalSystem.runFiles
      ((⟨.ofString "/out"⟩ : Store).prune rootArtifact ⟨5, 0⟩)).2.disk.get?
        [Utf8.encode capitalText, Utf8.ofString "out"] = none := by
  refine ⟨by decide +kernel, fun h e => ?_, by decide +kernel, by decide +kernel⟩
  have hsmall := (exists_withKey_iff.mp ⟨h, e⟩).2 'A'
  unfold capitalText at hsmall
  rw [keyPart_fileNameWith _ (List.length_replicate ..)] at hsmall
  exact absurd (hsmall (by simp)) (by decide)

theorem identityOf_eq_iff {source : Path}
    {fingerprint optionsKey fingerprint' optionsKey' : Bytes} :
    identityOf source fingerprint optionsKey = identityOf source fingerprint' optionsKey' ↔
      (variantHash fingerprint optionsKey).bytes.take 4 =
        (variantHash fingerprint' optionsKey').bytes.take 4 := by
  have hshort := ContentHash.short_eq_iff (k := 4) (g := variantHash fingerprint optionsKey)
    (h := variantHash fingerprint' optionsKey')
  rw [← hshort]
  constructor
  · intro h
    exact (keys_of_identity h).2
  · intro h
    unfold identityOf variantKeyLength
    rw [h]

end ArtifactName

/-! ## Variants -/

/-- A transform, by its fingerprint, and the options that it is given. -/
structure Variant where
  fingerprint : String
  options : Options

namespace Variant

def hash (v : Variant) : ContentHash :=
  ArtifactName.variantHash (Utf8.ofString v.fingerprint) (Utf8.encode v.options.transformKey)

/-- The name of what is made of a source. -/
def artifact (v : Variant) (source : Path) (contents : Bytes) : ArtifactName :=
  .forSource source (Utf8.ofString v.fingerprint) (Utf8.encode v.options.transformKey) contents

theorem isWorded_artifact (v : Variant) (source : Path) (contents : Bytes) :
    (v.artifact source contents).IsWorded := ArtifactName.isWorded_forSource ..

/-- The hashes begin with the same four bytes. -/
def Alike (v w : Variant) : Prop := v.hash.bytes.take 4 = w.hash.bytes.take 4

theorem identity_eq_iff {source : Path} {v w : Variant} {contents contents' : Bytes} :
    (v.artifact source contents).identity = (w.artifact source contents').identity ↔ v.Alike w :=
  ArtifactName.identityOf_eq_iff

theorem isSibling_iff {source : Path} {v w : Variant} {contents contents' : Bytes} :
    (v.artifact source contents).isSibling (w.artifact source contents').fileName = true ↔
      v.Alike w := by
  rw [ArtifactName.isSibling_fileName_iff (isWorded_artifact ..) (isWorded_artifact ..),
    identity_eq_iff]
  -- the extension is that of the source
  exact and_iff_left rfl

/-- **Variants of a source are taken for each other exactly when their hashes begin alike.** Then
they share the beginning of their names and each artifact of the one is a sibling of each of the
other, which pruning looks at unless it has the same content key; otherwise nothing of this is so. -/
theorem variants_taken_for_each_other_iff (source : Path) (v w : Variant)
    (contents contents' : Bytes) :
    ((v.artifact source contents).identity = (w.artifact source contents').identity ↔
      v.Alike w) ∧
    ((v.artifact source contents).isSibling (w.artifact source contents').fileName = true ↔
      v.Alike w) ∧
    (Store.isOther (v.artifact source contents) (w.artifact source contents').entryName = true ↔
      v.Alike w ∧
        (v.artifact source contents).contentKey ≠ (w.artifact source contents').contentKey) := by
  refine ⟨identity_eq_iff, isSibling_iff, ?_⟩
  rw [ArtifactName.isOther_iff]
  constructor
  · rintro ⟨text, hname, hne, hsibling⟩
    obtain rfl := Utf8.encode_injective hname
    have halike := isSibling_iff.mp hsibling
    refine ⟨halike, fun hkey => hne ?_⟩
    unfold ArtifactName.fileName
    rw [identity_eq_iff.mpr halike, hkey]
    rfl
  · rintro ⟨halike, hkey⟩
    refine ⟨_, rfl, fun hname => hkey ?_, isSibling_iff.mpr halike⟩
    rw [ArtifactName.fileName_injective (isWorded_artifact ..) (isWorded_artifact ..) hname]

/-! ### Two layouts -/

/-- A transform that reads a layout, with one. -/
def ofLayout (layout : String) : Variant where
  fingerprint := "wrap/1"
  options := Options.none.withExtra "layout" (.scalar (.string layout))

def layoutArtifact (layout : String) : ArtifactName :=
  (ofLayout layout).artifact (.ofString "/a") [1, 2, 3]

/-- A directory with the artifact for one layout. -/
def layoutSystem : FileSystem where
  disk := ⟨[([], .directory ⟨0, 0⟩), ([Utf8.ofString "out"], .directory ⟨0, 0⟩),
    ([(layoutArtifact "v747").entryName, Utf8.ofString "out"], .file [7] ⟨1, 0⟩ fileMode)],
    by simp⟩
  workingDir := .inside []
  now := ⟨8, 0⟩
  resources := none
  seed := 0

/-- Pruning for another layout removes it. -/
theorem other_layout_pruned :
    (ofLayout "v747").hash ≠ (ofLayout "v64154").hash ∧
    (layoutArtifact "v747").identity = (layoutArtifact "v64154").identity ∧
    (layoutArtifact "v64154").isSibling (layoutArtifact "v747").fileName = true ∧
    (layoutArtifact "v747").isSibling (layoutArtifact "v64154").fileName = true ∧
    (layoutSystem.runFiles
      ((⟨.ofString "/out"⟩ : Store).prune (layoutArtifact "v64154") ⟨5, 0⟩)).1 = .ok 1 ∧
    (layoutSystem.runFiles
      ((⟨.ofString "/out"⟩ : Store).prune (layoutArtifact "v64154") ⟨5, 0⟩)).2.disk.get?
        [(layoutArtifact "v747").entryName, Utf8.ofString "out"] = none := by
  decide +kernel

end Variant

end TemplateCache
