import TemplateCache.Proofs.Artifact.Placement

/-!
# How long artifact names are

A name takes over the name of the source's directory, the stem and the extension, a character for
each character that they are read as, and adds 70 characters of its own. None of the parts is cut.
Each of them may be as long as the name of a file, so the artifact's name may be too long for one:
this is so when more than 185 characters are taken over. No directory takes such an artifact, and
none refuses another for the length of its name (`write_of_long`, `write_of_short`).

Main statement: `name_fits_iff`.
-/

namespace TemplateCache

open FileSystem

namespace Path

/-- A dot is left out where a name is cut. -/
theorem length_of_cut? {name before after : Bytes} (h : cut? name = some (before, after)) :
    before.length + 1 + after.length = name.length := by
  unfold cut? at h
  dsimp only at h
  split at h
  · rename_i hcut
    obtain ⟨hlen, -⟩ := hcut
    cases h
    rw [List.length_take]
    omega
  · cases h

/-- A name is all stem, or it is cut in two. -/
theorem stem?_and_extension? {p : Path} {name : Bytes} (h : p.fileName? = some name) :
    (p.stem? = some name ∧ p.extension? = none) ∨
    ∃ before after, p.stem? = some before ∧ p.extension? = some after ∧
      before.length + 1 + after.length = name.length := by
  unfold stem? extension?
  rw [h, Option.map_some, Option.bind_some]
  cases hcut : cut? name with
  | none => exact .inl ⟨rfl, rfl⟩
  | some parts => exact .inr ⟨parts.1, parts.2, rfl, rfl, length_of_cut? hcut⟩

/-- No name in a path is too long for a file. -/
def NamesFit (p : Path) : Prop := ∀ name, .name name ∈ p.components → name.length ≤ nameLimit

instance (p : Path) : Decidable p.NamesFit :=
  decidable_of_iff
    (p.components.all fun part =>
      match part with
      | .name n => decide (n.length ≤ nameLimit)
      | _ => true)
    (by
      rw [List.all_eq_true]
      constructor
      · intro h name hname
        exact of_decide_eq_true (h _ hname)
      · intro h part hpart
        cases part with
        | name n => exact decide_eq_true (h n hpart)
        | root => rfl
        | here => rfl
        | up => rfl)

end Path

namespace ArtifactName

variable {source : Path}

/-! ## What is taken over from the path -/

/-- Bytes are read as no more characters than they are. -/
theorem length_sanitizeBytes_le (raw : Bytes) : (sanitizeBytes raw).length ≤ raw.length := by
  unfold sanitizeBytes sanitize
  rw [List.length_map]
  exact Utf8.length_decodeLenient_le raw

theorem length_parentPart_le (habs : source.isAbsolute = true) (hnames : source.NamesFit) :
    (parentPart source).length ≤ nameLimit := by
  unfold parentPart
  cases hraw : source.parent?.bind Path.fileName? with
  | none => decide
  | some raw =>
      obtain ⟨parent, hparent, hname⟩ := Option.bind_eq_some_iff.mp hraw
      have hmem := Path.mem_components_of_fileName? hname
      rw [Path.components_parent? habs hparent] at hmem
      exact Nat.le_trans (length_sanitizeBytes_le raw) (hnames raw (List.dropLast_subset _ hmem))

theorem length_stemPart_le {raw : Bytes} (h : source.stem? = some raw) :
    (stemPart source).length ≤ raw.length := by
  unfold stemPart
  rw [h]
  exact length_sanitizeBytes_le raw

theorem length_extensionPart_of_none (h : source.extension? = none) :
    (extensionPart source).length = 3 := by
  unfold extensionPart
  rw [h]
  rfl

/-- What stands for an extension does so for an empty one, too. -/
theorem length_extensionPart_le {raw : Bytes} (h : source.extension? = some raw) :
    (extensionPart source).length ≤ max 3 raw.length := by
  unfold extensionPart
  rw [h, Option.map_some]
  split
  · rename_i hparts
    injection hparts with hparts
    rw [← hparts]
    exact Nat.le_trans (length_sanitizeBytes_le raw) (Nat.le_max_right 3 raw.length)
  · exact Nat.le_max_left 3 raw.length

theorem length_stemPart_add_extensionPart_le (hnames : source.NamesFit) :
    (stemPart source).length + (extensionPart source).length ≤ nameLimit + 3 := by
  cases hname : source.fileName? with
  | none =>
      have hstem : stemPart source = "anonymous".toList := by
        unfold stemPart Path.stem?
        rw [hname]
        rfl
      have hext : source.extension? = none := by
        unfold Path.extension?
        rw [hname]
        rfl
      rw [hstem, length_extensionPart_of_none hext]
      decide
  | some name =>
      have hlen := hnames name (Path.mem_components_of_fileName? hname)
      rcases Path.stem?_and_extension? hname with
        ⟨hstem, hext⟩ | ⟨before, after, hstem, hext, hwhole⟩
      · have hbefore := length_stemPart_le hstem
        rw [length_extensionPart_of_none hext]
        omega
      · have hbefore := length_stemPart_le hstem
        have hafter := length_extensionPart_le hext
        omega

/-- How many characters of a name are taken over from the path. -/
def takenOver (source : Path) : Nat :=
  (parentPart source).length + (stemPart source).length + (extensionPart source).length

theorem Ingredients.length_fileName (i : Ingredients) :
    i.name.fileName.length = 70 + takenOver i.source := by
  have hleading : leading.length = 8 := by decide
  have hkey : i.name.contentKey.text.length = 32 := ContentHash.length_text _
  have hidentity : i.name.identity.length =
      37 + (parentPart i.source).length + (stemPart i.source).length := by
    simp only [Ingredients.name, forSource, identityOf, List.length_append, List.length_cons,
      List.length_nil, length_pathKey, length_variantKey, hleading]
    omega
  have hextension : i.name.extension.length = (extensionPart i.source).length := rfl
  unfold takenOver
  rw [fileName, List.length_append, List.length_append, List.length_cons, hkey, hidentity,
    hextension]
  omega

/-- All characters of a name are ASCII. -/
theorem Ingredients.length_entryName (i : Ingredients) :
    i.name.entryName.length = i.name.fileName.length :=
  Utf8.length_encode_of_ascii fun c hc => (i.isWorded_name.spelt_fileName.ascii c hc).1

end ArtifactName

/-! ## Writing by the length of the name -/

/-- A path with room for a name is one that can be walked with the name after it. -/
theorem FileSystem.checkPath_join {dir : Path} {name : Name} (h : Name.IsPlain name)
    (hzero : 0 ∉ dir.bytes) (hzero' : 0 ∉ name)
    (hroom : dir.bytes.length + 1 + name.length < pathLimit) :
    checkPath (dir.join ⟨name⟩) = .ok () := by
  obtain ⟨front, -, hlen, hfront⟩ := Path.exists_join_eq dir
  rw [checkPath_join_eq h hzero hzero', if_pos]
  rw [hfront h, List.length_append]
  omega

namespace Store

variable {s s₁ : FileSystem} {store : Store} {n : ArtifactName} {data : Bytes} {temporary : Path}

/-- Once there is a temporary file, what counts is whether it can take the artifact's name. -/
theorem write_of_temporary (h : s.temporary store.dir data = .ok (temporary, s₁)) :
    (s.runFiles (store.write n data)).1 =
      match s₁.rename temporary (store.artifactPath n) with
      | .ok _ => .ok (store.artifactPath n)
      | .error e => .error (.unwritable (store.artifactPath n) e) := by
  cases hrun : s.runFiles (store.write n data) with
  | mk result after =>
      dsimp only
      cases write_course hrun with
      | unmade hunmade =>
          rw [h] at hunmade
          cases hunmade
      | renamed hmade hrename =>
          rw [h] at hmade
          cases hmade
          rw [hrename]
      | discarded hmade hrename =>
          rw [h] at hmade
          cases hmade
          rw [hrename]

theorem write_of_long (hs : s.Sound) (hn : n.IsProper)
    (hmade : s.temporary store.dir data = .ok (temporary, s₁))
    (hcheck : checkPath (store.artifactPath n) = .ok ()) (hlong : nameLimit < n.entryName.length) :
    (s.runFiles (store.write n data)).1 = .error (.unwritable (store.artifactPath n) .tooLong) := by
  obtain ⟨k, l, rfl, hprepared⟩ := Prepared.of_temporary hs hmade
  have hold := entry_of_present ⟨isPlain_temporaryName k, hprepared.asked.1, hprepared.asked.2⟩
    hprepared.reaches_after hprepared.file
  have hnew : s₁.entry (store.artifactPath n) = .error .tooLong :=
    entry_of_long hn.plain hcheck hprepared.reaches_after hlong
  rw [write_of_temporary hmade]
  unfold FileSystem.rename
  rw [hold, hnew]
  rfl

/-- If the name is not too long, nothing but a directory of that name is in the way. -/
theorem write_of_short (hs : s.Sound) (hn : n.IsProper)
    (hmade : s.temporary store.dir data = .ok (temporary, s₁))
    (hcheck : checkPath (store.artifactPath n) = .ok ()) (hlen : n.entryName.length ≤ nameLimit) :
    (s.runFiles (store.write n data)).1 = .ok (store.artifactPath n) ∨
      (∃ l t, s.entry (store.artifactPath n) = .ok (.node l (.directory t))) ∧
        (s.runFiles (store.write n data)).1 =
          .error (.unwritable (store.artifactPath n) .isDirectory) := by
  obtain ⟨k, l, rfl, hprepared⟩ := Prepared.of_temporary hs hmade
  have hask : Askable store.dir n.entryName := ⟨hn.plain, hcheck, hlen⟩
  have hask' : Askable store.dir (temporaryName k) :=
    ⟨isPlain_temporaryName k, hprepared.asked.1, hprepared.asked.2⟩
  have hsame : Disk.SameAt s.disk s₁.disk (n.entryName :: l) := by
    refine hprepared.others _ fun e => hn.notTemporary k ?_
    exact (List.cons.inj e).1.symm
  rw [write_of_temporary hmade]
  by_cases hdir : ∃ t, s.disk.get? (n.entryName :: l) = some (.directory t)
  · obtain ⟨t, ht⟩ := hdir
    obtain ⟨t', ht'⟩ := hsame.directory ht
    refine .inr ⟨⟨_, t, entry_of_present hask hprepared.reaches ht⟩, ?_⟩
    have hnew : s₁.entry (store.artifactPath n) = _ :=
      entry_of_present hask hprepared.reaches_after ht'
    unfold FileSystem.rename
    rw [entry_of_present hask' hprepared.reaches_after hprepared.file, hnew]
    rfl
  · left
    have hfree : ∀ node, s₁.disk.get? (n.entryName :: l) = some node →
        node.isDirectory = false := by
      intro node hnode
      by_contra htrue
      rw [Bool.not_eq_false] at htrue
      obtain ⟨t, rfl⟩ := Node.isDirectory_iff.mp htrue
      exact hdir (hsame.symm.directory hnode)
    have hrename : s₁.rename (store.dir.join ⟨temporaryName k⟩) (store.artifactPath n) = _ :=
      rename_of_file hask' hask hprepared.reaches_after hprepared.file hfree
    rw [hrename]

end Store

namespace ArtifactName.Ingredients

/-- **A name fits if its source leaves room for it.** The source is any path from the root whose
names are no longer than names can be. Its artifact's name has 70 characters of its own, of a byte
each, and those that are taken over: up to 255 for the directory, and up to 258 for stem and
extension. So it is short enough exactly when at most 185 are taken over. If it is, no writing fails
because of it; if it is not, every one does that comes so far as to make a temporary file, in
whatever directory. -/
theorem name_fits_iff (i : Ingredients) (habs : i.source.isAbsolute = true)
    (hnames : i.source.NamesFit) :
    i.name.entryName.length = 70 + takenOver i.source ∧
    i.name.fileName.length = i.name.entryName.length ∧
    (parentPart i.source).length ≤ 255 ∧
    (stemPart i.source).length + (extensionPart i.source).length ≤ 258 ∧
    (i.name.entryName.length ≤ nameLimit ↔ takenOver i.source ≤ 185) ∧
    ∀ {s s₁ : FileSystem} {store : Store} {data : Bytes} {temporary : Path}, s.Sound →
      s.temporary store.dir data = .ok (temporary, s₁) →
      checkPath (store.artifactPath i.name) = .ok () →
      (185 < takenOver i.source →
        (s.runFiles (store.write i.name data)).1 =
          .error (.unwritable (store.artifactPath i.name) .tooLong)) ∧
      (takenOver i.source ≤ 185 →
        (s.runFiles (store.write i.name data)).1 = .ok (store.artifactPath i.name) ∨
        (∃ l t, s.entry (store.artifactPath i.name) = .ok (.node l (.directory t))) ∧
          (s.runFiles (store.write i.name data)).1 =
            .error (.unwritable (store.artifactPath i.name) .isDirectory)) := by
  have hbytes : i.name.entryName.length = 70 + takenOver i.source :=
    i.length_entryName.trans i.length_fileName
  have hlimit : nameLimit = 255 := rfl
  refine ⟨hbytes, i.length_entryName.symm, length_parentPart_le habs hnames,
    length_stemPart_add_extensionPart_le hnames, by omega, ?_⟩
  intro s s₁ store data temporary hs hmade hcheck
  exact ⟨fun hmany => Store.write_of_long hs i.isProper_name hmade hcheck (by omega),
    fun hfew => Store.write_of_short hs i.isProper_name hmade hcheck (by omega)⟩

/-! ### At the limit -/

/-- A template in a directory, both with so many letters in their names. -/
def longSource (letters : Nat) : Path :=
  ⟨Path.slash :: List.replicate letters 112 ++ Path.slash :: List.replicate letters 115 ++
    Utf8.ofString ".html"⟩

def longIngredients (letters : Nat) : Ingredients where
  source := longSource letters
  fingerprint := Utf8.ofString "identity/1"
  optionsKey := []
  contents := [1, 2, 3]

theorem takenOver_longSource : takenOver (longSource 90) = 184 ∧ takenOver (longSource 91) = 186 := by
  decide +kernel

/-- The template, and a directory for what is made of it. -/
def longSystem (letters : Nat) : FileSystem where
  disk := (((⟨[([], .directory ⟨0, 0⟩)], by simp⟩ : Disk).set [Utf8.ofString "out"]
    (.directory ⟨0, 0⟩)).set [List.replicate letters 112] (.directory ⟨0, 0⟩)).set
      [List.replicate letters 115 ++ Utf8.ofString ".html", List.replicate letters 112]
      (.file [1, 2, 3] ⟨1, 0⟩ fileMode)
  workingDir := .inside []
  now := ⟨8, 0⟩
  resources := none
  seed := 0

theorem sound_longSystem {letters : Nat} (h : letters = 90 ∨ letters = 91) :
    (longSystem letters).Sound where
  tree := by
    rcases h with rfl | rfl <;> exact Disk.isTree_of_hangs (by decide +kernel) (by decide +kernel)
  working := by
    rcases h with rfl | rfl <;> exact ⟨⟨0, 0⟩, by decide +kernel⟩

def outStore : Store := ⟨.ofString "/out"⟩

/-- Its directory, with nothing in it. -/
def outDisk : Disk :=
  (⟨[([], .directory ⟨0, 0⟩)], by simp⟩ : Disk).set [Utf8.ofString "out"] (.directory ⟨0, 0⟩)

/-- The way there is one step. -/
theorem leads_outStore {s : FileSystem} {t : Moment}
    (h : s.disk.get? [Utf8.ofString "out"] = some (.directory t)) :
    s.disk.Leads linkLimit (s.workingDir.start outStore.dir) outStore.dir.segments linkLimit
      (.inside [Utf8.ofString "out"]) := by
  have hsegments : outStore.dir.segments = [.name (Utf8.ofString "out")] := by decide
  rw [hsegments]
  exact .into (by decide) h .stay

theorem exists_temporary {letters : Nat} (h : letters = 90 ∨ letters = 91) :
    ∃ made, (longSystem letters).temporary outStore.dir [7] = .ok made := by
  have hok : ((longSystem letters).temporary outStore.dir [7]).toBool = true := by
    rcases h with rfl | rfl <;> decide +kernel
  cases hmade : (longSystem letters).temporary outStore.dir [7] with
  | error e =>
      rw [hmade] at hok
      cases hok
  | ok made => exact ⟨made, rfl⟩

theorem checkPath_outStore {letters : Nat}
    (h : (longIngredients letters).name.entryName.length ≤ 256) :
    checkPath (outStore.artifactPath (longIngredients letters).name) = .ok () := by
  have hspelt := (longIngredients letters).isWorded_name.spelt_fileName
  have hdir : outStore.dir.bytes.length = 4 := by decide
  refine checkPath_join hspelt.isPlain (by decide) hspelt.zero_not_mem ?_
  rw [hdir]
  have hlimit : pathLimit = 4096 := rfl
  change 4 + 1 + (longIngredients letters).name.entryName.length < pathLimit
  omega

/-- Nothing has the name yet. -/
theorem entry_vacant (hlen : (longIngredients 90).name.entryName.length ≤ nameLimit) :
    (longSystem 90).entry (outStore.artifactPath (longIngredients 90).name) =
      .ok (.vacant [Utf8.ofString "out"] (longIngredients 90).name.entryName) := by
  have hask : Askable outStore.dir (longIngredients 90).name.entryName :=
    ⟨(longIngredients 90).isProper_name.plain, checkPath_outStore (Nat.le_succ_of_le hlen), hlen⟩
  have hdir : (longSystem 90).disk.get? [Utf8.ofString "out"] = some (.directory ⟨0, 0⟩) := by
    decide +kernel
  exact entry_of_absent hask ⟨_, leads_outStore hdir⟩ (by decide +kernel)

/-- With 90 letters there is room for the name. -/
theorem name_fits_ninety :
    (longSource 90).isAbsolute = true ∧ (longSource 90).NamesFit ∧
    (longIngredients 90).name.entryName.length = 254 ∧
    ((longSystem 90).runFiles (outStore.write (longIngredients 90).name [7])).1 =
      .ok (outStore.artifactPath (longIngredients 90).name) := by
  have habs : (longSource 90).isAbsolute = true := by decide +kernel
  have hnames : (longSource 90).NamesFit := by decide +kernel
  obtain ⟨hbytes, -, -, -, hfits, hwrite⟩ := name_fits_iff (longIngredients 90) habs hnames
  have hshort : takenOver (longIngredients 90).source ≤ 185 := takenOver_longSource.1 ▸ by decide
  have hlen : (longIngredients 90).name.entryName.length = 254 :=
    hbytes.trans (congrArg (70 + ·) takenOver_longSource.1)
  obtain ⟨made, hmade⟩ := exists_temporary (.inl rfl)
  obtain ⟨-, hwritten⟩ := hwrite (sound_longSystem (.inl rfl)) hmade (checkPath_outStore (by omega))
  refine ⟨habs, hnames, hlen, ?_⟩
  rcases hwritten hshort with hok | ⟨⟨l, t, hdir⟩, -⟩
  · exact hok
  · rw [entry_vacant (hfits.mpr hshort)] at hdir
    cases hdir

/-- With 91 letters in each, where a name may have 255, the artifact's name has one byte too many and
cannot be written. -/
theorem name_too_long :
    (longSystem 91).canonical (longSource 91) = .ok (longSource 91) ∧
    (longSource 91).isAbsolute = true ∧ (longSource 91).NamesFit ∧
    (longIngredients 91).name.entryName.length = 256 ∧
    ((longSystem 91).runFiles (outStore.write (longIngredients 91).name [7])).1 =
      .error (.unwritable (outStore.artifactPath (longIngredients 91).name) .tooLong) := by
  have hlen : (longIngredients 91).name.entryName.length = 256 :=
    ((longIngredients 91).length_entryName.trans (longIngredients 91).length_fileName).trans
      (congrArg (70 + ·) takenOver_longSource.2)
  obtain ⟨made, hmade⟩ := exists_temporary (.inr rfl)
  have hlong : nameLimit < (longIngredients 91).name.entryName.length := by
    rw [hlen]
    decide
  exact ⟨by decide +kernel, by decide +kernel, by decide +kernel, hlen,
    Store.write_of_long (sound_longSystem (.inr rfl)) (longIngredients 91).isProper_name hmade
      (checkPath_outStore (by omega)) hlong⟩

end ArtifactName.Ingredients

end TemplateCache
