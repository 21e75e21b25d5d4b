import TemplateCache.Proofs.Artifact.Siblings
import TemplateCache.Proofs.Path.Components

/-!
# Where artifacts stand

The parts that a name takes from a path go through `sanitize` one by one, each with something to
stand for it where there is none, so whatever the path is, no byte of it can lead anywhere. The file
name is a word with one dot in it (`IsPortable`), and set after a directory it is one component more
than the directory has: the artifact is an entry of the directory and of no other, and it is none of
the temporary files there. Main statement: `artifact_is_entry`.
-/

namespace TemplateCache

open FileSystem

namespace ArtifactName

/-! ## The text of a name -/

/-- A file name that every system takes, and by which an artifact can be told. -/
structure IsPortable (text : List Char) : Prop where
  begins : leading ++ ['_'] <+: text
  chars : ∀ c ∈ text, isAsciiLetter c = true ∨ c.isDigit = true ∨ c = '-' ∨ c = '_' ∨ c = '.'
  oneDot : text.count '.' = 1
  extension : ∃ front ext, text = front ++ '.' :: ext ∧ ext ≠ []

theorem IsWord.cases {c : Char} (h : IsWord c) :
    isAsciiLetter c = true ∨ c.isDigit = true ∨ c = '-' ∨ c = '_' := by
  simp only [IsWord, isSafe, Bool.or_eq_true, beq_iff_eq] at h
  rcases h with ((h | h) | h) | h
  · exact .inl h
  · exact .inr (.inl h)
  · exact .inr (.inr (.inl h))
  · exact .inr (.inr (.inr h))

theorem extensionPart_ne_nil (source : Path) : extensionPart source ≠ [] := by
  unfold extensionPart
  split
  · exact List.cons_ne_nil _ _
  · decide

theorem IsWorded.isPortable {n : ArtifactName} (h : n.IsWorded)
    (hbegins : leading ++ ['_'] <+: n.identity) (hext : n.extension ≠ []) :
    IsPortable n.fileName where
  begins := by
    obtain ⟨rest, hrest⟩ := hbegins
    refine ⟨rest ++ n.contentKey.text ++ '.' :: n.extension, ?_⟩
    unfold fileName
    rw [← hrest]
    simp only [List.append_assoc]
  chars c hc := by
    have hword : IsWord c ∨ c = '.' := by
      rcases List.mem_append.mp hc with hc | hc
      · exact .inl (h.isWord_of_mem_front n.isHexDigit_contentKey hc)
      · rcases List.mem_cons.mp hc with hdot | hc
        · exact .inr hdot
        · exact .inl (h.extension c hc)
    rcases hword with hword | rfl
    · rcases hword.cases with hc | hc | hc | hc <;> simp [hc]
    · simp
  oneDot := by
    have hfront : (n.identity ++ n.contentKey.text).count '.' = 0 :=
      List.count_eq_zero.mpr (h.dot_not_mem n.isHexDigit_contentKey)
    have hback : n.extension.count '.' = 0 :=
      List.count_eq_zero.mpr fun hmem => (h.extension _ hmem).ne_dot rfl
    rw [fileName, List.count_append, hfront, List.count_cons_self, hback]
  extension := ⟨_, _, rfl, hext⟩

theorem isPortable_forSource (source : Path) (fingerprint optionsKey contents : Bytes) :
    IsPortable (forSource source fingerprint optionsKey contents).fileName :=
  (isWorded_forSource ..).isPortable (leading_isPrefix_identityOf ..) (extensionPart_ne_nil source)

/-- A byte that is no text, a zero byte and an extension with nothing in it. -/
example : stemPart ⟨[47, 255, 0, 46]⟩ = "__".toList ∧
    extensionPart ⟨[47, 255, 0, 46]⟩ = "tpl".toList := by
  decide

/-! ## The entry of a directory -/

/-- The beginning of the names of temporary files. -/
def temporaryStart : Name := Utf8.ofString ".tmp"

theorem temporaryStart_isPrefix (k : Nat) : temporaryStart <+: temporaryName k := by
  unfold temporaryName
  rw [Utf8.encode_append]
  exact List.prefix_append _ _

/-- Names of artifacts begin otherwise. -/
theorem Reserved.not_temporaryStart {name : Name} (h : Reserved name) :
    ¬temporaryStart <+: name := by
  intro htemporary
  -- of two beginnings of one name the shorter is a beginning of the longer
  have hstart : temporaryStart <+: reservedStart :=
    List.prefix_of_prefix_length_le htemporary h (by decide)
  exact absurd hstart (by decide)

namespace Ingredients

theorem isProper_name (i : Ingredients) : i.name.IsProper := isProper_forSource ..

theorem components_artifactPath (i : Ingredients) (store : Store) :
    (store.artifactPath i.name).components = store.dir.components ++ [.name i.name.entryName] :=
  Path.components_entry store.dir i.isProper_name.plain

/-- A directory does not say what an entry of it says. -/
theorem not_same_dir (i : Ingredients) (store : Store) :
    (store.artifactPath i.name).same store.dir = false := by
  rw [Path.same, components_artifactPath, beq_eq_false_iff_ne]
  intro h
  have hlen := congrArg List.length h
  rw [List.length_append, List.length_singleton] at hlen
  omega

theorem not_same_temporary (i : Ingredients) (store : Store) (k : Nat) :
    (store.artifactPath i.name).same (store.dir.join ⟨temporaryName k⟩) = false := by
  rw [Path.same, components_artifactPath, Path.components_entry _ (isPlain_temporaryName k),
    beq_eq_false_iff_ne]
  intro h
  have hlast := List.append_cancel_left h
  injection hlast with hname _
  injection hname with hname
  exact (reserved_entryName ..).not_temporaryStart (hname ▸ temporaryStart_isPrefix k)

/-- **An artifact is an entry of its directory.** Whatever path the source has, the file name is a
word with one dot and an extension after it, and does not begin as the names of temporary files do.
In whatever directory, the artifact's path says what the directory's path says and then this name:
it begins with the directory, is not the directory, and is none of the temporary files in it. On
every file system it leads to what is under this name in the directory that the other path leads to,
and to nothing else. -/
theorem artifact_is_entry (i : Ingredients) :
    IsPortable i.name.fileName ∧ ¬temporaryStart <+: i.name.entryName ∧
    ∀ store : Store,
      (store.artifactPath i.name).components =
        store.dir.components ++ [.name i.name.entryName] ∧
      (store.artifactPath i.name).startsWith store.dir = true ∧
      (store.artifactPath i.name).same store.dir = false ∧
      (∀ k, (store.artifactPath i.name).same (store.dir.join ⟨temporaryName k⟩) = false) ∧
      ∀ (s : FileSystem) (spot : Spot), s.entry (store.artifactPath i.name) = .ok spot ↔
        store.CanAsk i.name ∧ ∃ l, s.Reaches store.dir l ∧
          ((s.disk.get? (i.name.entryName :: l) = none ∧ spot = .vacant l i.name.entryName) ∨
            ∃ node, s.disk.get? (i.name.entryName :: l) = some node ∧
              spot = .node (i.name.entryName :: l) node) := by
  refine ⟨isPortable_forSource .., (reserved_entryName ..).not_temporaryStart, fun store =>
    ⟨i.components_artifactPath store, ?_, i.not_same_dir store, i.not_same_temporary store,
      fun s spot => ?_⟩⟩
  · rw [Path.startsWith, components_artifactPath, List.isPrefixOf_iff_prefix]
    exact List.prefix_append _ _
  · unfold Store.CanAsk
    rw [and_assoc]
    exact entry_join_eq_ok_iff i.isProper_name.plain

end Ingredients

end ArtifactName

end TemplateCache
