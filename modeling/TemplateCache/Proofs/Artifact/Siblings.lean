import TemplateCache.Proofs.Artifact.Naming
import TemplateCache.Proofs.FileSystem.Entries
import TemplateCache.Proofs.Path.Ancestors

/-!
# Names beside an artifact

Beside an artifact stand its siblings, which differ from it in 32 digits, and temporary files with
shorter names. Where the artifact can be asked for, so can they: `askable_of_isOther` and
`askable_temporaryName`. None of the siblings is the source, wherever that stands.
-/

namespace TemplateCache

open FileSystem

namespace Path

/-- All names are set behind the same bytes, the path's own and at most a slash. -/
theorem exists_join_eq (dir : Path) :
    ∃ front : Bytes, (∀ b ∈ front, b ∈ dir.bytes ∨ b = slash) ∧
      front.length ≤ dir.bytes.length + 1 ∧
      ∀ {n : Name}, Name.IsPlain n → (dir.join ⟨n⟩).bytes = front ++ n := by
  refine ⟨if dir.isEmpty || dir.bytes.getLast? == some slash then dir.bytes
    else dir.bytes ++ [slash], ?_, ?_, fun {n} hn => ?_⟩
  · split
    · exact fun b hb => .inl hb
    · simp
  · split
    · exact Nat.le_succ _
    · simp
  · have hrel : isAbsolute ⟨n⟩ = false := by
      have hhead : n.head? ≠ some slash := fun e => hn.noSlash (List.mem_of_mem_head? e)
      simpa [isAbsolute] using hhead
    unfold join
    rw [if_neg (by simp [hrel])]
    split
    · rfl
    · simp

end Path

namespace FileSystem

/-- A shorter name can be asked for in the same directory. -/
theorem Askable.of_length_le {dir : Path} {name other : Name} (h : Askable dir name)
    (hplain : Name.IsPlain other) (hzero : 0 ∉ other) (hlen : other.length ≤ name.length) :
    Askable dir other := by
  obtain ⟨front, -, -, hfront⟩ := Path.exists_join_eq dir
  obtain ⟨hno, -, hlimit⟩ := checkPath_eq_ok_iff.mp h.check
  have hlength := h.length
  rw [hfront h.plain, List.length_append] at hlimit
  rw [hfront h.plain, List.mem_append, not_or] at hno
  refine ⟨hplain, checkPath_eq_ok_iff.mpr ⟨?_, ?_, ?_⟩, by omega⟩
  · rw [hfront hplain, List.mem_append, not_or]
    exact ⟨hno.1, hzero⟩
  · rw [hfront hplain]
    intro hnil
    exact hplain.nonempty (List.append_eq_nil_iff.mp hnil).2
  · rw [hfront hplain, List.length_append]
    omega

/-- A name behind a path without a zero byte can be walked to, unless there is too much of both. -/
theorem checkPath_join_eq {dir : Path} {name : Name} (hplain : Name.IsPlain name)
    (hzero : 0 ∉ dir.bytes) (hzero' : 0 ∉ name) :
    checkPath (dir.join ⟨name⟩) =
      if (dir.join ⟨name⟩).bytes.length < pathLimit then .ok () else .error .tooLong := by
  obtain ⟨front, hbytes, -, hfront⟩ := Path.exists_join_eq dir
  have hno : 0 ∉ (dir.join ⟨name⟩).bytes := by
    rw [hfront hplain, List.mem_append, not_or]
    refine ⟨fun hmem => ?_, hzero'⟩
    rcases hbytes 0 hmem with hdir | hslash
    · exact hzero hdir
    · exact absurd hslash (by decide)
  have hne : (dir.join ⟨name⟩).bytes ≠ [] := by
    rw [hfront hplain]
    exact fun hnil => hplain.nonempty (List.append_eq_nil_iff.mp hnil).2
  by_cases hlen : (dir.join ⟨name⟩).bytes.length < pathLimit
  · rw [if_pos hlen, checkPath_eq_ok_iff]
    exact ⟨hno, hne, hlen⟩
  · unfold checkPath
    rw [if_neg (by simpa using hno), if_neg (by simpa [Path.isEmpty] using hne),
      if_pos (Nat.le_of_not_lt hlen), if_neg hlen]

end FileSystem

namespace ArtifactName

/-! ## Siblings -/

theorem IsWord.toNat_lt {c : Char} (h : IsWord c) : c.toNat < 0x80 ∧ c.toNat ≠ 0 := by
  have hle : ∀ {a b : Char}, a ≤ b → a.toNat ≤ b.toNat := fun h => h
  rcases h with h | rfl
  · simp only [isSafe, isAsciiLetter, Char.isDigit, Bool.or_eq_true, Bool.and_eq_true,
      decide_eq_true_eq, beq_iff_eq] at h
    rcases h with ((⟨h, h'⟩ | ⟨h, h'⟩) | ⟨h, h'⟩) | rfl
    · have := hle h; have := hle h'; simp only [Char.reduceToNat] at *; omega
    · have := hle h; have := hle h'; simp only [Char.reduceToNat] at *; omega
    · have := hle h; have := hle h'; simp only [Char.reduceToNat] at *; omega
    · decide
  · decide

/-- A text that is an artifact's file name with any digits for its content key. -/
structure Spelt (n : ArtifactName) (text : List Char) : Prop where
  ascii : ∀ c ∈ text, c.toNat < 0x80 ∧ c.toNat ≠ 0
  slash : '/' ∉ text
  length : text.length = n.identity.length + 33 + n.extension.length

theorem IsWorded.spelt {n : ArtifactName} (h : n.IsWorded) {text : List Char}
    (hsibling : n.isSibling text = true) : n.Spelt text := by
  obtain ⟨key, hlen, hkey, rfl⟩ := isSibling_iff.mp hsibling
  have hword : ∀ c ∈ n.identity ++ key ++ '.' :: n.extension, IsWord c ∨ c = '.' := by
    intro c hc
    rcases List.mem_append.mp hc with hc | hc
    · exact .inl (h.isWord_of_mem_front hkey hc)
    · rcases List.mem_cons.mp hc with rfl | hc
      · exact .inr rfl
      · exact .inl (h.extension c hc)
  refine ⟨fun c hc => ?_, fun hmem => ?_, ?_⟩
  · rcases hword c hc with hc | rfl
    · exact hc.toNat_lt
    · decide
  · rcases hword _ hmem with hslash | hdot
    · exact hslash.ne_slash rfl
    · exact absurd hdot (by decide)
  · simp only [List.length_append, List.length_cons, hlen]
    omega

namespace Spelt

variable {n : ArtifactName} {text : List Char}

theorem length_encode (h : n.Spelt text) :
    (Utf8.encode text).length = n.identity.length + 33 + n.extension.length := by
  rw [Utf8.length_encode_of_ascii fun c hc => (h.ascii c hc).1, h.length]

theorem isPlain (h : n.Spelt text) : Name.IsPlain (Utf8.encode text) :=
  Name.isPlain_encode h.slash (by rw [h.length]; omega)

theorem zero_not_mem (h : n.Spelt text) : 0 ∉ Utf8.encode text :=
  Utf8.zero_not_mem_encode fun c hc => (h.ascii c hc).2

end Spelt

theorem IsWorded.spelt_fileName {n : ArtifactName} (h : n.IsWorded) : n.Spelt n.fileName :=
  h.spelt ((isSibling_fileName_iff h h).mpr ⟨rfl, rfl⟩)

/-- Neither an artifact nor a sibling of it stands where its source is. -/
theorem ne_cons_of_isSibling {l : Location} {fingerprint optionsKey contents : Bytes}
    {text : List Char}
    (h : (forSource (Location.path l) fingerprint optionsKey contents).isSibling text = true)
    (dir : Location) : l ≠ Utf8.encode text :: dir := by
  intro hl
  have hname : (Location.path l).fileName? = some (Utf8.encode text) := by
    rw [hl]
    exact Location.fileName?_path ((isWorded_forSource ..).spelt h).isPlain
  exact encode_ne_fileName hname h rfl

/-- What pruning looks at is spelt like the artifact. -/
theorem spelt_of_isOther {n : ArtifactName} (h : n.IsWorded) {name : Name}
    (hother : Store.isOther n name = true) :
    ∃ text, name = Utf8.encode text ∧ n.Spelt text ∧ n.isSibling text = true := by
  unfold Store.isOther at hother
  split at hother
  · cases hother
  · rename_i text htext
    rw [Bool.and_eq_true] at hother
    exact ⟨text, (Utf8.encode_of_decode? htext).symm, h.spelt hother.2, hother.2⟩

/-- The number of bytes that every artifact's name has beside what it takes over from its source. -/
def leastLength : Nat := 70

theorem leastLength_le (source : Path) (fingerprint optionsKey contents : Bytes) :
    leastLength ≤ (forSource source fingerprint optionsKey contents).entryName.length := by
  have hspelt := (isWorded_forSource source fingerprint optionsKey contents).spelt_fileName
  have hleading : leading.length = 8 := by decide
  have hidentity : 37 ≤ (identityOf source fingerprint optionsKey).length := by
    simp only [identityOf, List.length_append, List.length_cons, List.length_nil, length_pathKey,
      length_variantKey, hleading]
    omega
  rw [entryName, hspelt.length_encode]
  simp only [forSource, leastLength]
  omega

end ArtifactName

namespace Store

variable {store : Store} {source : Path} {fingerprint optionsKey contents : Bytes}

theorem CanAsk.askable
    (h : store.CanAsk (.forSource source fingerprint optionsKey contents)) :
    Askable store.dir (ArtifactName.forSource source fingerprint optionsKey contents).entryName :=
  ⟨(ArtifactName.isProper_forSource ..).plain, h.1, h.2⟩

/-- Where the artifact can be asked for, so can everything that pruning looks at. -/
theorem CanAsk.askable_of_isOther
    (h : store.CanAsk (.forSource source fingerprint optionsKey contents)) {name : Name}
    (hother : isOther (.forSource source fingerprint optionsKey contents) name = true) :
    Askable store.dir name := by
  have hworded := ArtifactName.isWorded_forSource source fingerprint optionsKey contents
  obtain ⟨text, rfl, hspelt, -⟩ := ArtifactName.spelt_of_isOther hworded hother
  refine h.askable.of_length_le hspelt.isPlain hspelt.zero_not_mem ?_
  rw [hspelt.length_encode, ArtifactName.entryName, hworded.spelt_fileName.length_encode]

/-- And so can a temporary file, if its number does not make its name longer than the artifact's. -/
theorem CanAsk.askable_temporaryName
    (h : store.CanAsk (.forSource source fingerprint optionsKey contents)) {k : Nat}
    (hk : k < temporaryLimit ArtifactName.leastLength) : Askable store.dir (temporaryName k) := by
  refine h.askable.of_length_le (isPlain_temporaryName k) (zero_not_mem_temporaryName k) ?_
  exact Nat.le_trans ((length_temporaryName_le_iff (by decide)).mpr hk)
    (ArtifactName.leastLength_le source fingerprint optionsKey contents)

end Store

end TemplateCache
