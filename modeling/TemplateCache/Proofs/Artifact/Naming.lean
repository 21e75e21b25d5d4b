import TemplateCache.Proofs.Hash.Text
import TemplateCache.Proofs.Store.Writing
import TemplateCache.Proofs.Text.Runs

/-!
# What artifact names tell

The parts of an artifact's file name have no fixed length, and the parts taken from the path may
hold anything that a name may hold. Read from the right the name is unambiguous all the same: the
only dot stands before the extension, and what stands before the dot ends in keys of fixed lengths.

Main statements: `fileName_injective` (a file name belongs to one artifact),
`isSibling_fileName_iff` (siblings among artifacts share identity and extension),
`keys_of_identity` (an identity determines its two keys), `file_names_readable` (all of these) and
`entryName_ne_fileName` (no artifact has its source's name).
-/

namespace TemplateCache

namespace ArtifactName

/-! ## Characters of names -/

/-- A character that file names have outside the dot. -/
def IsWord (c : Char) : Prop := isSafe c = true ∨ c = '_'

theorem IsWord.ne_dot {c : Char} (h : IsWord c) : c ≠ '.' := by
  rintro rfl
  exact absurd h (by unfold IsWord; decide)

theorem IsWord.ne_slash {c : Char} (h : IsWord c) : c ≠ '/' := by
  rintro rfl
  exact absurd h (by unfold IsWord; decide)

theorem isWord_of_isHexDigit {c : Char} (h : isHexDigit c = true) : IsWord c := by
  left
  simp only [isHexDigit, Bool.or_eq_true, Bool.and_eq_true, decide_eq_true_eq] at h
  simp only [isSafe, isAsciiLetter, Bool.or_eq_true, Bool.and_eq_true, decide_eq_true_eq]
  rcases h with (h | ⟨h, h'⟩) | ⟨h, h'⟩
  · exact .inl (.inr h)
  · exact .inl (.inl (.inl ⟨h, Char.le_trans h' (by decide)⟩))
  · exact .inl (.inl (.inr ⟨h, Char.le_trans h' (by decide)⟩))

theorem isWord_of_all {c : Char} {text : List Char} (hall : text.all isSafe = true)
    (h : c ∈ text) : IsWord c := .inl (List.all_eq_true.mp hall c h)

theorem isWord_of_mem_sanitize {c : Char} {raw : List Char} (h : c ∈ sanitize raw) :
    IsWord c := by
  obtain ⟨d, -, rfl⟩ := List.mem_map.mp h
  split
  · rename_i hsafe
    exact .inl hsafe
  · exact .inr rfl

theorem isWord_of_mem_parentPart {c : Char} {source : Path} (h : c ∈ parentPart source) :
    IsWord c := by
  unfold parentPart at h
  cases hraw : source.parent?.bind Path.fileName? with
  | none =>
      rw [hraw] at h
      exact isWord_of_all (by decide : "root".toList.all isSafe = true) h
  | some raw =>
      rw [hraw] at h
      exact isWord_of_mem_sanitize h

theorem isWord_of_mem_stemPart {c : Char} {source : Path} (h : c ∈ stemPart source) :
    IsWord c := by
  unfold stemPart at h
  cases hraw : source.stem? with
  | none =>
      rw [hraw] at h
      exact isWord_of_all (by decide : "anonymous".toList.all isSafe = true) h
  | some raw =>
      rw [hraw] at h
      exact isWord_of_mem_sanitize h

theorem isWord_of_mem_extensionPart {c : Char} {source : Path}
    (h : c ∈ extensionPart source) : IsWord c := by
  have htpl : "tpl".toList.all isSafe = true := by decide
  unfold extensionPart at h
  cases hraw : source.extension? with
  | none =>
      rw [hraw] at h
      exact isWord_of_all htpl h
  | some raw =>
      rw [hraw] at h
      dsimp only [Option.map_some] at h
      split at h
      · rename_i first rest hfirst
        injection hfirst with hfirst
        rw [← hfirst] at h
        exact isWord_of_mem_sanitize h
      · exact isWord_of_all htpl h

theorem isWord_of_mem_identityOf {c : Char} {source : Path} {fingerprint optionsKey : Bytes}
    (h : c ∈ identityOf source fingerprint optionsKey) : IsWord c := by
  have hleading : leading.all isSafe = true := by decide
  have hkey : ∀ {digits : Nat} {g : ContentHash}, c ∈ g.short digits → IsWord c := fun hc =>
    isWord_of_isHexDigit (ContentHash.isHexDigit_of_mem_short hc)
  simp only [identityOf, List.mem_append, List.mem_cons, List.not_mem_nil, or_false] at h
  rcases h with ((((h | h | h) | h | h) | h | h) | h | h) | h
  · exact isWord_of_all hleading h
  · exact .inr h
  · exact isWord_of_mem_parentPart h
  · exact .inr h
  · exact isWord_of_mem_stemPart h
  · exact .inr h
  · exact hkey h
  · exact .inr h
  · exact hkey h
  · exact .inr h

/-! ## Reading a file name -/

/-- A name that a call can give to an artifact: it stays in words outside its one dot. -/
structure IsWorded (n : ArtifactName) : Prop where
  identity : ∀ c ∈ n.identity, IsWord c
  extension : ∀ c ∈ n.extension, IsWord c

theorem isWorded_forSource (source : Path) (fingerprint optionsKey contents : Bytes) :
    (forSource source fingerprint optionsKey contents).IsWorded :=
  ⟨fun _ h => isWord_of_mem_identityOf h, fun _ h => isWord_of_mem_extensionPart h⟩

/-- What stands before the dot, with any digits in the place of the content key. -/
theorem IsWorded.isWord_of_mem_front {n : ArtifactName} (h : n.IsWorded) {key : List Char}
    (hkey : ∀ c ∈ key, isHexDigit c = true) {c : Char} (hc : c ∈ n.identity ++ key) :
    IsWord c := by
  rcases List.mem_append.mp hc with hc | hc
  · exact h.identity c hc
  · exact isWord_of_isHexDigit (hkey c hc)

theorem IsWorded.dot_not_mem {n : ArtifactName} (h : n.IsWorded) {key : List Char}
    (hkey : ∀ c ∈ key, isHexDigit c = true) : '.' ∉ n.identity ++ key :=
  fun hmem => (h.isWord_of_mem_front hkey hmem).ne_dot rfl

theorem isHexDigit_contentKey (n : ArtifactName) : ∀ c ∈ n.contentKey.text, isHexDigit c = true :=
  fun _ hc => ContentHash.isHexDigit_of_mem_text hc

/-- A file name belongs to one artifact. -/
theorem fileName_injective {a b : ArtifactName} (ha : a.IsWorded) (hb : b.IsWorded)
    (h : a.fileName = b.fileName) : a = b := by
  obtain ⟨hfront, hext⟩ := Runs.eq_of_append_cons_eq (ha.dot_not_mem a.isHexDigit_contentKey)
    (hb.dot_not_mem b.isHexDigit_contentKey) h
  -- the content keys have the same length, so what is left of the fronts are the identities
  obtain ⟨hidentity, htext⟩ := List.append_inj' hfront (by simp)
  obtain ⟨identity, key, ext⟩ := a
  obtain ⟨identity', key', ext'⟩ := b
  cases hidentity
  cases ContentHash.text_injective htext
  cases hext
  rfl

theorem after?_eq_some_iff {beginning text rest : List Char} :
    after? beginning text = some rest ↔ text = beginning ++ rest := by
  induction beginning generalizing text with
  | nil => simp [after?, eq_comm]
  | cons c more ih =>
      cases text with
      | nil => simp [after?]
      | cons d text =>
          by_cases hcd : c = d
          · simp [after?, hcd, ih]
          · simp [after?, hcd, Ne.symm hcd]

/-- The siblings of an artifact are its file name with any 32 digits for its content key. -/
theorem isSibling_iff {n : ArtifactName} {text : List Char} :
    n.isSibling text = true ↔ ∃ key, key.length = 32 ∧ (∀ c ∈ key, isHexDigit c = true) ∧
      text = n.identity ++ key ++ '.' :: n.extension := by
  have hdot : ∀ key : List Char, (∀ c ∈ key, isHexDigit c = true) →
      ∀ c ∈ key, (c != '.') = true := fun key hkey c hc => by
    simpa using (isWord_of_isHexDigit (hkey c hc)).ne_dot
  unfold isSibling
  constructor
  · intro h
    split at h
    · cases h
    · rename_i rest hrest
      simp only [Bool.and_eq_true, beq_iff_eq, List.all_eq_true] at h
      obtain ⟨⟨hlen, hall⟩, hend⟩ := h
      refine ⟨rest.takeWhile (· != '.'), hlen, hall, ?_⟩
      rw [after?_eq_some_iff.mp hrest, List.append_assoc, ← hend, List.takeWhile_append_dropWhile]
  · rintro ⟨key, hlen, hall, rfl⟩
    rw [List.append_assoc, after?_eq_some_iff.mpr rfl]
    have htake : (key ++ '.' :: n.extension).takeWhile (· != '.') = key := by
      rw [List.takeWhile_append_of_pos (hdot key hall)]
      simp
    have hdrop : (key ++ '.' :: n.extension).dropWhile (· != '.') = '.' :: n.extension := by
      rw [List.dropWhile_append_of_pos (hdot key hall)]
      simp
    dsimp only
    rw [htake, hdrop]
    simpa [hlen] using hall

/-- Artifacts are siblings when they share identity and extension. -/
theorem isSibling_fileName_iff {a b : ArtifactName} (ha : a.IsWorded) (hb : b.IsWorded) :
    a.isSibling b.fileName = true ↔ a.identity = b.identity ∧ a.extension = b.extension := by
  rw [isSibling_iff]
  constructor
  · rintro ⟨key, hlen, hall, h⟩
    obtain ⟨hfront, hext⟩ := Runs.eq_of_append_cons_eq (hb.dot_not_mem b.isHexDigit_contentKey)
      (ha.dot_not_mem hall) h
    obtain ⟨hidentity, -⟩ := List.append_inj' hfront (by simp [hlen])
    exact ⟨hidentity.symm, hext.symm⟩
  · rintro ⟨hidentity, hext⟩
    exact ⟨b.contentKey.text, by simp, b.isHexDigit_contentKey, by
      rw [hidentity, hext, fileName]⟩

theorem length_pathKey (source : Path) : (pathKey source).length = 16 :=
  ContentHash.length_short (by decide)

theorem length_variantKey (fingerprint optionsKey : Bytes) :
    ((variantHash fingerprint optionsKey).short variantKeyLength).length = 8 :=
  ContentHash.length_short (by decide)

/-- An identity determines the two keys at its end. -/
theorem keys_of_identity {source source' : Path}
    {fingerprint optionsKey fingerprint' optionsKey' : Bytes}
    (h : identityOf source fingerprint optionsKey = identityOf source' fingerprint' optionsKey') :
    pathKey source = pathKey source' ∧
      (variantHash fingerprint optionsKey).short variantKeyLength =
        (variantHash fingerprint' optionsKey').short variantKeyLength := by
  unfold identityOf at h
  -- both keys have fixed lengths, so they are peeled off from the right
  obtain ⟨hrest, -⟩ := List.append_inj' h rfl
  obtain ⟨hrest, hkey⟩ := List.append_inj' hrest (by simp [length_variantKey])
  obtain ⟨-, hpathKey⟩ := List.append_inj' hrest (by simp [length_pathKey])
  exact ⟨by simpa using hpathKey, by simpa using hkey⟩

/-! ## Families -/

/-- All that an artifact gets its name from. -/
structure Ingredients where
  source : Path
  fingerprint : Bytes
  optionsKey : Bytes
  contents : Bytes

namespace Ingredients

def name (i : Ingredients) : ArtifactName :=
  forSource i.source i.fingerprint i.optionsKey i.contents

/-- The digits for transform and options. -/
def variantKey (i : Ingredients) : List Char :=
  (variantHash i.fingerprint i.optionsKey).short variantKeyLength

theorem isWorded_name (i : Ingredients) : i.name.IsWorded := isWorded_forSource ..

/-- An artifact takes the file of another for that of a sibling. -/
def Recognizes (i j : Ingredients) : Prop := i.name.isSibling j.name.fileName = true

theorem recognizes_iff {i j : Ingredients} :
    i.Recognizes j ↔ i.name.identity = j.name.identity ∧ i.name.extension = j.name.extension :=
  isSibling_fileName_iff i.isWorded_name j.isWorded_name

theorem equivalence_recognizes : Equivalence Recognizes where
  refl i := recognizes_iff.mpr ⟨rfl, rfl⟩
  symm h := by
    obtain ⟨hidentity, hextension⟩ := recognizes_iff.mp h
    exact recognizes_iff.mpr ⟨hidentity.symm, hextension.symm⟩
  trans h h' := by
    obtain ⟨hidentity, hextension⟩ := recognizes_iff.mp h
    obtain ⟨hidentity', hextension'⟩ := recognizes_iff.mp h'
    exact recognizes_iff.mpr ⟨hidentity.trans hidentity', hextension.trans hextension'⟩

/-- **A file name is read in one way.** It belongs to one artifact. Artifacts recognize each other
exactly when they have identity and extension in common, so they fall into families. And the two
keys, of 16 and of 8 digits, are the same throughout a family, although the parts before them have
no fixed length and may look like other names. -/
theorem file_names_readable :
    (∀ i j : Ingredients,
      (i.name.fileName = j.name.fileName ↔ i.name = j.name) ∧
      (i.name.isSibling j.name.fileName = true ↔
        i.name.identity = j.name.identity ∧ i.name.extension = j.name.extension) ∧
      (i.name.identity = j.name.identity →
        pathKey i.source = pathKey j.source ∧ i.variantKey = j.variantKey)) ∧
    (Equivalence fun i j : Ingredients => i.name.isSibling j.name.fileName = true) ∧
    ∀ i : Ingredients, (pathKey i.source).length = 16 ∧ i.variantKey.length = 8 ∧
      ∀ c ∈ pathKey i.source ++ i.variantKey, isHexDigit c = true := by
  refine ⟨fun i j => ⟨⟨fun h => ?_, fun h => by rw [h]⟩, recognizes_iff, keys_of_identity⟩,
    equivalence_recognizes, fun i => ⟨length_pathKey _, length_variantKey _ _, fun c hc => ?_⟩⟩
  · exact fileName_injective i.isWorded_name j.isWorded_name h
  · rcases List.mem_append.mp hc with hc | hc
    · exact ContentHash.isHexDigit_of_mem_short hc
    · exact ContentHash.isHexDigit_of_mem_short hc

end Ingredients

/-- Only the keys tell these two sources apart. -/
example : parentPart (.ofString "/a_b/c") ++ '_' :: stemPart (.ofString "/a_b/c") =
    parentPart (.ofString "/a/b_c") ++ '_' :: stemPart (.ofString "/a/b_c") := by
  decide

/-! ## Names of files -/

/-- The beginning of an artifact's name, by which everyone can tell it. -/
def reservedStart : Name := Utf8.ofString "template_"

/-- A name that is kept for artifacts. -/
def Reserved (name : Name) : Prop := reservedStart <+: name

instance (name : Name) : Decidable (Reserved name) :=
  inferInstanceAs (Decidable (reservedStart <+: name))

theorem reserved_encode {text : List Char} (h : leading ++ ['_'] <+: text) :
    Reserved (Utf8.encode text) := by
  obtain ⟨rest, rfl⟩ := h
  have hstart : reservedStart = Utf8.encode (leading ++ ['_']) := by decide
  rw [Utf8.encode_append, ← hstart]
  exact List.prefix_append _ _

theorem leading_isPrefix_identityOf (source : Path) (fingerprint optionsKey : Bytes) :
    leading ++ ['_'] <+: identityOf source fingerprint optionsKey := by
  refine ⟨parentPart source ++ '_' :: stemPart source ++ '_' :: pathKey source
    ++ '_' :: (variantHash fingerprint optionsKey).short variantKeyLength ++ ['_'], ?_⟩
  simp [identityOf]

theorem reserved_entryName (source : Path) (fingerprint optionsKey contents : Bytes) :
    Reserved (forSource source fingerprint optionsKey contents).entryName := by
  refine reserved_encode ((leading_isPrefix_identityOf source fingerprint optionsKey).trans ?_)
  exact ⟨_, (List.append_assoc _ _ _).symm⟩

/-- Whatever pruning may remove has such a name. -/
theorem reserved_of_isSibling {source : Path} {fingerprint optionsKey contents : Bytes}
    {text : List Char}
    (h : (forSource source fingerprint optionsKey contents).isSibling text = true) :
    Reserved (Utf8.encode text) := by
  obtain ⟨key, -, -, rfl⟩ := isSibling_iff.mp h
  refine reserved_encode ((leading_isPrefix_identityOf source fingerprint optionsKey).trans ?_)
  exact ⟨_, (List.append_assoc _ _ _).symm⟩

theorem reserved_of_isOther {source : Path} {fingerprint optionsKey contents : Bytes}
    {name : Name}
    (h : Store.isOther (forSource source fingerprint optionsKey contents) name = true) :
    Reserved name := by
  unfold Store.isOther at h
  split at h
  · cases h
  · rename_i text htext
    rw [Bool.and_eq_true] at h
    rw [← Utf8.encode_of_decode? htext]
    exact reserved_of_isSibling h.2

theorem slash_not_mem_fileName {n : ArtifactName} (h : n.IsWorded) : '/' ∉ n.fileName := by
  intro hmem
  rcases List.mem_append.mp hmem with hmem | hmem
  · exact (h.isWord_of_mem_front n.isHexDigit_contentKey hmem).ne_slash rfl
  · rcases List.mem_cons.mp hmem with hmem | hmem
    · exact absurd hmem (by decide)
    · exact (h.extension _ hmem).ne_slash rfl

theorem reserved_ne_temporaryName {name : Name} (h : Reserved name) (k : Nat) :
    FileSystem.temporaryName k ≠ name := by
  rintro rfl
  obtain ⟨rest, hrest⟩ := h
  -- the one begins with a letter, the other with a dot
  have hhead := congrArg List.head? hrest
  have hreserved : (reservedStart ++ rest).head? = some 116 := by
    have hstart : reservedStart = 116 :: reservedStart.tail := by decide
    rw [hstart]
    rfl
  have htemporary : (FileSystem.temporaryName k).head? = some 46 := by
    have hdot : ".tmp".toList = '.' :: ['t', 'm', 'p'] := by decide
    unfold FileSystem.temporaryName
    rw [hdot]
    rfl
  rw [hreserved, htemporary] at hhead
  exact absurd hhead (by decide)

theorem isProper_forSource (source : Path) (fingerprint optionsKey contents : Bytes) :
    (forSource source fingerprint optionsKey contents).IsProper := by
  refine ⟨Name.isPlain_encode (slash_not_mem_fileName (isWorded_forSource ..)) ?_, fun k => ?_⟩
  · have hlen : (forSource source fingerprint optionsKey contents).contentKey.text.length = 32 :=
      ContentHash.length_text _
    simp only [fileName, List.length_append, hlen]
    omega
  · exact reserved_ne_temporaryName (reserved_entryName ..) k

theorem entryName_injective {a b : ArtifactName} (ha : a.IsWorded) (hb : b.IsWorded)
    (h : a.entryName = b.entryName) : a = b :=
  fileName_injective ha hb (Utf8.encode_injective h)

/-! ## A source and its artifacts -/

/-- A name is cut at its last dot. -/
theorem cut?_of_not_mem {front ext : Bytes} (hfront : front ≠ []) (hext : Path.dot ∉ ext) :
    Path.cut? (front ++ Path.dot :: ext) = some (front, ext) := by
  have hpos : ∀ b ∈ ext.reverse, (b != Path.dot) = true := fun b hb => by
    have hne : b ≠ Path.dot := fun e => hext (e ▸ List.mem_reverse.mp hb)
    simpa using hne
  have hafter : ((front ++ Path.dot :: ext).reverse.takeWhile (· != Path.dot)).reverse = ext := by
    rw [List.reverse_append, List.reverse_cons, List.append_assoc,
      List.takeWhile_append_of_pos hpos]
    simp
  unfold Path.cut?
  rw [hafter]
  have hlen : (front ++ Path.dot :: ext).length - ext.length - 1 = front.length := by
    simp only [List.length_append, List.length_cons]
    omega
  simp only [hlen, List.take_left, ne_eq, hfront, not_false_eq_true, and_true]
  rw [if_pos (by simp only [List.length_append, List.length_cons]; omega)]

theorem decodeLenient_encode (text : List Char) :
    Utf8.decodeLenient (Utf8.encode text) = text := by
  unfold Utf8.decodeLenient
  rw [Utf8.pieces_encode, List.map_map]
  exact List.map_id text

/-- Neither an artifact nor a sibling of it has the source's name, for the stem of that name is a
part of theirs. -/
theorem encode_ne_fileName {source : Path} {name : Name} (h : source.fileName? = some name)
    {fingerprint optionsKey contents : Bytes} {text : List Char}
    (hsibling : (forSource source fingerprint optionsKey contents).isSibling text = true) :
    Utf8.encode text ≠ name := by
  rintro rfl
  generalize hn : forSource source fingerprint optionsKey contents = n at hsibling
  have hworded : n.IsWorded := hn ▸ isWorded_forSource ..
  obtain ⟨key, hkey, -, rfl⟩ := isSibling_iff.mp hsibling
  have hsplit : Utf8.encode (n.identity ++ key ++ '.' :: n.extension) =
      Utf8.encode (n.identity ++ key) ++ Path.dot :: Utf8.encode n.extension := by
    have hdot : Utf8.encodeChar '.' = [Path.dot] := by decide
    rw [Utf8.encode_append]
    simp [Utf8.encode, hdot]
  have hext : Path.dot ∉ Utf8.encode n.extension := by
    intro hmem
    have hmem := (Utf8.ofNat_mem_encode_iff (a := '.') (by decide)).mp hmem
    exact (hworded.extension _ hmem).ne_dot rfl
  have hlen : 32 ≤ (n.identity ++ key).length := by
    rw [List.length_append]
    omega
  have hfront : Utf8.encode (n.identity ++ key) ≠ [] := by
    intro e
    have hle := Utf8.length_le_encode (n.identity ++ key)
    rw [e, List.length_nil] at hle
    omega
  -- as the source's stem it would be longer than the identity that it is a part of
  have hstem : (stemPart source).length = n.identity.length + 32 := by
    unfold stemPart Path.stem?
    rw [h, Option.map_some, hsplit, cut?_of_not_mem hfront hext]
    simp [sanitizeBytes, sanitize, decodeLenient_encode, hkey]
  have hidentity : (stemPart source).length ≤ n.identity.length := by
    rw [← hn]
    simp only [forSource, identityOf, List.length_append, List.length_cons]
    omega
  omega

/-- No artifact has its source's name. -/
theorem entryName_ne_fileName {source : Path} {name : Name} (h : source.fileName? = some name)
    (fingerprint optionsKey contents : Bytes) :
    (forSource source fingerprint optionsKey contents).entryName ≠ name := by
  have hworded := isWorded_forSource source fingerprint optionsKey contents
  exact encode_ne_fileName h ((isSibling_fileName_iff hworded hworded).mpr ⟨rfl, rfl⟩)

end ArtifactName

end TemplateCache
