import TemplateCache.Proofs.Artifact.Siblings
import TemplateCache.Proofs.Compiler.Frame
import TemplateCache.Proofs.FileSystem.Reading

/-!
# A call spares its source

A source may stand in the very directory that its artifact goes to, and its name may be that of an
artifact, keys and all. It is neither replaced nor removed, whatever the times are. The reason is in
the names. An artifact's name holds the stem of its source's name and then more, and so do the names
of its siblings, so none of them is the name of the source. Main statement:
`template_spares_source`.
-/

namespace TemplateCache

open FileSystem

namespace ArtifactName

/-- No sibling has the name of the source. -/
theorem isSibling_fileName?_eq_false {source : Path} {name : Name}
    (h : source.fileName? = some name) (fingerprint optionsKey contents : Bytes)
    {text : List Char} (htext : Utf8.decode? name = some text) :
    (forSource source fingerprint optionsKey contents).isSibling text = false := by
  rw [← Bool.not_eq_true]
  intro hsibling
  exact encode_ne_fileName h hsibling (Utf8.encode_of_decode? htext)

/-- So pruning does not look at it. -/
theorem isOther_fileName?_eq_false {source : Path} {name : Name}
    (h : source.fileName? = some name) (fingerprint optionsKey contents : Bytes) :
    Store.isOther (forSource source fingerprint optionsKey contents) name = false := by
  rw [← Bool.not_eq_true]
  intro hother
  obtain ⟨text, rfl, -, hsibling⟩ := spelt_of_isOther (isWorded_forSource ..) hother
  exact encode_ne_fileName h hsibling rfl

end ArtifactName

namespace Compiler

variable {c : Compiler} {source : Path} {o : Options} {m : Machine} {l : Location} {node : Node}

/-- What is written is not where the source is. -/
theorem MayWrite.ne_source {out : Bytes} (h : c.MayWrite source o m l out) :
    m.system.canonical source ≠ .ok (Location.path l) := by
  obtain ⟨contents, canonical, _, _, dir, hworks, hl, -⟩ := h
  intro hcanonical
  cases hworks.arrival.canonical.symm.trans hcanonical
  exact entryName_ne_of_path rfl hl

/-- And neither is what is removed. -/
theorem MayRemove.ne_source (h : c.MayRemove source o m l node) :
    m.system.canonical source ≠ .ok (Location.path l) := by
  obtain ⟨contents, canonical, _, _, dir, name, _, hworks, hl, hother, -⟩ := h
  intro hcanonical
  cases hworks.arrival.canonical.symm.trans hcanonical
  obtain ⟨text, rfl, -, hsibling⟩ :=
    ArtifactName.spelt_of_isOther (ArtifactName.isWorded_forSource ..) hother
  exact ArtifactName.ne_cons_of_isSibling hsibling dir hl

/-- What the canonical path of the source names stays, to the last byte. -/
theorem Framed.source_kept {after : FileSystem} (h : c.Framed source o m after)
    (hcanonical : m.system.canonical source = .ok (Location.path l))
    (hnode : m.system.disk.get? l = some node) (hdir : node.isDirectory = false) :
    after.disk.get? l = some node := by
  rcases h.kept l node hnode with
    ⟨node', hnode', hlike⟩ | ⟨-, ⟨out, hwrite, -⟩ | ⟨hremove, -⟩⟩
  · rw [hnode', ← hlike.eq_of_not_directory hdir]
  · exact absurd hcanonical hwrite.ne_source
  · exact absurd hcanonical hremove.ne_source

/-- **A call spares its source.** Whatever bytes the source's name has, it is not the name that is
computed for the artifact, and no sibling of that. So whatever the call is and however it ends, what
the source's canonical path leads to is the same file afterwards, with its bytes, its time and its
mode. -/
theorem template_spares_source :
    (∀ (i : ArtifactName.Ingredients) (name : Name), i.source.fileName? = some name →
      i.name.entryName ≠ name ∧
      (∀ text, Utf8.decode? name = some text →
        i.name.fileName ≠ text ∧ i.name.isSibling text = false) ∧
      Store.isOther i.name name = false) ∧
    ∀ (c : Compiler) (source : Path) (o : Options) (m : Machine) (canonical : Path)
      (l : Location) (node : Node), m.system.Sound → m.system.canonical source = .ok canonical →
      m.system.follow source = .ok (.node l node) → node.isDirectory = false →
      let after := ((c.template source o).run Machine.answer m).2.system
      canonical = Location.path l ∧ after.disk.get? l = some node ∧
      ∀ spot, after.follow canonical = .ok spot ↔ m.system.follow canonical = .ok spot := by
  refine ⟨fun i name hname => ?_, fun c source o m canonical l node hm hcanonical hfollow hdir => ?_⟩
  · have hentry := ArtifactName.entryName_ne_fileName hname i.fingerprint i.optionsKey i.contents
    refine ⟨hentry, fun text htext => ⟨?_, ?_⟩, ?_⟩
    · rintro rfl
      exact hentry (Utf8.encode_of_decode? htext)
    · exact ArtifactName.isSibling_fileName?_eq_false hname _ _ _ htext
    · exact ArtifactName.isOther_fileName?_eq_false hname _ _ _
  · obtain ⟨l', node', hfollow', rfl⟩ := canonical_eq_ok hcanonical
    cases hfollow.symm.trans hfollow'
    have hframed := (template_frame c source o m hm).1
    have hnode := (follow_eq_ok_iff.mp hfollow).2.get?
    have hkept := hframed.source_kept hcanonical hnode hdir
    have hleaf := leadsOn_of_follow hm hfollow hdir
    refine ⟨rfl, hkept, fun spot => ?_⟩
    rw [follow_path_iff hframed.sound hkept hleaf, follow_path_iff hm hnode hleaf]

/-! ### An artifact as a source -/

/-- An artifact in `/out`, of a source there. -/
def firstArtifact : ArtifactName :=
  .forSource (.ofString "/out/a.html") (Utf8.ofString "identity/1") [] [1, 2, 3]

/-- A directory with this artifact in it, which is older than everything else. -/
def outMachine : Machine where
  system := ⟨⟨[([], .directory ⟨0, 0⟩), ([Utf8.ofString "out"], .directory ⟨0, 0⟩),
    ([firstArtifact.entryName, Utf8.ofString "out"], .file [1, 2, 3] ⟨1, 0⟩ fileMode)], by simp⟩,
    .inside [Utf8.ofString "out"], ⟨8, 0⟩, none, 0⟩
  held := none
  events := []

/-- What an artifact's name is made of when an artifact is the source. -/
def secondIngredients : ArtifactName.Ingredients where
  source := Location.path [firstArtifact.entryName, Utf8.ofString "out"]
  fingerprint := Utf8.ofString "identity/1"
  optionsKey := []
  contents := [1, 2, 3]

/-- The artifact is compiled into its own directory, and is still there. -/
theorem template_spares_source_artifact :
    ArtifactName.Reserved firstArtifact.entryName ∧
    secondIngredients.name.entryName ≠ firstArtifact.entryName ∧
    (((under .environment (.ofString "mails")).template ⟨firstArtifact.entryName⟩
      (Options.none.withDestination (.ofString "."))).run Machine.answer outMachine).1 =
        .ok ((⟨.ofString "/out"⟩ : Store).artifactPath secondIngredients.name) ∧
    (((under .environment (.ofString "mails")).template ⟨firstArtifact.entryName⟩
      (Options.none.withDestination (.ofString "."))).run Machine.answer
        outMachine).2.system.disk.get? [firstArtifact.entryName, Utf8.ofString "out"] =
      some (.file [1, 2, 3] ⟨1, 0⟩ fileMode) := by
  have hsound : outMachine.system.Sound :=
    ⟨Disk.isTree_of_hangs (by decide +kernel) (by decide +kernel), ⟨⟨0, 0⟩, by decide +kernel⟩⟩
  obtain ⟨hnames, hspared⟩ := template_spares_source
  refine ⟨by decide +kernel, (hnames secondIngredients _ (by decide +kernel)).1,
    by decide +kernel, ?_⟩
  exact (hspared (under .environment (.ofString "mails")) ⟨firstArtifact.entryName⟩
    (Options.none.withDestination (.ofString ".")) outMachine secondIngredients.source _
    (.file [1, 2, 3] ⟨1, 0⟩ fileMode) hsound (by decide +kernel) (by decide +kernel) rfl).2.1

end Compiler

end TemplateCache
