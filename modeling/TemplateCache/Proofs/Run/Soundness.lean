import TemplateCache.Proofs.Hash.Frame
import TemplateCache.Proofs.Run.Basic

/-!
# The cache never lies

A call that finds its artifact answers with a file that somebody else may have written, in another
call, for another source or by another transform. That the file is right all the same is an
invariant of runs: every file under an artifact's name was made by an earlier call that got this
very name for its artifact (`Genuine`). The name holds the digest of everything the artifact is
made from, so calls that got the same name would have made the same file.

The invariant is about names and bytes only, not about places: artifacts may be moved, removed,
dated and copied under their names as anybody likes. Main statement: `template_returns_output`.
-/

namespace TemplateCache

open FileSystem

/-! ## What may happen between calls -/

/-- No file and no link has a name that is kept for artifacts. -/
def FileSystem.Fresh (s : FileSystem) : Prop :=
  s.NoReservedLinks ∧ ∀ name dir data t mode, ArtifactName.Reserved name →
    s.disk.get? (name :: dir) ≠ some (.file data t mode)

/-- Being fresh can be checked name by name. -/
theorem FileSystem.fresh_of_names {s : FileSystem} (h : s.disk.nodes.all fun entry =>
    entry.1.head?.all fun name => !ArtifactName.reservedStart.isPrefixOf name) : s.Fresh := by
  have hnone : ∀ name dir, ArtifactName.Reserved name → s.disk.get? (name :: dir) = none := by
    intro name dir hname
    cases hn : s.disk.get? (name :: dir) with
    | none => rfl
    | some n =>
        have hentry := List.all_eq_true.mp h _ ((s.disk.get?_eq_some_iff _ _).mp hn)
        rw [List.head?_cons, Option.all_some, List.isPrefixOf_iff_prefix.mpr hname] at hentry
        cases hentry
  refine ⟨fun name dir target t hname hlink => ?_, fun name dir data t mode hname hfile => ?_⟩
  · rw [hnone name dir hname] at hlink
    cases hlink
  · rw [hnone name dir hname] at hfile
    cases hfile

/-- An edit that puts neither bytes nor links under an artifact's name. What stands under such a
name afterwards stood under it before, be it elsewhere, at another time or with another mode. -/
structure FileSystem.SparesArtifacts (s s' : FileSystem) : Prop where
  sound : s'.Sound
  links : s'.NoReservedLinks
  files : ∀ name dir data t mode, ArtifactName.Reserved name →
    s'.disk.get? (name :: dir) = some (.file data t mode) →
    ∃ dir' t' mode', s.disk.get? (name :: dir') = some (.file data t' mode')

/-! ## What is assumed of transforms and digests -/

namespace Record

/-- The parts that are hashed for an artifact's content key. -/
def contentParts (r : Record) (contents : Bytes) : List Bytes :=
  [Utf8.ofString r.call.compiler.transform.fingerprint, Utf8.encode r.call.options.transformKey,
    contents]

/-- The frame that a call hashes for the content key of its artifact. -/
def Hashes (r : Record) (input : Bytes) : Prop :=
  ∃ contents canonical store opened, r.Arrived contents canonical store opened ∧
    input = ContentHash.frame (r.contentParts contents)

theorem Hashes.eq_frame {r : Record} {contents : Bytes}
    (hcontents : r.before.system.contents r.call.source = .ok contents) {input : Bytes}
    (h : r.Hashes input) : input = ContentHash.frame (r.contentParts contents) := by
  obtain ⟨contents', canonical, store, opened, harrived, hinput⟩ := h
  cases harrived.contents.symm.trans hcontents
  exact hinput

end Record

/-- Transforms with the same fingerprint are the same function of contents and options key. -/
def SameFunctions (history : List Record) : Prop :=
  ∃ f : String → Bytes → List Char → Except CompileError Bytes, ∀ r ∈ history, ∀ contents,
    r.call.compiler.transform.apply contents r.call.options =
      f r.call.compiler.transform.fingerprint contents r.call.options.transformKey

/-- Different frames that were hashed have different digests. -/
def DistinctDigests (history : List Record) : Prop :=
  ∀ r ∈ history, ∀ r' ∈ history, ∀ a b, r.Hashes a → r'.Hashes b →
    ContentHash.ofBytes a = ContentHash.ofBytes b → a = b

/-- Whatever is hashed is short enough for its length to be written in eight bytes. -/
def Fitting (history : List Record) : Prop :=
  ∀ r ∈ history, ∀ contents, r.before.system.contents r.call.source = .ok contents →
    ∀ part ∈ r.contentParts contents, ContentHash.Fits part

section Reads

/-- All calls read the same contents. -/
def Reads (history : List Record) (contents : Bytes) : Prop :=
  ∀ r ∈ history, r.before.system.contents r.call.source = .ok contents

variable {history : List Record} {contents : Bytes}

/-- What calls hash is known if it is known what they read. -/
theorem Reads.distinctDigests (h : Reads history contents)
    (hdistinct : ∀ r ∈ history, ∀ r' ∈ history,
      ContentHash.ofParts (r.contentParts contents) =
        ContentHash.ofParts (r'.contentParts contents) →
      r.contentParts contents = r'.contentParts contents) :
    DistinctDigests history := by
  intro r hr r' hr' a b ha hb hsame
  rw [ha.eq_frame (h r hr), hb.eq_frame (h r' hr')] at hsame ⊢
  rw [hdistinct r hr r' hr' hsame]

theorem Reads.fitting (h : Reads history contents)
    (hfits : ∀ r ∈ history, ∀ part ∈ r.contentParts contents, part.length < 2 ^ 64) :
    Fitting history := by
  intro r hr contents' hcontents part hpart
  cases hcontents.symm.trans (h r hr)
  exact hfits r hr part hpart

end Reads

/-! ## The invariant -/

namespace Record

/-- A call got a name for its artifact and made these bytes of its source. -/
def Made (r : Record) (name : Name) (out : Bytes) : Prop :=
  ∃ contents canonical store opened, r.Arrived contents canonical store opened ∧
    name = (r.nameOf canonical contents).entryName ∧
    r.call.compiler.transform.apply contents r.call.options = .ok out

end Record

/-- Every file under an artifact's name was made by a call that got this name. -/
def Genuine (history : List Record) (s : FileSystem) : Prop :=
  ∀ name dir out t mode, ArtifactName.Reserved name →
    s.disk.get? (name :: dir) = some (.file out t mode) → ∃ r ∈ history, r.Made name out

/-- A call keeps genuine what is genuine, whatever its result. -/
theorem genuine_call {history : List Record} {w : World} (hw : w.system.Sound)
    (h : Genuine history w.system) (call : Call) :
    Genuine (w.record call :: history) (w.afterCall call).system := by
  have hframed := Record.framed hw call
  have hmade : ∀ {name : Name} {dir : Location} {out : Bytes},
      call.compiler.MayWrite call.source call.options (w.machine call.cell) (name :: dir) out →
      (w.record call).Made name out := by
    rintro name dir out ⟨contents, canonical, store, opened, _, hworks, hl, happly, -, -⟩
    injection hl with hname _
    exact ⟨contents, canonical, store, opened, hworks.arrival, hname, happly⟩
  intro name dir out t mode hname hfile
  cases hbefore : w.system.disk.get? (name :: dir) with
  | none =>
      rcases hframed.added _ _ hbefore hfile with ⟨out', hwrite, heq⟩ | ⟨-, hdir⟩
      · cases heq
        exact ⟨_, List.mem_cons_self, hmade hwrite⟩
      · cases hdir
  | some node =>
      rcases hframed.kept _ _ hbefore with ⟨node', hnode', hlike⟩ |
        ⟨-, ⟨out', hwrite, hout⟩ | ⟨-, hgone⟩⟩
      -- a file that the call left alone was genuine before it
      · have heq := hnode'.symm.trans hfile
        cases heq
        cases hlike.symm.eq_of_not_directory rfl
        obtain ⟨r, hr, hrmade⟩ := h name dir out t mode hname hbefore
        exact ⟨r, List.mem_cons_of_mem _ hr, hrmade⟩
      · have heq := hout.symm.trans hfile
        cases heq
        exact ⟨_, List.mem_cons_self, hmade hwrite⟩
      · have heq := hgone.symm.trans hfile
        cases heq

theorem genuine_edit {history : List Record} {s s' : FileSystem} (h : Genuine history s)
    (hedit : s.SparesArtifacts s') : Genuine history s' := by
  intro name dir out t mode hname hfile
  obtain ⟨dir', t', mode', hbefore⟩ := hedit.files name dir out t mode hname hfile
  exact h name dir' out t' mode' hname hbefore

/-! ## Names decide contents -/

/-- Calls that gave one name to their artifacts hashed the same for it. -/
theorem contentParts_of_name {history : List Record} (hdigests : DistinctDigests history)
    (hfitting : Fitting history) {r r' : Record} (hr : r ∈ history) (hr' : r' ∈ history)
    {contents contents' : Bytes} {canonical canonical' : Path} {store store' : Store}
    {opened opened' : FileSystem} (harrived : r.Arrived contents canonical store opened)
    (harrived' : r'.Arrived contents' canonical' store' opened')
    (hname : (r.nameOf canonical contents).entryName = (r'.nameOf canonical' contents').entryName) :
    r.contentParts contents = r'.contentParts contents' := by
  have hsame := ArtifactName.entryName_injective (ArtifactName.isWorded_forSource ..)
    (ArtifactName.isWorded_forSource ..) hname
  -- of the three keys in a name only this one is a digest in full
  have hkey : ContentHash.ofParts (r.contentParts contents) =
      ContentHash.ofParts (r'.contentParts contents') := congrArg ArtifactName.contentKey hsame
  have hframe := hdigests r hr r' hr' _ _
    ⟨contents, canonical, store, opened, harrived, rfl⟩
    ⟨contents', canonical', store', opened', harrived', rfl⟩ hkey
  exact ContentHash.frame_injective (hfitting r hr contents harrived.contents)
    (hfitting r' hr' contents' harrived'.contents) hframe

/-- Calls that gave one name to their artifacts had the same to make them from. -/
theorem output_of_name {history : List Record} (hfunctions : SameFunctions history)
    (hdigests : DistinctDigests history) (hfitting : Fitting history) {r r' : Record}
    (hr : r ∈ history) (hr' : r' ∈ history) {contents : Bytes} {canonical : Path}
    {store : Store} {opened : FileSystem} (harrived : r.Arrived contents canonical store opened)
    {out : Bytes} (hmade : r'.Made (r.nameOf canonical contents).entryName out) :
    r.call.compiler.transform.apply contents r.call.options = .ok out := by
  obtain ⟨contents', canonical', store', opened', harrived', hname, happly⟩ := hmade
  have hparts := contentParts_of_name hdigests hfitting hr hr' harrived harrived' hname
  simp only [Record.contentParts, List.cons.injEq, and_true] at hparts
  obtain ⟨hfingerprint, hoptions, hcontents⟩ := hparts
  obtain ⟨f, hf⟩ := hfunctions
  rw [hf r hr, Utf8.ofString_injective hfingerprint, Utf8.encode_injective hoptions, hcontents,
    ← hf r' hr', happly]

/-! ## Answers -/

/-- A call answered with a regular file that holds what its transform makes of the contents it read
and its options. -/
def Record.AnswersOutput (r : Record) (p : Path) : Prop :=
  ∃ contents out l t mode, r.before.system.contents r.call.source = .ok contents ∧
    r.call.compiler.transform.apply contents r.call.options = .ok out ∧
    r.after.system.entry p = .ok (.node l (.file out t mode)) ∧
    r.after.system.contents p = .ok out

/-- The step: where every artifact is genuine, a call that succeeds answers with its output. -/
theorem answersOutput_call {history : List Record} {w : World} {call : Call}
    (hw : w.system.Sound) (hno : w.system.NoReservedLinks) (hgenuine : Genuine history w.system)
    (hfunctions : SameFunctions (w.record call :: history))
    (hdigests : DistinctDigests (w.record call :: history))
    (hfitting : Fitting (w.record call :: history)) {p : Path}
    (hp : (w.record call).result = .ok p) : (w.record call).AnswersOutput p := by
  obtain ⟨contents, canonical, store, dir, data, t, mode, hstored⟩ := stored_of_ok hw hno hp
  obtain ⟨opened, harrived⟩ := hstored.arrived
  have hplain : Name.IsPlain ((w.record call).nameOf canonical contents).entryName :=
    (Compiler.isProper_artifactName ..).plain
  have happly : call.compiler.transform.apply contents call.options = .ok data := by
    rcases hstored.origin with hbefore | happly
    -- on a hit the invariant names the call that made the file
    · obtain ⟨r', hr', hmade⟩ := hgenuine _ dir data t mode
        (Compiler.reserved_artifactName ..) hbefore
      exact output_of_name hfunctions hdigests hfitting List.mem_cons_self
        (List.mem_cons_of_mem _ hr') harrived hmade
    · exact happly
  have hentry := hstored.entry
  have hcontents : (w.record call).after.system.contents p = .ok data := by
    rw [hstored.path] at hentry ⊢
    exact contents_of_follow (follow_of_entry hplain hentry)
  exact ⟨contents, data, _, t, mode, harrived.contents, happly, hentry, hcontents⟩

/-! ## Runs -/

theorem SameFunctions.mono {history more : List Record} (h : SameFunctions more)
    (hsub : history ⊆ more) : SameFunctions history := by
  obtain ⟨f, hf⟩ := h
  exact ⟨f, fun r hr => hf r (hsub hr)⟩

theorem DistinctDigests.mono {history more : List Record} (h : DistinctDigests more)
    (hsub : history ⊆ more) : DistinctDigests history :=
  fun r hr r' hr' => h r (hsub hr) r' (hsub hr')

theorem Fitting.mono {history more : List Record} (h : Fitting more) (hsub : history ⊆ more) :
    Fitting history := fun r hr => h r (hsub hr)

/-- Throughout a run that starts without artifacts, every artifact is genuine. -/
theorem genuine_run {start w : World} {history : List Record} (hsound : start.system.Sound)
    (hfresh : start.system.Fresh) (hrun : Run SparesArtifacts start history w) :
    w.system.Sound ∧ w.system.NoReservedLinks ∧ Genuine history w.system := by
  induction hrun with
  | start =>
      refine ⟨hsound, hfresh.1, fun name dir out t mode hname hfile => ?_⟩
      exact absurd hfile (hfresh.2 name dir out t mode hname)
  | call call _ ih =>
      obtain ⟨hw, hno, hgenuine⟩ := ih
      have hframed := Record.framed hw call
      exact ⟨hframed.sound, hframed.noReservedLinks hno, genuine_call hw hgenuine call⟩
  | edit _ hedit ih =>
      obtain ⟨hw, hno, hgenuine⟩ := ih
      exact ⟨hedit.sound, hedit.links, genuine_edit hgenuine hedit⟩

/-- **A call that succeeds leaves a file with its output at the path it answers**, in every run that
starts without artifacts and in which nobody else makes any. Whether the call found the file or
wrote it makes no difference. -/
theorem template_returns_output {start w : World} {history : List Record}
    (hsound : start.system.Sound) (hfresh : start.system.Fresh)
    (hrun : Run SparesArtifacts start history w) (hfunctions : SameFunctions history)
    (hdigests : DistinctDigests history) (hfitting : Fitting history) :
    ∀ r ∈ history, ∀ p, r.result = .ok p → r.AnswersOutput p := by
  induction hrun with
  | start => intro r hr; cases hr
  | @call history w call hrun ih =>
      obtain ⟨hw, hno, hgenuine⟩ := genuine_run hsound hfresh hrun
      have hsub := List.subset_cons_self (w.record call) history
      intro r hr p hp
      rcases List.mem_cons.mp hr with rfl | hr
      · exact answersOutput_call hw hno hgenuine hfunctions hdigests hfitting hp
      · exact ih (hfunctions.mono hsub) (hdigests.mono hsub) (hfitting.mono hsub) r hr p hp
  | edit _ _ ih => exact ih hfunctions hdigests hfitting

/-! ### A call that is answered with what another wrote -/

def firstWorld : World := .ofSource ⟨5, 0⟩

/-- The world after the call was made once. -/
def secondWorld : World := firstWorld.afterCall sampleCall

def sampleHistory : List Record :=
  [secondWorld.record sampleCall, firstWorld.record sampleCall]

theorem sampleHistory_reads : Reads sampleHistory [1, 2, 3] := by
  intro r hr
  rcases List.mem_cons.mp hr with rfl | hr
  · decide +kernel
  · rw [List.mem_singleton.mp hr]
    decide +kernel

theorem template_returns_output_second :
    (secondWorld.record sampleCall).result = .ok samplePath ∧
    (secondWorld.record sampleCall).after.events = [.hit (.ofString "/a") samplePath] ∧
    (secondWorld.record sampleCall).AnswersOutput samplePath := by
  have hresult : (secondWorld.record sampleCall).result = .ok samplePath := by decide +kernel
  have hrun : Run SparesArtifacts firstWorld sampleHistory (secondWorld.afterCall sampleCall) :=
    .call _ (.call _ .start)
  have hcall : ∀ r ∈ sampleHistory, r.call = sampleCall := by
    intro r hr
    rcases List.mem_cons.mp hr with rfl | hr
    · rfl
    · rw [List.mem_singleton.mp hr]
      rfl
  refine ⟨hresult, by decide +kernel, ?_⟩
  refine template_returns_output (World.sound_ofSource _) (fresh_of_names (by decide)) hrun ?_
    (sampleHistory_reads.distinctDigests (by decide +kernel))
    (sampleHistory_reads.fitting (by decide +kernel)) _ List.mem_cons_self _ hresult
  refine ⟨fun _ contents _ => .ok contents, fun r hr contents => ?_⟩
  rw [hcall r hr]
  rfl

end TemplateCache
