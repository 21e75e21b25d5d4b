import TemplateCache.Proofs.Compiler.DefaultDir
import TemplateCache.Proofs.Compiler.Source
import TemplateCache.Proofs.Path.Components
import TemplateCache.Proofs.Run.Basic
import TemplateCache.Proofs.Store.Reaching

/-!
# Answers that do not depend on history

What a call answers is put together from what it was asked: the bytes of the source and its
canonical path, the fingerprint of the transform, the key of the options, and the directory. What
else is on disk, and what was compiled before, plays no part in it. So whoever asks for the same is
answered the same.

And whoever asks again is answered at once. The artifact is there when a call has succeeded, the
source is still there, since it is neither the artifact nor a sibling of it, and so are the
directory and the default directory that is kept. Main statement: `answer_stable`.
-/

namespace TemplateCache

open FileSystem

/-! ## What a call is asked -/

namespace Options

/-- A destination that is empty is none. -/
theorem override?_eq_some_iff {o : Options} {dir : Path} :
    o.override? = some dir ↔ o.destination = some dir ∧ dir.bytes ≠ [] := by
  simp [override?, Option.filter_eq_some_iff, Path.isEmpty]

theorem override?_eq_none_iff {o : Options} :
    o.override? = .none ↔ ∀ dir, o.destination = some dir → dir.bytes = [] := by
  simp [override?, Option.filter_eq_none_iff, Path.isEmpty]

end Options

namespace Record

/-- Where a call sends its artifact: the destination of its options, if it has one that is not
empty, and else the default directory. -/
inductive Destination (r : Record) (d : Path) : Prop where
  | given : r.call.options.destination = some d → d.bytes ≠ [] → Destination r d
  | default : (∀ empty, r.call.options.destination = some empty → empty.bytes = []) →
      (r.call.compiler.defaultDir.run Machine.answer r.before).1 = .ok d → Destination r d

/-- The absolute form of the directory that a call sends its artifact to. -/
def GoesTo (r : Record) (full : Path) : Prop :=
  ∃ d, r.Destination d ∧ (r.before.system.runFiles (Store.absolute d)).1 = .ok full

theorem GoesTo.isAbsolute {r : Record} {full : Path} (h : r.GoesTo full) :
    full.isAbsolute = true := by
  obtain ⟨_, -, hfull⟩ := h
  exact Store.isAbsolute_of_absolute hfull

theorem destination_iff {r : Record} {d : Path} :
    r.Destination d ↔ r.call.compiler.destinationFrom r.call.options r.before = .ok d := by
  unfold Compiler.destinationFrom
  cases hover : r.call.options.override? with
  | some given =>
      obtain ⟨hgiven, hne⟩ := Options.override?_eq_some_iff.mp hover
      rw [Compiler.destination_of_override _ hover]
      constructor
      · rintro (⟨hd, -⟩ | ⟨hnone, -⟩)
        · cases hgiven.symm.trans hd
          rfl
        · exact absurd (hnone given hgiven) hne
      · intro hd
        cases hd
        exact .given hgiven hne
  | none =>
      have hempty := Options.override?_eq_none_iff.mp hover
      rw [Compiler.destination_of_default _ hover]
      constructor
      · rintro (⟨hd, hne⟩ | ⟨-, hd⟩)
        · exact absurd (hempty d hd) hne
        · exact hd
      · exact .default hempty

/-- A call that came to its store opened it in the directory that it sends its artifact to. -/
theorem Arrived.goesTo_iff {r : Record} {contents : Bytes} {canonical full : Path} {store : Store}
    {opened : FileSystem} (h : r.Arrived contents canonical store opened) :
    r.GoesTo full ↔ full = store.dir := by
  obtain ⟨d, hd, hopen⟩ := h.opened
  have habsolute := Store.openAt_eq_ok (congrArg Prod.fst hopen)
  constructor
  · rintro ⟨d', hd', hfull⟩
    cases (destination_iff.mp hd').symm.trans hd
    exact Except.ok.inj (hfull.symm.trans habsolute)
  · rintro rfl
    exact ⟨d, destination_iff.mpr hd, habsolute⟩

/-- Two calls are asked for the same: they read the same bytes at the same canonical path, and their
transforms have the same fingerprint and their options the same key. -/
structure AsksSame (r r' : Record) : Prop where
  contents : r.before.system.contents r.call.source = r'.before.system.contents r'.call.source
  canonical : ∃ canonical canonical', r.before.system.canonical r.call.source = .ok canonical ∧
    r'.before.system.canonical r'.call.source = .ok canonical' ∧ canonical.same canonical' = true
  fingerprint : r.call.compiler.transform.fingerprint = r'.call.compiler.transform.fingerprint
  options : r.call.options.transformKey = r'.call.options.transformKey

end Record

/-! ## Locations of sources -/

/-- Canonical paths that say the same are those of one location. -/
theorem FileSystem.canonical_eq_of_same {s s' : FileSystem} (hs : s.Sound) (hs' : s'.Sound)
    {p p' canonical canonical' : Path} (h : s.canonical p = .ok canonical)
    (h' : s'.canonical p' = .ok canonical') (hsame : canonical.same canonical' = true) :
    ∃ l node node', s.follow p = .ok (.node l node) ∧ s'.follow p' = .ok (.node l node') ∧
      canonical = Location.path l ∧ canonical' = Location.path l := by
  obtain ⟨l, node, hfollow, rfl⟩ := canonical_eq_ok h
  obtain ⟨l', node', hfollow', rfl⟩ := canonical_eq_ok h'
  have hl := Location.eq_of_same (hs.tree.plain_names (follow_eq_ok_iff.mp hfollow).2.get?)
    (hs'.tree.plain_names (follow_eq_ok_iff.mp hfollow').2.get?) hsame
  subst hl
  exact ⟨l, node, node', hfollow, hfollow', rfl, rfl⟩

/-- What is read depends on what a path leads to only. -/
theorem FileSystem.contents_congr {s s' : FileSystem} {p p' : Path}
    (h : s.follow p = s'.follow p') : s.contents p = s'.contents p' := by
  unfold contents
  rw [h]

/-- Calls that are asked for the same give their artifacts the same name. -/
theorem Record.AsksSame.nameOf_eq {r r' : Record} (h : r.AsksSame r') (hr : r.before.system.Sound)
    (hr' : r'.before.system.Sound) {contents contents' : Bytes} {canonical canonical' : Path}
    {store store' : Store} {opened opened' : FileSystem}
    (harrived : r.Arrived contents canonical store opened)
    (harrived' : r'.Arrived contents' canonical' store' opened') :
    r.nameOf canonical contents = r'.nameOf canonical' contents' := by
  have hcontents := harrived.contents.symm.trans (h.contents.trans harrived'.contents)
  obtain ⟨c, c', hc, hc', hsame⟩ := h.canonical
  obtain ⟨l, -, -, -, -, rfl, rfl⟩ := canonical_eq_of_same hr hr' hc hc' hsame
  cases hc.symm.trans harrived.canonical
  cases hc'.symm.trans harrived'.canonical
  unfold nameOf Compiler.artifactName
  rw [Except.ok.inj hcontents, h.fingerprint, h.options]

/-! ## After a call -/

/-- A call that leaves the files and the default directory as they are leaves the world as it is. -/
theorem World.afterCall_eq_self {w : World} {call : Call}
    (hsystem : (w.record call).after.system = w.system)
    (hheld : (w.record call).after.held = w.held call.cell) : w.afterCall call = w := by
  unfold afterCall
  rw [hsystem, hheld]
  refine congrArg (World.mk w.system) (funext fun cell => ?_)
  by_cases hcell : cell = call.cell
  · rw [if_pos hcell, hcell]
  · rw [if_neg hcell]

section After

variable {w : World} {call : Call} {contents : Bytes} {canonical : Path} {store : Store}
  {opened : FileSystem} {l : Location} {node : Node}

/-- A call does not touch its own source. -/
theorem source_kept (hw : w.system.Sound)
    (harrived : (w.record call).Arrived contents canonical store opened)
    (hcanonical : canonical = Location.path l) (hnode : w.system.disk.get? l = some node)
    (hleaf : node.leadsOn = false) :
    (w.afterCall call).system.disk.get? l = some node := by
  subst hcanonical
  exact (Record.framed hw call).source_kept harrived.canonical hnode
    (Node.isDirectory_eq_false hleaf)

/-- Through any path that leads to it the source is read as before. -/
theorem source_readable (hw : w.system.Sound) (hno : w.system.NoReservedLinks)
    (harrived : (w.record call).Arrived contents canonical store opened) {source : Path}
    (hsource : w.system.canonical source = .ok canonical ∨
      (w.afterCall call).system.canonical source = .ok canonical) :
    (w.afterCall call).system.contents source = .ok contents ∧
      (w.afterCall call).system.canonical source = .ok canonical := by
  obtain ⟨l, node, hfollow, hcanonical, hnode, hleaf⟩ := harrived.origin
  have hframed := Record.framed hw call
  have hkept := source_kept hw harrived hcanonical hnode hleaf
  have hways := hframed.keepsWays hno
  have hread := harrived.contents
  have hsame : canonical.same canonical = true := beq_self_eq_true canonical.components
  rcases hsource with hbefore | hafter
  · obtain ⟨l', _, _, hfollow', hfollow'', -, -⟩ := canonical_eq_of_same hw hw
      harrived.canonical hbefore hsame
    cases hfollow.symm.trans hfollow'
    cases (follow_eq_ok_iff.mp hfollow'').2.get?.symm.trans hnode
    have hagain := follow_mono hways hframed.setting.workingDir hfollow'' hkept (.refl node)
    exact ⟨(contents_congr (hagain.trans hfollow.symm)).trans hread,
      canonical_mono hways hframed.setting.workingDir hbefore hfollow'' hkept⟩
  · obtain ⟨l', _, _, hfollow', hagain, -, -⟩ := canonical_eq_of_same hw hframed.sound
      harrived.canonical hafter hsame
    cases hfollow.symm.trans hfollow'
    cases (follow_eq_ok_iff.mp hagain).2.get?.symm.trans hkept
    exact ⟨(contents_congr (hagain.trans hfollow.symm)).trans hread, hafter⟩

/-- A call that succeeded leaves everything as it has to be for its artifact to be found at once. -/
theorem record_again (hw : w.system.Sound) (hno : w.system.NoReservedLinks) {p : Path}
    (hp : (w.record call).result = .ok p) {source : Path}
    (hcanonical : w.system.canonical call.source = .ok canonical)
    (hsource : w.system.canonical source = .ok canonical ∨
      (w.afterCall call).system.canonical source = .ok canonical) :
    let again := { call with source := source }
    ((w.afterCall call).record again).result = .ok p ∧
      ((w.afterCall call).record again).after =
        ⟨(w.afterCall call).system, (w.afterCall call).held call.cell, [.hit canonical p]⟩ := by
  obtain ⟨contents, canonical', store, dir, data, t, mode, hstored⟩ := stored_of_ok hw hno hp
  obtain ⟨opened, harrived⟩ := hstored.arrived
  cases harrived.canonical.symm.trans hcanonical
  obtain ⟨hread, hnamed⟩ := source_readable hw hno harrived hsource
  have hframed := Record.framed hw call
  obtain ⟨d, hd, hopen⟩ := harrived.opened
  have habsolute := Store.openAt_eq_ok (congrArg Prod.fst hopen)
  have hplain := ((w.record call).isProper_nameOf canonical contents).plain
  -- the default directory is kept, if it was asked for
  have hheld : ((w.afterCall call).machine call.cell).held =
      ((call.compiler.destination call.options).run Machine.answer (w.machine call.cell)).2.held :=
    (if_pos rfl).trans (Compiler.held_template_of_ok hp)
  have hdestination := Compiler.run_destination_again _ hd hheld
  -- the directory is there
  have hthere : (w.afterCall call).system.DirectoryAt store.dir := by
    refine (directoryAt_iff hframed.sound).mpr ⟨?_, dir, hstored.reaches⟩
    exact Path.checkPath_of_join
      (Path.bytes_ne_nil_of_isAbsolute (Store.isAbsolute_of_absolute habsolute)) hplain hstored.ask.1
  have hopenAgain : (w.afterCall call).system.runFiles (Store.openAt d) =
      (.ok store, (w.afterCall call).system) :=
    Store.openAt_of_directoryAt
      ((Store.absolute_congr hframed.setting.workingDir d).trans habsolute) hthere
  -- and the artifact in it
  have hcontains := Store.contains_of_reaches hplain hstored.ask hstored.reaches hstored.file
  have hrun := Compiler.run_template_of_hit (m := (w.afterCall call).machine call.cell) hread hnamed
    hdestination hopenAgain hcontains
  rw [hstored.path]
  exact ⟨congrArg Prod.fst hrun, congrArg Prod.snd hrun⟩

end After

/-! ## Stable answers -/

/-- **An answer does not depend on history.** Two calls that succeed, in whatever worlds and by
whatever compilers, answer the same path if they are asked for the same and send their artifacts to
the same directory. The answer is absolute, and its parent says what the absolute form of that
directory says. Where no link can be taken for an artifact, whoever asks again, with any spelling of
the source, is answered the same and told of a hit, and nothing is changed. -/
theorem answer_stable {w : World} {call : Call} {p : Path} (hw : w.system.Sound)
    (hp : (w.record call).result = .ok p) :
    (∀ {w' : World} {call' : Call} {p' : Path}, w'.system.Sound →
      (w'.record call').result = .ok p' → (w.record call).AsksSame (w'.record call') →
      ∀ full full', (w.record call).GoesTo full → (w'.record call').GoesTo full' →
        (full.same full' = true → p.same p' = true) ∧ (full = full' → p = p')) ∧
    (p.isAbsolute = true ∧ ∃ full parent, (w.record call).GoesTo full ∧ p.parent? = some parent ∧
      parent.components = full.components) ∧
    (w.system.NoReservedLinks → ∀ source canonical, w.system.canonical call.source = .ok canonical →
      w.system.canonical source = .ok canonical ∨
        (w.afterCall call).system.canonical source = .ok canonical →
      let again := { call with source := source }
      ((w.afterCall call).record again).result = .ok p ∧
        ((w.afterCall call).record again).after.events = [.hit canonical p] ∧
        (w.afterCall call).afterCall again = w.afterCall call) := by
  obtain ⟨contents, canonical, store, opened, harrived, hpath⟩ := named_of_ok hp
  have hplain := ((w.record call).isProper_nameOf canonical contents).plain
  have hgoes := harrived.goesTo_iff.mpr rfl
  refine ⟨fun {w' call' p'} hw' hp' hasks full full' hfull hfull' => ?_, ⟨?_, ?_⟩,
    fun hno source canonical hcanonical hsource => ?_⟩
  · obtain ⟨contents', canonical', store', opened', harrived', hpath'⟩ := named_of_ok hp'
    have hname := hasks.nameOf_eq hw hw' harrived harrived'
    have hstore := harrived.goesTo_iff.mp hfull
    have hstore' := harrived'.goesTo_iff.mp hfull'
    rw [hpath, hpath', ← hname]
    unfold Store.artifactPath
    rw [← hstore, ← hstore']
    refine ⟨fun hsame => ?_, fun heq => by rw [heq]⟩
    exact Path.same_join_name hfull.isAbsolute hfull'.isAbsolute hsame hplain
  · rw [hpath]
    exact (Path.isAbsolute_join_name store.dir hplain).trans hgoes.isAbsolute
  · obtain ⟨parent, hparent, hcomponents⟩ := Path.parent?_join_name hgoes.isAbsolute hplain
    refine ⟨store.dir, parent, hgoes, ?_, hcomponents⟩
    rw [hpath]
    exact hparent
  · obtain ⟨hresult, hafter⟩ := record_again hw hno hp hcanonical hsource
    exact ⟨hresult, by rw [hafter],
      World.afterCall_eq_self (by rw [hafter]) (by rw [hafter])⟩

/-! ### A call in another world -/

/-- A world with the same source in another place of work, where it can be reached through a link,
and with a file of that source from before. -/
def linkedWorld : World where
  system := ⟨⟨[([], .directory ⟨0, 0⟩),
    ([Utf8.ofString "a"], .file [1, 2, 3] ⟨30, 0⟩ fileMode),
    ([Utf8.ofString "work"], .directory ⟨0, 0⟩),
    ([Utf8.ofString "b", Utf8.ofString "work"], .link (.ofString "../a") ⟨0, 0⟩),
    ([Utf8.ofString "out"], .directory ⟨0, 0⟩),
    ([Utf8.ofString "template_root_a_0568b0a648ab92e2_142352a4_0.tpl", Utf8.ofString "out"],
      .file [9] ⟨1, 0⟩ fileMode)], by decide⟩,
    .inside [Utf8.ofString "work"], ⟨40, 0⟩, none, 3⟩
  held := fun _ => none

/-- A call there for the source that the link leads to, with a destination of its own. -/
def linkedCall : Call where
  compiler := .under .environment (.ofString "mails")
  cell := 7
  source := .ofString ".//b"
  options := Options.none.withDestination (.ofString "//out/.")

theorem answer_stable_linked : ∃ p', (linkedWorld.record linkedCall).result = .ok p' ∧
    samplePath.same p' = true ∧ samplePath.isAbsolute = true ∧
    ((World.ofSource ⟨5, 0⟩).afterCall sampleCall).afterCall
      { sampleCall with source := .ofString "./a" } =
        (World.ofSource ⟨5, 0⟩).afterCall sampleCall := by
  have hresult : ((World.ofSource ⟨5, 0⟩).record sampleCall).result = .ok samplePath := by
    decide +kernel
  have hlinked : (linkedWorld.record linkedCall).result = .ok (.ofString
      "//out/template_root_a_0568b0a648ab92e2_142352a4_6c69e8be9db2a35a25e184c33c7eb3c0.tpl") := by
    decide +kernel
  have hlinks : (World.ofSource ⟨5, 0⟩).system.NoReservedLinks := by
    intro name dir target t _ hlink
    have hmem := ((World.ofSource ⟨5, 0⟩).system.disk.get?_eq_some_iff _ _).mp hlink
    simp [World.ofSource] at hmem
  have hsound : linkedWorld.system.Sound :=
    ⟨Disk.isTree_of_hangs (by rfl) (by rfl), ⟨⟨0, 0⟩, by rfl⟩⟩
  have hgoes : ((World.ofSource ⟨5, 0⟩).record sampleCall).GoesTo (.ofString "/out") :=
    ⟨.ofString "/out", .default (by rintro _ ⟨⟩) (by decide +kernel), by decide +kernel⟩
  have hgoes' : (linkedWorld.record linkedCall).GoesTo (.ofString "//out") :=
    ⟨.ofString "//out/.", .given rfl (by decide +kernel), by decide +kernel⟩
  obtain ⟨hstable, ⟨habs, -⟩, hagain⟩ := answer_stable (World.sound_ofSource ⟨5, 0⟩) hresult
  refine ⟨_, hlinked, ?_, habs, ?_⟩
  · refine (hstable hsound hlinked ⟨by decide +kernel, ?_, rfl, rfl⟩ _ _ hgoes hgoes').1
      (by decide +kernel)
    exact ⟨.ofString "/a", .ofString "/a", by decide +kernel, by decide +kernel, by decide +kernel⟩
  · exact (hagain hlinks (.ofString "./a") (.ofString "/a") (by decide +kernel)
      (.inl (by decide +kernel))).2.2

end TemplateCache
