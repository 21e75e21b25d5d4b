import TemplateCache.Proofs.Concurrent.Sparing

/-!
# Artifacts outlive slow calls

Calls for a source overlap with each other and with edits of it. A call that read the latest
contents knows that what it answers stands (`Watch.keeps_template`). So the artifact that it answers
with outlives all slower calls, as long as it is new and no call has a link in its way that it may
prune: `artifact_outlives_slow_calls`.

An artifact that was there before the last edit is not protected, for a call that finds it does not
date it anew: `old_artifact_pruned_by_slow_call`. And a call that prunes a link on its own way may
lose its artifact with it, be that the way to the directory (`way_pruned_by_call`) or to the source
(`source_replaced_by_artifact`).
-/

namespace TemplateCache

open FileSystem

namespace Watch

variable {ι : Type} [DecidableEq ι] {wt : Watch} {i : ι} {w : Shared ι}

/-! ## Whole calls -/

theorem keeps_make (hw : wt.Holds w) {store : Store} (hfull : wt.Full store.dir)
    (contents : Bytes) (hlatest : wt.nameOf contents = wt.name → ∃ t, wt.Latest w.system t) :
    wt.KeepsCall i (wt.Answers contents)
      (wt.compiler.make wt.options store (Location.path wt.origin) contents) w := by
  unfold Compiler.make
  refine (keeps_tell _).bind hw fun _ w₁ hw₁ h₁ => ?_
  cases wt.compiler.transform.apply contents wt.options with
  | error e => exact Answers.error
  | ok out =>
      have hlatest₁ : wt.nameOf contents = wt.name → ∃ t, wt.Latest w₁.system t := fun hname =>
        (hlatest hname).imp fun t ht => h₁.latest ht
      refine (keeps_write hfull out hlatest₁).onFiles.bind hw₁ fun result w₂ hw₂ h₂ => ?_
      cases result with
      | error e => exact Answers.error
      | ok p =>
          refine (keeps_tell _).bind hw₂ fun _ w₃ hw₃ h₃ => ?_
          refine (keeps_pruneAfter hfull contents).and_seen.bind hw₃ fun _ w₄ _ h₄ => ?_
          exact h₂.seen (h₃.trans h₄.2)

/-- An artifact that is found is answered as it is. Where it is new, what is found cannot be behind
a link. -/
theorem keeps_contains {store : Store} (hfull : wt.Full store.dir) (contents : Bytes) :
    wt.KeepsFiles i (fun there s => there = true →
      wt.Answers contents (.ok (store.artifactPath (wt.nameOf contents))) s)
      (store.contains (wt.nameOf contents)) w := by
  unfold Store.contains FileProgram.isFile
  refine look_file (fun s => rfl) fun w₁ h₁ => ?_
  dsimp only [FileSystem.answer]
  cases hstatus : w₁.system.status (store.artifactPath (wt.nameOf contents)) with
  | error e => exact fun h => by cases h
  | ok status =>
      intro hfile hname p hp
      cases hp
      rw [hname] at hstatus ⊢
      obtain ⟨hask, l, hreach, hthere⟩ :=
        link_or_entry_of_isFile (isProper_nameOf wt.latest).plain hstatus hfile
      refine ⟨store, l, rfl, hask, hfull, hreach, fun hnew => ?_⟩
      obtain ⟨target, t, hlink⟩ | ⟨data, t, mode, hentry, -⟩ := hthere
      · exact absurd hlink (h₁.fine.fine.ne_link hnew target t)
      · exact ⟨data, t, mode, hentry⟩

theorem keeps_compileInto (hw : wt.Holds w) {dest : Path}
    (hdest : wt.compiler.destinationFrom wt.options ⟨wt.start, wt.held, []⟩ = .ok dest)
    (contents : Bytes) (hlatest : wt.nameOf contents = wt.name → ∃ t, wt.Latest w.system t) :
    wt.KeepsCall i (wt.Answers contents)
      (wt.compiler.compileInto wt.options dest (Location.path wt.origin) contents) w := by
  unfold Compiler.compileInto
  refine (keeps_openAt hw hdest).and_seen.onFiles.bind hw fun opened w₁ hw₁ h₁ => ?_
  cases opened with
  | error e => exact Answers.error
  | ok store =>
      have hfull : wt.Full store.dir := h₁.1 store rfl
      refine (keeps_contains hfull contents).and_seen.onFiles.bind hw₁ fun there w₂ hw₂ h₂ => ?_
      cases there with
      | true =>
          refine (keeps_tell _).bind hw₂ fun _ w₃ _ h₃ => ?_
          exact (h₂.1 rfl).seen h₃
      | false =>
          exact keeps_make hw₂ hfull contents fun hname =>
            (hlatest hname).imp fun t ht => (h₁.2.trans h₂.2).latest ht

/-- A call answers with what stands, if it was begun when the source held its latest contents. -/
theorem keeps_template :
    wt.KeepsCall i (fun result s => (∃ t, wt.Latest w.system t) → ∀ p, result = .ok p →
      wt.Stands p s) (wt.compiler.template wt.source wt.options) w := by
  have herror : ∀ {e : CompileError} {s : FileSystem}, (∃ t, wt.Latest w.system t) →
      ∀ p, Except.error e = .ok p → wt.Stands p s := fun _ p hp => by cases hp
  unfold Compiler.template
  refine look_call (fun s => rfl) fun w₁ h₁ => ?_
  dsimp only [FileSystem.answer]
  cases hread : w₁.system.contents wt.source with
  | error e => exact herror
  | ok contents =>
  obtain ⟨t, mode, hfile⟩ := h₁.fine.fine.contents hread
  refine look_call (fun s => rfl) fun w₂ h₂ => ?_
  dsimp only [FileSystem.answer]
  cases hcanonical : w₂.system.canonical wt.source with
  | error e => exact herror
  | ok canonical =>
  cases h₂.fine.fine.canonical hcanonical
  refine ((wt.steady i).keeps_destination trivial).and_seen.bind h₂.fine fun result w₃ hw₃ h₃ => ?_
  obtain ⟨⟨rfl, -⟩, hseen₃⟩ := h₃
  cases hdest : wt.compiler.destinationFrom wt.options ⟨wt.start, wt.held, []⟩ with
  | error e => exact herror
  | ok dest =>
      have hlatest : wt.nameOf contents = wt.name → ∃ t, wt.Latest w₃.system t := fun hname =>
        ⟨t, (h₂.seen.trans hseen₃).latest ⟨contents, mode, hfile, hname⟩⟩
      refine (keeps_compileInto hw₃ hdest contents hlatest).mono hw₃ fun result w₄ _ h₄ => ?_
      -- a call that was begun so late has read the latest contents
      rintro ⟨t', hlate⟩
      obtain ⟨data, mode', hfile', hname⟩ := h₁.seen.latest hlate
      cases hfile.symm.trans hfile'
      exact h₄ hname

end Watch

/-! ## Calls and edits -/

/-- The location that a path names, be there something or nothing. -/
def Spot.location? : Spot → Option Location
  | .node l _ => some l
  | .removed _ _ => none
  | .vacant dir name => some (name :: dir)

/-- Calls for a source overlap with each other and with edits of it, and a call that begins after
the last edit answers with a path. A regular file stays there, provided that no earlier contents had
the same artifact name, that nothing was there at first, and that no call prunes its own way. -/
theorem artifact_outlives_slow_calls {ι : Type} [DecidableEq ι] {c : Compiler} {source : Path}
    {o : Options} {start : FileSystem} {held : Option Path} {origin : Location} {data : Bytes}
    {time : Moment} {mode : Nat} (hs : start.Sound)
    (hsource : start.follow source = .ok (.node origin (.file data time mode)))
    (hclock : time ≤ start.now) {latest : Bytes} {n : ArtifactName}
    (hname : c.artifactName o (Location.path origin) latest = n)
    (hspares : c.SparesWays source o ⟨start, held, []⟩ n)
    {pool pool' : ι → CompileProgram (Except CompileError Path)} {s s' : Shared ι}
    (hbefore : Program.Turns Shared.answer
      (Shared.Stirred source fun contents => c.artifactName o (Location.path origin) contents = n)
      (fun _ => c.template source o) ⟨start, held, fun _ => []⟩ pool s)
    (hlatest : s.system.contents source = .ok latest) {i : ι}
    (hbegin : pool i = c.template source o)
    (hafter : Program.Turns Shared.answer Shared.Passes pool s pool' s') {p : Path}
    (hdone : pool' i = .done (.ok p))
    (hnew : ∀ spot l, s'.system.entry p = .ok spot → spot.location? = some l →
      start.disk.get? l = none) :
    ∃ status, s'.system.status p = .ok status ∧ status.isFile = true := by
  subst hname
  let wt : Watch := ⟨c, source, o, start, held, hs, origin, data, time, mode, hsource, latest,
    hspares⟩
  have hfirst : (wt.pact ι).Fine ⟨start, held, fun _ => []⟩ := Watch.holds_start hclock
  have hany : ∀ (j : ι) (_ : Except CompileError Path), (wt.pact ι).Stable j fun _ => True :=
    fun _ _ => fun h _ => h
  obtain ⟨w, rfl, hw, -, hkeeps⟩ := Pact.keeps_turns wt.bears_stirred hany hfirst
    (fun j => wt.keeps_template.mono hfirst fun _ _ _ _ => trivial) hbefore
  have hw : wt.Holds w := hw
  obtain ⟨t, mode', hfile⟩ := hw.fine.contents hlatest
  have hlate : ∃ t, wt.Latest w.system t := ⟨t, latest, mode', hfile, rfl⟩
  -- from here on only the answer of the call that begins now is followed
  have hfollowed : ∀ j, (wt.pact ι).Keeps Shared.answer j
      (fun result w' => j = i → ∀ p, result = .ok p → wt.Stands p w'.system) (pool j) w := by
    intro j
    by_cases hj : j = i
    · subst hj
      rw [hbegin]
      exact wt.keeps_template.mono hw fun result w' _ h _ => h hlate
    · exact (hkeeps j).mono hw fun _ _ _ _ he => absurd he hj
  have hstable : ∀ j (result : Except CompileError Path), (wt.pact ι).Stable j
      (fun w' => j = i → ∀ p, result = .ok p → wt.Stands p w'.system) :=
    fun j result => fun h hlater he p hp => (h he p hp).seen hlater.seen
  obtain ⟨w', rfl, hw', -, hkeeps'⟩ := Pact.keeps_turns wt.bears_passes hstable hw hfollowed hafter
  have hanswered := hkeeps' i
  rw [hdone] at hanswered
  obtain ⟨store, l, rfl, hask, -, hreach, hthere⟩ := hanswered rfl p rfl
  have haskable : Askable store.dir wt.name.entryName := hask.askable
  have hnewl : wt.New l := by
    cases hn : w'.system.disk.get? (wt.artifact l) with
    | none => exact hnew _ _ (entry_of_absent haskable hreach hn) rfl
    | some node => exact hnew _ _ (entry_of_present haskable hreach hn) rfl
  have hw' : wt.Holds w' := hw'
  exact (status_isFile_iff haskable hreach (hw'.fine.ne_link hnewl)).mpr (hthere hnewl)

/-! ## A slow call and a quick one -/

namespace Shared

variable {ι : Type}

/-- It is a second later. -/
def later (s : Shared ι) : Shared ι :=
  { s with system := { s.system with now := ⟨s.system.now.seconds + 1, 0⟩ } }

/-- A file has been written, at the time that it is. -/
def written (s : Shared ι) (l : Location) (data : Bytes) (mode : Nat) : Shared ι :=
  { s with system :=
    { s.system with disk := s.system.disk.set l (.file data s.system.now mode) } }

theorem passes_later (s : Shared ι) : s.Passes s.later :=
  ⟨_, Moment.before_eq_false_iff.mpr (.inl (Int.lt_succ _)), rfl⟩

theorem edited_written {s : Shared ι} {source : Path} {l : Location} {before : Bytes}
    {time : Moment} {mode : Nat}
    (h : s.system.follow source = .ok (.node l (.file before time mode))) (data : Bytes) :
    s.Edited source (s.written l data mode) := by
  refine ⟨data, (s.written l data mode).system, ?_, rfl⟩
  unfold writeHere
  rw [h]
  rfl

end Shared

/-- A disk with a source, and the artifact of what the source held before. -/
def returnDisk : Disk where
  nodes := [
    ([], .directory ⟨0, 0⟩),
    ([Utf8.ofString "a.html"], .file [98] ⟨7, 0⟩ fileMode),
    ([Utf8.ofString "out"], .directory ⟨0, 0⟩),
    ([Utf8.ofString
        "template_root_a_05f8f540d8935e3b_142352a4_0bb43091937b1110bc7a6c071926d6a4.html",
      Utf8.ofString "out"], .file [97] ⟨6, 0⟩ fileMode)]
  distinct := by decide

/-- The same without the artifact. -/
def clearDisk : Disk := returnDisk.without fun l => l.length == 2

def returnCall : CompileProgram (Except CompileError Path) :=
  (Compiler.under (.fixed (.ofString "/r")) (.ofString "mails")).template (.ofString "a.html")
    (Options.none.withDestination (.ofString "out"))

def returnPath : Path := .ofString
  "/out/template_root_a_05f8f540d8935e3b_142352a4_0bb43091937b1110bc7a6c071926d6a4.html"

def returnStart (disk : Disk) : Shared Bool :=
  ⟨⟨disk, .inside [], ⟨8, 0⟩, none, 0⟩, none, fun _ => []⟩

/-- The source holds again what it held before. -/
def returnState (disk : Disk) : Shared Bool :=
  returnStart (disk.set [Utf8.ofString "a.html"] (.file [97] ⟨8, 0⟩ fileMode))

/-- One call has read the source before that, the other has not begun. -/
def returnPool (disk : Disk) : Bool → CompileProgram (Except CompileError Path) :=
  Function.update (fun _ => returnCall) true
    (returnCall.next (Shared.answer true) (returnStart disk)).1

/-- The state when the quick call is done, and then the slow one. -/
def quickState (disk : Disk) : Shared Bool :=
  (returnCall.run (Shared.answer false) (returnState disk)).2

def slowState (disk : Disk) : Shared Bool :=
  ((returnPool disk true).run (Shared.answer true) (quickState disk)).2

theorem turns_to_returnState {disk : Disk} {last : Bytes → Prop} (hlast : ¬last [98])
    (hfollow : (returnStart disk).system.follow (.ofString "a.html") =
      .ok (.node [Utf8.ofString "a.html"] (.file [98] ⟨7, 0⟩ fileMode))) :
    Program.Turns Shared.answer (Shared.Stirred (.ofString "a.html") last) (fun _ => returnCall)
      (returnStart disk) (returnPool disk) (returnState disk) := by
  have hread : Program.Turns Shared.answer (Shared.Stirred (.ofString "a.html") last)
      (fun _ : Bool => returnCall) (returnStart disk) _ _ := .once true
  have hsame : (returnCall.next (Shared.answer true) (returnStart disk)).2 = returnStart disk :=
    Shared.leave_machine ..
  rw [hsame] at hread
  refine hread.outside (.inr ⟨Shared.edited_written hfollow [97], fun contents hread => ?_⟩)
  cases (contents_of_follow hfollow).symm.trans hread
  exact hlast

/-- The quick call runs to its end, and then the slow one. -/
theorem turns_to_slowState (disk : Disk) {p : Path}
    (hp : (returnCall.run (Shared.answer false) (returnState disk)).1 = .ok p) :
    ∃ pool pool', pool false = .done (.ok p) ∧ pool' false = .done (.ok p) ∧
      Program.Turns Shared.answer Shared.Passes (returnPool disk) (returnState disk) pool
        (quickState disk) ∧
      Program.Turns Shared.answer Shared.Passes pool (quickState disk) pool' (slowState disk) := by
  have hquick : Program.Turns Shared.answer Shared.Passes (returnPool disk) (returnState disk)
      _ _ := .finish false
  have hslow : Program.Turns Shared.answer Shared.Passes
      (Function.update (returnPool disk) false (.done (.ok p))) (quickState disk) _ _ :=
    .finish true
  have hfalse : returnPool disk false = returnCall := Function.update_of_ne (by decide) ..
  rw [hfalse, hp] at hquick
  rw [Function.update_of_ne (by decide)] at hslow
  refine ⟨_, _, Function.update_self .., ?_, hquick, hslow⟩
  rw [Function.update_of_ne (by decide), Function.update_self]

/-- An artifact that is written for the quick call is still there after the slow one. -/
theorem artifact_outlives_slow_calls_clearDisk :
    (returnCall.run (Shared.answer false) (returnState clearDisk)).1 = .ok returnPath ∧
    ∃ status, (slowState clearDisk).system.status returnPath = .ok status ∧
      status.isFile = true := by
  have hsound : (returnStart clearDisk).system.Sound :=
    { tree := Disk.isTree_of_hangs (by decide) (by decide), working := ⟨⟨0, 0⟩, by decide⟩ }
  have hclock : (returnStart clearDisk).system.now.before ⟨7, 0⟩ = false := by decide
  have hanswer : (returnCall.run (Shared.answer false) (returnState clearDisk)).1 =
      .ok returnPath := by decide +kernel
  have hfollow : (returnStart clearDisk).system.follow (.ofString "a.html") =
      .ok (.node [Utf8.ofString "a.html"] (.file [98] ⟨7, 0⟩ fileMode)) := by decide +kernel
  have hlinks : clearDisk.nodes.all (fun entry => entry.2.isDirectory || !entry.2.leadsOn) := by
    decide
  have hentry : (slowState clearDisk).system.entry returnPath = .ok (.node
      [Utf8.ofString
        "template_root_a_05f8f540d8935e3b_142352a4_0bb43091937b1110bc7a6c071926d6a4.html",
      Utf8.ofString "out"] (.file [97] ⟨8, 0⟩ fileMode)) := by decide +kernel
  obtain ⟨pool, pool', -, hdone, hquick, hslow⟩ := turns_to_slowState clearDisk hanswer
  have hlatest : (returnState clearDisk).system.contents (.ofString "a.html") = .ok [97] := by
    decide +kernel
  refine ⟨hanswer, artifact_outlives_slow_calls hsound hfollow hclock rfl
    (Compiler.sparesWays_of_noLinks fun text l target t _ hlink => ?_)
    (turns_to_returnState (by decide +kernel) hfollow) hlatest
    (Function.update_of_ne (by decide) ..) (hquick.trans hslow) hdone fun spot l hspot hl => ?_⟩
  · have hmem := (Disk.get?_eq_some_iff _ _ _).mp hlink
    cases List.all_eq_true.mp hlinks _ hmem
  · cases hentry.symm.trans hspot
    cases hl
    decide

/-- An artifact that was there before is pruned by the slow call after the quick one was answered
with it. -/
theorem old_artifact_pruned_by_slow_call :
    (returnStart returnDisk).system.Sound ∧
    ∃ (pool pool' pool'' : Bool → CompileProgram (Except CompileError Path))
      (s s' s'' : Shared Bool),
      Program.Turns Shared.answer (Shared.Stirred (.ofString "a.html") fun _ => False)
        (fun _ => returnCall) (returnStart returnDisk) pool s ∧
      pool false = returnCall ∧
      Program.Turns Shared.answer Shared.Passes pool s pool' s' ∧
      pool' false = .done (.ok returnPath) ∧
      s'.system.contents returnPath = .ok [97] ∧
      Program.Turns Shared.answer Shared.Passes pool' s' pool'' s'' ∧
      s''.system.status returnPath = .error .missing := by
  have hanswer : (returnCall.run (Shared.answer false) (returnState returnDisk)).1 =
      .ok returnPath := by decide +kernel
  obtain ⟨pool, pool', hdone, -, hquick, hslow⟩ := turns_to_slowState returnDisk hanswer
  have hsound : (returnStart returnDisk).system.Sound :=
    { tree := Disk.isTree_of_hangs (by decide) (by decide), working := ⟨⟨0, 0⟩, by decide⟩ }
  exact ⟨hsound, returnPool returnDisk, pool, pool', returnState returnDisk,
    quickState returnDisk, slowState returnDisk, turns_to_returnState id (by decide +kernel),
    Function.update_of_ne (by decide) .., hquick, hdone, by decide +kernel, hslow,
    by decide +kernel⟩

/-! ## A link in place of the directory -/

/-- The name of another artifact of the source. -/
def linkName : String :=
  "template_root_a_05f8f540d8935e3b_142352a4_00000000000000000000000000000000.html"

/-- A disk with a source, and a directory with a link to itself under that name. -/
def linkDisk : Disk where
  nodes := [
    ([], .directory ⟨0, 0⟩),
    ([Utf8.ofString "a.html"], .file [97] ⟨7, 0⟩ fileMode),
    ([Utf8.ofString "out"], .directory ⟨0, 0⟩),
    ([Utf8.ofString linkName, Utf8.ofString "out"], .link (.ofString "/out") ⟨1, 0⟩)]
  distinct := by decide

def linkStart : FileSystem := ⟨linkDisk, .inside [], ⟨8, 0⟩, none, 0⟩

/-- A call that goes to the directory through the link. -/
def linkCall : CompileProgram (Except CompileError Path) :=
  (Compiler.under (.fixed (.ofString "/r")) (.ofString "mails")).template (.ofString "a.html")
    (Options.none.withDestination (.ofString ("out/" ++ linkName)))

def linkPath : Path := .ofString ("/out/" ++ linkName ++
  "/template_root_a_05f8f540d8935e3b_142352a4_0bb43091937b1110bc7a6c071926d6a4.html")

/-- Where a link on the way to the directory is an entry of it and named like the artifact, the call
that writes the artifact removes it. Nothing is found under the path that it answers. -/
theorem way_pruned_by_call :
    linkStart.Sound ∧
    ∃ s, Program.Turns Shared.answer Shared.Passes (fun _ : Unit => linkCall)
        ⟨linkStart, none, fun _ => []⟩ (fun _ => .done (.ok linkPath)) s ∧
      s.system.status linkPath = .error .missing := by
  have hsound : linkStart.Sound :=
    { tree := Disk.isTree_of_hangs (by decide) (by decide), working := ⟨⟨0, 0⟩, by decide⟩ }
  have hlone : (linkCall.run Machine.answer ⟨linkStart, none, []⟩).1 = .ok linkPath := by
    decide +kernel
  have hturns := Shared.turns_alone Shared.Passes linkCall linkStart none
  rw [hlone] at hturns
  exact ⟨hsound, _, hturns, by decide +kernel⟩

/-! ## A link in place of the source -/

/-- The name of the artifact of the contents that are held at first. -/
def aliasName : Name := Utf8.ofString
  "template_root_a_05f8f540d8935e3b_142352a4_19684a873ee0009b5259db06f83d00d9.html"

/-- A disk with a source, and a link to it in the directory under that name. -/
def aliasDisk : Disk where
  nodes := [
    ([], .directory ⟨0, 0⟩),
    ([Utf8.ofString "a.html"], .file [98] ⟨7, 0⟩ fileMode),
    ([Utf8.ofString "out"], .directory ⟨0, 0⟩),
    ([aliasName, Utf8.ofString "out"], .link (.ofString "/a.html") ⟨1, 0⟩)]
  distinct := by decide

def aliasStart : Shared (Fin 5) := ⟨⟨aliasDisk, .inside [], ⟨8, 0⟩, none, 0⟩, none, fun _ => []⟩

def aliasSource : Path := (Path.ofString "/out").join ⟨aliasName⟩

def aliasCompiler : Compiler := .under (.fixed (.ofString "/r")) (.ofString "mails")

def aliasOptions : Options := Options.none.withDestination (.ofString "/out")

/-- A call for the source by the name of the link. -/
def aliasCall : CompileProgram (Except CompileError Path) :=
  aliasCompiler.template aliasSource aliasOptions

/-- Calls that overlap, and the state that they are in. -/
abbrev Overlap := (Fin 5 → CompileProgram (Except CompileError Path)) × Shared (Fin 5)

/-- What comes of some turns in an order. -/
theorem Overlap.turns {w : Overlap} {order : List (Fin 5)}
    {pool : Fin 5 → CompileProgram (Except CompileError Path)} {s : Shared (Fin 5)}
    (h : w = Program.inOrder Shared.answer order pool s)
    (outside : Shared (Fin 5) → Shared (Fin 5) → Prop) :
    Program.Turns Shared.answer outside pool s w.1 w.2 ∧ ∀ i, i ∉ order → w.1 i = pool i := by
  subst h
  exact ⟨.inOrder .., fun i hi => Program.inOrder_of_not_mem hi ..⟩

/-- Two calls have read the source and come to the directory. -/
def aliasRead : Overlap :=
  Program.inOrder Shared.answer [0, 0, 0, 1, 1, 1] (fun _ => aliasCall) aliasStart

/-- The source has been edited, and a third call has pruned the link. The other two have missed
their artifact then, and one of them has written it. A fourth has read that as the source. -/
def aliasReplaced : Overlap :=
  Program.inOrder Shared.answer (.replicate 15 2 ++ [0, 1] ++ .replicate 15 0 ++ [3, 3])
    aliasRead.1 (aliasRead.2.written [Utf8.ofString "a.html"] [97] fileMode)

/-- What has become the source has been edited. -/
def aliasLatest : Shared (Fin 5) :=
  aliasReplaced.2.written [aliasName, Utf8.ofString "out"] [99] fileMode

def aliasPath : Path := .ofString
  ("/out/template_out_template_root_a_05f8f540d8935e3b_142352a4_19684a873ee0009b5259db06f83d00d9" ++
    "_69505f5afcde2deb_142352a4_97d7a265ffd05d8b1cda182e07c4c765.html")

/-- The fifth call has begun after that, and has answered. The other of the first two has written
over the source then, and the fourth call has pruned what is older. -/
def aliasPruned : Overlap :=
  Program.inOrder Shared.answer (.replicate 15 1 ++ .replicate 15 3)
    (Function.update aliasReplaced.1 4 (.done (.ok aliasPath)))
    (aliasCall.run (Shared.answer 4) aliasLatest).2.later

theorem turns_to_aliasLatest {last : Bytes → Prop} (hlast : ¬last [98]) :
    Program.Turns Shared.answer (Shared.Stirred aliasSource last) (fun _ => aliasCall) aliasStart
      aliasReplaced.1 aliasLatest := by
  have hread : aliasRead.2.system.follow aliasSource =
      .ok (.node [Utf8.ofString "a.html"] (.file [98] ⟨7, 0⟩ fileMode)) := by decide +kernel
  have hreplaced : aliasReplaced.2.system.follow aliasSource =
      .ok (.node [aliasName, Utf8.ofString "out"] (.file [98] ⟨8, 0⟩ fileMode)) := by
    decide +kernel
  have hold : ∀ {s : Shared (Fin 5)} {l : Location} {t : Moment},
      s.system.follow aliasSource = .ok (.node l (.file [98] t fileMode)) →
      ∀ contents, s.system.contents aliasSource = .ok contents → ¬last contents := by
    intro s l t hfollow contents hcontents
    cases (contents_of_follow hfollow).symm.trans hcontents
    exact hlast
  have hfirst := (Overlap.turns (w := aliasRead) rfl (Shared.Stirred aliasSource last)).1
  have hsecond := (Overlap.turns (w := aliasReplaced) rfl (Shared.Stirred aliasSource last)).1
  have hedited := hfirst.outside (.inr ⟨Shared.edited_written hread [97], hold hread⟩)
  exact (hedited.trans hsecond).outside
    (.inr ⟨Shared.edited_written hreplaced [99], hold hreplaced⟩)

/-- Where a link on the way to the source is an entry of the directory and named like an artifact of
the source, an artifact may take the place of the source. When a slow call writes it once more, what
is new looks old. -/
theorem source_replaced_by_artifact :
    aliasStart.system.Sound ∧ aliasStart.system.status aliasPath = .error .missing ∧
    ∃ (pool pool' : Fin 5 → CompileProgram (Except CompileError Path)) (s s' : Shared (Fin 5)),
      Program.Turns Shared.answer (Shared.Stirred aliasSource fun contents =>
          aliasCompiler.artifactName aliasOptions (.ofString "/a.html") contents =
            aliasCompiler.artifactName aliasOptions (.ofString "/a.html") [99])
        (fun _ => aliasCall) aliasStart pool s ∧
      s.system.contents aliasSource = .ok [99] ∧ pool 4 = aliasCall ∧
      Program.Turns Shared.answer Shared.Passes pool s pool' s' ∧
      pool' 4 = .done (.ok aliasPath) ∧ s'.system.status aliasPath = .error .missing := by
  have hsound : aliasStart.system.Sound :=
    { tree := Disk.isTree_of_hangs (by decide) (by decide), working := ⟨⟨0, 0⟩, by decide⟩ }
  have hanswer : (aliasCall.run (Shared.answer 4) aliasLatest).1 = .ok aliasPath := by
    decide +kernel
  have hbegin : aliasReplaced.1 4 = aliasCall :=
    ((Overlap.turns (w := aliasReplaced) rfl Shared.Passes).2 4 (by decide)).trans
      ((Overlap.turns (w := aliasRead) rfl Shared.Passes).2 4 (by decide))
  have hname : aliasCompiler.artifactName aliasOptions (.ofString "/a.html") [98] ≠
      aliasCompiler.artifactName aliasOptions (.ofString "/a.html") [99] := by decide +kernel
  have hfifth : Program.Turns Shared.answer Shared.Passes aliasReplaced.1 aliasLatest _ _ :=
    .finish 4
  rw [hbegin, hanswer] at hfifth
  obtain ⟨hslow, hothers⟩ := Overlap.turns (w := aliasPruned) rfl Shared.Passes
  have hdone : aliasPruned.1 4 = .done (.ok aliasPath) := by
    rw [hothers 4 (by decide), Function.update_self]
  exact ⟨hsound, by decide +kernel, aliasReplaced.1, aliasPruned.1, aliasLatest, aliasPruned.2,
    turns_to_aliasLatest hname, by decide +kernel, hbegin,
    (hfifth.outside (Shared.passes_later _)).trans hslow, hdone, by decide +kernel⟩

end TemplateCache
