import TemplateCache.Proofs.Concurrent.Arriving

/-!
# A caller among others

From the store on, a caller finds the artifact or makes it, and removes what is expired if it made
it. The first part is settled by one look, for an artifact that is not there was not there when the
directory was opened. What is expired is removed by whoever comes first, and each caller counts what
it removed itself. Main statement: `keeps_template`.
-/

namespace TemplateCache

open FileSystem

namespace Scene

variable {ι : Type} {sc : Scene} {i : ι} {w w' : Noted ι}

theorem directoryAt_seen (hw : sc.Fine w) (hw' : sc.Fine w') (hseen : sc.Seen w w')
    (h : w.shared.system.DirectoryAt sc.store.dir) :
    w'.shared.system.DirectoryAt sc.store.dir :=
  h.mono hw.sound hw'.sound hseen.ways (hw'.workingDir.trans hw.workingDir.symm)

variable [DecidableEq ι]

/-! ## Looking for the artifact -/

theorem keeps_contains (hw : sc.Fine w) (hdir : w.shared.system.DirectoryAt sc.store.dir)
    (hfresh : Fresh i w) :
    sc.KeepsFiles i (fun there w => Fresh i w ∧
      (there = true → ∃ data t mode,
        w.shared.system.disk.get? sc.artifact = some (.file data t mode)) ∧
      (there = false → sc.opened.disk.get? sc.artifact = none)) (sc.store.contains sc.name) w := by
  unfold Store.contains FileProgram.isFile
  refine look_file (fun s => rfl) fun w' hlater => ?_
  have hworking := hlater.fine.working (directoryAt_later hw hlater hdir)
  have hreach := hworking.reaches hlater.fine
  have hfresh' := hfresh.later hlater
  have hlink : ∀ target t, w'.shared.system.disk.get? (sc.name.entryName :: sc.dir) ≠
      some (.link target t) := by
    intro target t hlink
    rcases hworking.artifact with ⟨hnone, -⟩ | ⟨data, t', mode, hfile, -⟩
    · cases hlink.symm.trans hnone
    · cases hlink.symm.trans hfile
  have hiff := status_isFile_iff askable_name hreach hlink
  dsimp only [FileSystem.answer]
  rcases hworking.artifact with ⟨hnone, hopened⟩ | ⟨data, t, mode, hfile, -⟩
  · have hnot : ∀ status, w'.shared.system.status (sc.store.artifactPath sc.name) = .ok status →
        status.isFile = false := by
      intro status hstatus
      by_contra hfile
      obtain ⟨data, t, mode, hthere⟩ := hiff.mp ⟨status, hstatus, by simpa using hfile⟩
      cases hthere.symm.trans hnone
    cases hstatus : w'.shared.system.status (sc.store.artifactPath sc.name) with
    | ok status =>
        dsimp only
        rw [hnot status hstatus]
        exact ⟨hfresh', by simp, fun _ => hopened⟩
    | error e => exact ⟨hfresh', by simp, fun _ => hopened⟩
  · obtain ⟨status, hstatus, hisFile⟩ := hiff.mpr ⟨data, t, mode, hfile⟩
    change w'.shared.system.status (sc.store.artifactPath sc.name) = _ at hstatus
    rw [hstatus]
    dsimp only
    rw [hisFile]
    exact ⟨hfresh', fun _ => ⟨data, t, mode, hfile⟩, by simp⟩

/-! ## Writing it -/

/-- A caller that has written the artifact, and has told nothing of it yet. -/
structure Written (i : ι) (w : Noted ι) : Prop where
  temporary : (w.notes i).temporary = none
  wrote : (w.notes i).wrote = true
  nothing : (w.notes i).removed = []
  removed : Event.removedIn (w.shared.events i) = 0
  told : Event.wroteIn (w.shared.events i) = 0

theorem keeps_write [Fintype ι] (hw : sc.Fine w)
    (hroom : sc.Room (Fintype.card ι))
    (hdir : w.shared.system.DirectoryAt sc.store.dir) (hfresh : Fresh i w)
    (hopened : sc.opened.disk.get? sc.artifact = none) :
    sc.KeepsFiles i (fun result w => result = .ok sc.path ∧ Written i w ∧
      ∃ data t mode, w.shared.system.disk.get? sc.artifact = some (.file data t mode))
      (sc.store.write sc.name sc.out) w := by
  unfold Store.write
  refine change_file fun w' hlater => ?_
  have hdir' := directoryAt_later hw hlater hdir
  have hfresh' := hfresh.later hlater
  obtain ⟨k, s, hask, htemporary, hstep⟩ :=
    (hlater.fine.working hdir').temporary_step hlater.fine hroom hfresh'.idle
  dsimp only [FileSystem.answer]
  rw [htemporary]
  refine ⟨_, rfl, hstep, ?_⟩
  dsimp only
  refine change_file fun w'' hlater' => ?_
  have hdir'' := directoryAt_later hstep.fine hlater'
    (directoryAt_seen hlater.fine hstep.fine hstep.seen hdir')
  obtain ⟨hnotes, hevents⟩ := hlater'.spared
  have hnote : w''.notes i = ⟨some k, some k, false, []⟩ := by
    rw [hnotes, Noted.notes_turn_self]
  obtain ⟨s', hrename, ⟨t, hfile⟩, hstep'⟩ := (hlater'.fine.working hdir'').rename_step hlater'.fine
    (i := i) (k := k) (by rw [hnote]) hask hopened
  dsimp only [FileSystem.answer]
  change w''.shared.system.rename _ (sc.store.artifactPath sc.name) = _ at hrename
  rw [hrename]
  refine ⟨_, rfl, hstep', rfl, ⟨?_, ?_, ?_, ?_, ?_⟩, ?_⟩
  · rw [Noted.notes_turn_self]
  · rw [Noted.notes_turn_self]
  · rw [Noted.notes_turn_self, hnote]
  · rw [Noted.turn_events, hevents]
    exact hfresh'.removed
  · rw [Noted.turn_events, hevents]
    exact hfresh'.wrote
  · exact ⟨sc.out, t, fileMode, hfile⟩

/-! ## Removing what is expired -/

/-- What changes about a caller that removes some entries. -/
structure Removing (i : ι) (n : Nat) (w w' : Noted ι) : Prop where
  temporary : (w'.notes i).temporary = (w.notes i).temporary
  wrote : (w'.notes i).wrote = (w.notes i).wrote
  removed : (w'.notes i).removed.length = n + (w.notes i).removed.length
  events : w'.shared.events i = w.shared.events i

omit [DecidableEq ι] in
theorem Removing.of_later (hlater : (sc.pact ι).Later i w w') : Removing i 0 w w' := by
  obtain ⟨hnotes, hevents⟩ := hlater.spared
  exact ⟨by rw [hnotes], by rw [hnotes], by rw [hnotes, Nat.zero_add], hevents⟩

omit [DecidableEq ι] in
theorem Removing.trans {m n : Nat} {w'' : Noted ι} (h : Removing i m w w')
    (h' : Removing i n w' w'') : Removing i (m + n) w w'' := by
  refine ⟨h'.temporary.trans h.temporary, h'.wrote.trans h.wrote, ?_, h'.events.trans h.events⟩
  rw [h'.removed, h.removed]
  omega

omit [DecidableEq ι] in
/-- What stands under a sibling's name was there at first, and is a regular file. -/
theorem Working.other (h : sc.Working w) {x : Name} (hx : Store.isOther sc.name x = true) {n : Node}
    (hn : w.shared.system.disk.get? (x :: sc.dir) = some n) :
    sc.opened.disk.get? (x :: sc.dir) = some n ∧ ∃ data t mode, n = .file data t mode := by
  obtain ⟨text, rfl, -, hsibling⟩ := ArtifactName.spelt_of_isOther isWorded_name hx
  cases h.fate (Utf8.encode text :: sc.dir) with
  | same hsame =>
      obtain ⟨n', hn', hlike⟩ := hsame.symm.some hn
      obtain ⟨data, t, mode, rfl⟩ := sc.regular text n' hsibling hn'
      rw [hsame.eq_some hn' rfl] at hn
      cases hn
      exact ⟨hn', data, t, mode, rfl⟩
  | written hl _ _ =>
      have hself := (List.cons.inj hl).1
      rw [hself] at hx
      exact absurd hx (Store.not_isOther_self _)
  | removed _ _ _ hnone =>
      rw [hn] at hnone
      cases hnone
  | temporary hl _ =>
      have hreserved := ArtifactName.reserved_of_isOther hx
      exact absurd (List.cons.inj hl).1.symm (ArtifactName.reserved_ne_temporaryName hreserved _)

theorem keeps_pruneEntry (hw : sc.Fine w) (hdir : w.shared.system.DirectoryAt sc.store.dir)
    (hopened : sc.opened.disk.get? sc.artifact = none) {x : Name}
    (hx : Store.isOther sc.name x = true) {time : Moment} (htime : sc.time = some time) :
    sc.KeepsFiles i (fun result w' => ∃ p, result = .ok p ∧
      Removing i (if p = .removed then 1 else 0) w w' ∧
      (sc.Expired x → w'.shared.system.disk.get? (x :: sc.dir) = none))
      (sc.store.pruneEntry time x) w := by
  unfold Store.pruneEntry
  refine look_file (fun s => rfl) fun w₁ hlater₁ => ?_
  have hdir₁ := directoryAt_later hw hlater₁ hdir
  have hworking₁ := hlater₁.fine.working hdir₁
  have hkept := Removing.of_later hlater₁
  dsimp only [FileSystem.answer]
  rw [entryStatus_of_reaches hlater₁.fine.sound sc.check (hworking₁.reaches hlater₁.fine)]
  cases hn : w₁.shared.system.disk.get? (x :: sc.dir) with
  | none => exact ⟨.kept, rfl, hkept, fun _ => hn⟩
  | some n =>
      obtain ⟨hfile, data, t, mode, rfl⟩ := hworking₁.other hx hn
      dsimp only [Node.status, Node.modified]
      split
      · rename_i hyoung
        refine ⟨.kept, rfl, hkept, ?_⟩
        -- what is not old enough was not to be removed
        rintro ⟨-, -, data', t', mode', time', hfile', htime', hbefore⟩
        rw [hfile] at hfile'
        rw [htime] at htime'
        cases hfile'
        cases htime'
        simp [hbefore] at hyoung
      · rename_i hold
        have hexpired : sc.Expired x :=
          ⟨hx, hopened, data, t, mode, time, hfile, htime, by simpa using hold⟩
        refine change_file fun w₂ hlater₂ => ?_
        have hdir₂ := directoryAt_later hlater₁.fine hlater₂ hdir₁
        have hworking₂ := hlater₂.fine.working hdir₂
        have hkept₂ := hkept.trans (.of_later hlater₂)
        dsimp only [FileSystem.answer]
        rcases hworking₂.expired hexpired with hsame | hnone
        · rw [hfile] at hsame
          obtain ⟨hremove, hstep⟩ := hworking₂.remove_step hlater₂.fine i hexpired hsame
          rw [hremove]
          refine ⟨_, rfl, hstep, .removed, rfl, ⟨?_, ?_, ?_, hkept₂.events⟩,
            fun _ => get?_drop_self⟩
          · rw [Noted.notes_turn_self]
            exact hkept₂.temporary
          · rw [Noted.notes_turn_self]
            exact hkept₂.wrote
          · rw [Noted.notes_turn_self, List.length_cons, hkept₂.removed]
            simp [Nat.add_comm]
        -- someone else was faster
        · rw [remove_of_absent hexpired.askable (hworking₂.reaches hlater₂.fine) hnone]
          exact ⟨w₂, rfl, .refl hlater₂.fine, .kept, rfl, hkept₂, fun _ => hnone⟩

theorem keeps_pruneEntries (hw : sc.Fine w) (hdir : w.shared.system.DirectoryAt sc.store.dir)
    (hopened : sc.opened.disk.get? sc.artifact = none) (names : List Name)
    (hnames : ∀ x ∈ names, Store.isOther sc.name x = true) {time : Moment}
    (htime : sc.time = some time) :
    sc.KeepsFiles i (fun result w' => ∃ n, result = .ok n ∧ Removing i n w w' ∧
      ∀ x ∈ names, sc.Expired x → w'.shared.system.disk.get? (x :: sc.dir) = none)
      (sc.store.pruneEntries time names) w := by
  induction names generalizing w with
  | nil => exact ⟨0, rfl, .of_later (.refl hw), fun x hx => (by cases hx)⟩
  | cons x rest ih =>
      unfold Store.pruneEntries
      have hfirst := keeps_pruneEntry (i := i) hw hdir hopened (hnames x List.mem_cons_self) htime
      refine hfirst.and_seen.bind hw ?_
      rintro _ w₁ hw₁ ⟨⟨p, rfl, hremoving, hgone⟩, hseen⟩
      dsimp only
      have hrest := ih hw₁ (directoryAt_seen hw hw₁ hseen hdir)
        fun y hy => hnames y (List.mem_cons_of_mem _ hy)
      refine hrest.and_seen.bind hw₁ ?_
      rintro _ w₂ hw₂ ⟨⟨n, rfl, hremoving', hgone'⟩, hseen'⟩
      refine ⟨if p = .removed then n + 1 else n, rfl, ?_, fun y hy hexpired => ?_⟩
      · have hboth := hremoving.trans hremoving'
        split
        · rename_i hp
          rw [if_pos hp, Nat.add_comm] at hboth
          exact hboth
        · rename_i hp
          rw [if_neg hp, Nat.zero_add] at hboth
          exact hboth
      · rcases List.mem_cons.mp hy with rfl | hy
        · exact hseen'.removed y hexpired (hgone hexpired)
        · exact hgone' y hy hexpired

/-- A caller that goes through the store leaves nothing there that is expired. -/
theorem keeps_prune (hw : sc.Fine w) (hdir : w.shared.system.DirectoryAt sc.store.dir)
    (hopened : sc.opened.disk.get? sc.artifact = none) {time : Moment}
    (htime : sc.time = some time) :
    sc.KeepsFiles i (fun result w' => ∃ n, result = .ok n ∧ Removing i n w w' ∧
      ∀ x, sc.Expired x → w'.shared.system.disk.get? (x :: sc.dir) = none)
      (sc.store.prune sc.name time) w := by
  unfold Store.prune
  refine look_file (fun s => rfl) fun w₁ hlater₁ => ?_
  have hdir₁ := directoryAt_later hw hlater₁ hdir
  have hreach := (hlater₁.fine.working hdir₁).reaches hlater₁.fine
  dsimp only [FileSystem.answer]
  rw [names_of_reaches hlater₁.fine.sound sc.check hreach]
  dsimp only
  have hentries := keeps_pruneEntries (i := i) hlater₁.fine hdir₁ hopened
    ((w₁.shared.system.disk.names sc.dir).filter (Store.isOther sc.name))
    (fun x hx => (List.mem_filter.mp hx).2) htime
  refine hentries.and_seen.mono hlater₁.fine ?_
  rintro _ w₂ - ⟨⟨n, rfl, hremoving, hgone⟩, hseen⟩
  refine ⟨n, rfl, by simpa using (Removing.of_later hlater₁).trans hremoving, fun x hexpired => ?_⟩
  by_cases hthere : x ∈ w₁.shared.system.disk.names sc.dir
  · exact hgone x (List.mem_filter.mpr ⟨hthere, hexpired.other⟩) hexpired
  · refine hseen.removed x hexpired ?_
    by_contra hnone
    exact hthere ((Disk.mem_names_iff _ _ _).mpr (Option.ne_none_iff_exists'.mp hnone))

/-! ## The whole call -/

/-- A caller whose work is done: it has no temporary file, what is expired is gone if it wrote the
artifact, and its events tell what it did. -/
structure Settled (sc : Scene) (i : ι) (w : Noted ι) : Prop where
  temporary : (w.notes i).temporary = none
  cleared : (w.notes i).wrote = true → ∀ x, sc.Expired x →
    w.shared.system.disk.get? (x :: sc.dir) = none
  removed : Event.removedIn (w.shared.events i) = (w.notes i).removed.length
  told : Event.wroteIn (w.shared.events i) = if (w.notes i).wrote then 1 else 0

omit [DecidableEq ι] in
theorem Fresh.settled (h : Fresh i w) : sc.Settled i w := by
  refine ⟨by rw [h.idle]; rfl, fun hwrote => ?_, ?_, ?_⟩
  · rw [h.idle] at hwrote
    cases hwrote
  · rw [h.idle, h.removed]
    rfl
  · rw [h.idle, h.wrote]
    rfl

omit [DecidableEq ι] in
/-- The time of the source can be asked for by all callers or by none. -/
theorem status_origin (hw : sc.Fine w) (status : Status) :
    w.shared.system.status (Location.path sc.origin) = .ok status ↔
      sc.start.status (Location.path sc.origin) = .ok status := by
  rw [status_path_iff hw.sound hw.origin sc.leaf, status_path_iff sc.sound get?_origin sc.leaf]

/-- A caller that has written the artifact and told so, and has removed so many entries, which it has
not told yet. -/
structure Unreported (i : ι) (n : Nat) (w : Noted ι) : Prop where
  temporary : (w.notes i).temporary = none
  wrote : (w.notes i).wrote = true
  removed : (w.notes i).removed.length = n
  nothing : Event.removedIn (w.shared.events i) = 0
  told : Event.wroteIn (w.shared.events i) = 1

theorem Written.unreported (h : Written i w) (hlater : (sc.pact ι).Later i w w') (p : Path)
    (size : Nat) : Unreported i 0 (Scene.told w' i (.wrote p size)) := by
  obtain ⟨hnotes, hevents⟩ := hlater.spared
  have hnote : (Scene.told w' i (.wrote p size)).notes i = w.notes i := hnotes
  refine ⟨by rw [hnote, h.temporary], by rw [hnote, h.wrote], by rw [hnote, h.nothing]; rfl, ?_, ?_⟩
  · rw [events_told, Event.removedIn_cons, hevents, h.removed]
    rfl
  · rw [events_told, Event.wroteIn_cons, hevents, h.told]
    rfl

omit [DecidableEq ι] in
theorem Unreported.removing {m n : Nat} (h : Unreported i m w) (h' : Removing i n w w') :
    Unreported i (n + m) w' :=
  ⟨h'.temporary.trans h.temporary, h'.wrote.trans h.wrote, by rw [h'.removed, h.removed],
    by rw [h'.events, h.nothing], by rw [h'.events, h.told]⟩

omit [DecidableEq ι] in
/-- Where nothing was removed there is nothing more to tell. -/
theorem Unreported.settled (h : Unreported i 0 w)
    (hcleared : ∀ x, sc.Expired x → w.shared.system.disk.get? (x :: sc.dir) = none) :
    sc.Settled i w :=
  ⟨h.temporary, fun _ => hcleared, by rw [h.nothing, h.removed], by rw [h.told, h.wrote]; rfl⟩

/-- Else it has to be told how many entries were removed. -/
theorem Unreported.report {n : Nat} (h : Unreported i n w) (hlater : (sc.pact ι).Later i w w')
    {e : Event} (hremoved : e.removed = n) (hwrote : e.isWrote = false)
    (hcleared : ∀ x, sc.Expired x → w'.shared.system.disk.get? (x :: sc.dir) = none) :
    sc.Settled i (Scene.told w' i e) := by
  obtain ⟨hnotes, hevents⟩ := hlater.spared
  have hnote : (Scene.told w' i e).notes i = w.notes i := hnotes
  refine ⟨by rw [hnote, h.temporary], fun _ => hcleared, ?_, ?_⟩
  · rw [hnote, events_told, Event.removedIn_cons, hevents, h.nothing, h.removed, hremoved]
    rfl
  · rw [hnote, events_told, Event.wroteIn_cons, hevents, h.told, h.wrote, hwrote]
    rfl

theorem keeps_pruneAfter (hw : sc.Fine w) (hdir : w.shared.system.DirectoryAt sc.store.dir)
    (hopened : sc.opened.disk.get? sc.artifact = none) (hwritten : Unreported i 0 w) :
    sc.KeepsCall i (fun _ w => sc.Settled i w)
      (Compiler.pruneAfter sc.store sc.name (Location.path sc.origin)) w := by
  unfold Compiler.pruneAfter
  refine look_call (fun s => rfl) fun w₁ hlater₁ => ?_
  have hiff := status_origin hlater₁.fine
  have hwritten₁ := hwritten.removing (.of_later hlater₁)
  dsimp only [FileSystem.answer]
  cases hstatus : w₁.shared.system.status (Location.path sc.origin) with
  | error e =>
      refine tell_last fun w₂ hlater₂ => hwritten₁.report hlater₂ rfl rfl fun x hexpired => ?_
      -- without a time of the source nothing is expired
      obtain ⟨-, -, _, _, _, time, -, htime, -⟩ := hexpired
      unfold Scene.time at htime
      split at htime
      · rename_i status hstart
        rw [(hiff status).mpr hstart] at hstatus
        cases hstatus
      · cases htime
  | ok status =>
      have htime : sc.time = some status.modified := by
        unfold Scene.time
        rw [(hiff status).mp hstatus]
      dsimp only
      have hprune := keeps_prune (i := i) hlater₁.fine (directoryAt_later hw hlater₁ hdir)
        hopened htime
      refine (Pact.Keeps.onFiles hprune).bind hlater₁.fine ?_
      rintro _ w₂ hw₂ ⟨n, rfl, hremoving, hgone⟩
      have hwritten₂ := hwritten₁.removing hremoving
      cases n with
      | zero => exact hwritten₂.settled hgone
      | succ n =>
          refine tell_last fun w₃ hlater₃ => hwritten₂.report hlater₃ rfl rfl fun x hexpired => ?_
          exact hlater₃.seen.removed x hexpired (hgone x hexpired)

/-- What a call has come to. -/
structure Finished (sc : Scene) (i : ι) (result : Except CompileError Path) (w : Noted ι) :
    Prop where
  result : result = .ok sc.path
  directory : w.shared.system.DirectoryAt sc.store.dir
  artifact : ∃ data t mode, w.shared.system.disk.get? sc.artifact = some (.file data t mode)
  settled : sc.Settled i w

theorem keeps_make [Fintype ι] (hw : sc.Fine w)
    (hroom : sc.Room (Fintype.card ι))
    (hdir : w.shared.system.DirectoryAt sc.store.dir) (hfresh : Fresh i w)
    (hopened : sc.opened.disk.get? sc.artifact = none) :
    sc.KeepsCall i (sc.Finished i)
      (sc.compiler.make sc.options sc.store (Location.path sc.origin) sc.contents) w := by
  have happly : sc.compiler.transform.apply sc.contents sc.options = .ok sc.out := by
    rcases sc.outcome with ⟨n, hn⟩ | happly
    · cases hn.symm.trans hopened
    · exact happly
  unfold Compiler.make
  refine tell_call fun w₁ hlater₁ => ?_
  have hfine : sc.Fine (told w₁ i (.miss (Location.path sc.origin) sc.store.dir)) :=
    hlater₁.fine.of_eq rfl rfl rfl rfl hlater₁.fine.held rfl
  rw [happly]
  dsimp only
  have hdir₁ := directoryAt_later hw hlater₁ hdir
  have hwrite := keeps_write hfine hroom hdir₁ ((hfresh.later hlater₁).told rfl rfl) hopened
  refine (Pact.Keeps.onFiles hwrite).and_seen.bind hfine ?_
  rintro _ w₂ hw₂ ⟨⟨rfl, hwritten, data, t, mode, hfile⟩, hseen⟩
  have hdir₂ := directoryAt_seen hfine hw₂ hseen hdir₁
  refine tell_call fun w₃ hlater₃ => ?_
  have hfine₃ : sc.Fine (told w₃ i (.wrote sc.path sc.out.length)) :=
    hlater₃.fine.of_eq rfl rfl rfl rfl hlater₃.fine.held rfl
  have hdir₃ := directoryAt_later hw₂ hlater₃ hdir₂
  have hafter := keeps_pruneAfter hfine₃ hdir₃ hopened (hwritten.unreported hlater₃ _ _)
  refine hafter.and_seen.bind hfine₃ ?_
  rintro _ w₄ hw₄ ⟨hsettled, hseen'⟩
  obtain ⟨t', hfile'⟩ := hlater₃.seen.artifact data t mode hfile
  obtain ⟨t'', hfile''⟩ := hseen'.artifact data t' mode hfile'
  exact ⟨rfl, directoryAt_seen hfine₃ hw₄ hseen' hdir₃, ⟨data, t'', mode, hfile''⟩, hsettled⟩

theorem keeps_compileInto [Fintype ι] (hw : sc.Fine w)
    (hroom : sc.Room (Fintype.card ι))
    (hfresh : Fresh i w) :
    sc.KeepsCall i (sc.Finished i)
      (sc.compiler.compileInto sc.options sc.dest (Location.path sc.origin) sc.contents) w := by
  unfold Compiler.compileInto
  refine (Pact.Keeps.onFiles (keeps_openAt hw hfresh)).bind hw ?_
  rintro _ w₁ hw₁ ⟨rfl, hdir, hfresh₁⟩
  dsimp only
  refine (Pact.Keeps.onFiles (keeps_contains hw₁ hdir hfresh₁)).and_seen.bind hw₁ ?_
  rintro there w₂ hw₂ ⟨⟨hfresh₂, hthere, habsent⟩, hseen⟩
  have hdir₂ := directoryAt_seen hw₁ hw₂ hseen hdir
  cases there with
  | false => exact keeps_make hw₂ hroom hdir₂ hfresh₂ (habsent rfl)
  | true =>
      obtain ⟨data, t, mode, hfile⟩ := hthere rfl
      refine tell_call fun w₃ hlater => ?_
      obtain ⟨t', hfile'⟩ := hlater.seen.artifact data t mode hfile
      have hfresh₃ := (hfresh₂.later hlater).told
        (e := .hit (Location.path sc.origin) sc.path) rfl rfl
      exact ⟨rfl, directoryAt_later hw₂ hlater hdir₂, ⟨data, t', mode, hfile'⟩, hfresh₃.settled⟩

/-- A call comes to the same as the call of the scene, whatever other callers do meanwhile. -/
theorem keeps_template [Fintype ι]
    (hroom : sc.Room (Fintype.card ι))
    (hfresh : Fresh i w) :
    sc.KeepsCall i (sc.Finished i) (sc.compiler.template sc.source sc.options) w := by
  have hcontents : ∀ {w : Noted ι}, sc.Fine w →
      w.shared.system.contents sc.source = .ok sc.contents := by
    intro w hw
    rw [contents_mono hw.ways hw.workingDir sc.follow hw.origin, sc.read]
  have hcanonical : ∀ {w : Noted ι}, sc.Fine w →
      w.shared.system.canonical sc.source = .ok (Location.path sc.origin) := fun hw =>
    canonical_mono hw.ways hw.workingDir sc.canonical sc.follow hw.origin
  unfold Compiler.template
  refine look_call (fun s => rfl) fun w₁ hlater₁ => ?_
  dsimp only [FileSystem.answer]
  rw [hcontents hlater₁.fine]
  refine look_call (fun s => rfl) fun w₂ hlater₂ => ?_
  dsimp only [FileSystem.answer]
  rw [hcanonical hlater₂.fine]
  refine (keeps_destination hlater₂.fine ((hfresh.later hlater₁).later hlater₂)).bind hlater₂.fine ?_
  rintro _ w₃ hw₃ ⟨rfl, hfresh₃⟩
  exact keeps_compileInto hw₃ hroom hfresh₃

omit [DecidableEq ι] in
/-- What a caller has come to stays so. -/
theorem Finished.stable {result : Except CompileError Path} (hw : sc.Fine w)
    (h : sc.Finished i result w) (hlater : (sc.pact ι).Later i w w') : sc.Finished i result w' := by
  obtain ⟨hnotes, hevents⟩ := hlater.spared
  obtain ⟨data, t, mode, hfile⟩ := h.artifact
  obtain ⟨t', hfile'⟩ := hlater.seen.artifact data t mode hfile
  refine ⟨h.result, directoryAt_seen hw hlater.fine hlater.seen h.directory,
    ⟨data, t', mode, hfile'⟩, ?_⟩
  refine ⟨by rw [hnotes]; exact h.settled.temporary, fun hwrote x hexpired => ?_,
    by rw [hnotes, hevents]; exact h.settled.removed,
    by rw [hnotes, hevents]; exact h.settled.told⟩
  rw [hnotes] at hwrote
  exact hlater.seen.removed x hexpired (h.settled.cleared hwrote x hexpired)

end Scene

end TemplateCache
