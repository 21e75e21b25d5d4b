import TemplateCache.Proofs.Concurrent.Watch

/-!
# Slow calls spare what is new

A call may be slow: between its read of the source and its last removal the source may be edited,
and other calls may come and go. Each of its parts takes no steps but those that the pact of a watch
allows, whatever it has read and whatever happens meanwhile: `keeps_openAt`, `keeps_write` and
`keeps_pruneAfter`. What it writes for the latest contents stands then.
-/

namespace TemplateCache

open FileSystem

namespace Shared

variable {ι : Type}

/-- Time passes, and does not go back. -/
def Passes (s s' : Shared ι) : Prop :=
  ∃ now, s.system.now ≤ now ∧ s' = { s with system := { s.system with now := now } }

/-- A source is written, and gets the time that it is. -/
def Edited (source : Path) (s s' : Shared ι) : Prop :=
  ∃ data system, s.system.writeHere source data s.system.now = .ok system ∧
    s' = { s with system := system }

/-- Time passes, or a source is edited that does not hold certain contents yet. -/
def Stirred (source : Path) (last : Bytes → Prop) (s s' : Shared ι) : Prop :=
  s.Passes s' ∨ s.Edited source s' ∧
    ∀ contents, s.system.contents source = .ok contents → ¬last contents

end Shared

namespace Watch

variable {ι α β : Type} {wt : Watch} {i : ι} {w w' : Shared ι}
  {P : α → FileSystem → Prop} {Q : β → FileSystem → Prop}

/-- A change of the files leaves all else as it was. -/
theorem Holds.moves (hw : wt.Holds w) {s : FileSystem} (h : wt.Moves w.system s) :
    wt.Holds { w with system := s } := ⟨h.fine, hw.held⟩

theorem bears_passes : (wt.pact ι).Bears Shared.Passes := by
  rintro w _ hw ⟨now, hnow, rfl⟩
  have hw : wt.Holds w := hw
  have hmoves := hw.fine.tick hnow
  exact ⟨_, rfl, hw.moves hmoves, hmoves.seen, fun _ => trivial⟩

theorem bears_stirred : (wt.pact ι).Bears
    (Shared.Stirred wt.source fun contents => wt.nameOf contents = wt.name) := by
  rintro w s hw (hpasses | ⟨⟨data, system, hwritten, rfl⟩, hold⟩)
  · exact bears_passes hw hpasses
  · have hw : wt.Holds w := hw
    have hmoves := hw.fine.edit hold hwritten
    exact ⟨_, rfl, hw.moves hmoves, hmoves.seen, fun _ => trivial⟩

variable [DecidableEq ι]

/-- A program on files keeps the pact of a watch. -/
abbrev KeepsFiles (wt : Watch) (i : ι) (P : α → FileSystem → Prop) (p : FileProgram α)
    (w : Shared ι) : Prop :=
  (wt.pact ι).Keeps (I := FileInterface) Shared.onSystem i (fun a w => P a w.system) p w

/-- So does a part of a call. -/
abbrev KeepsCall (wt : Watch) (i : ι) (P : α → FileSystem → Prop) (p : CompileProgram α)
    (w : Shared ι) : Prop :=
  (wt.pact ι).Keeps (I := CompileInterface) Shared.answer i (fun a w => P a w.system) p w

/-! ## Questions -/

theorem look_file {r : Request} {k : r.Answer → FileProgram β}
    (hstill : ∀ s, (FileSystem.answer r s).2 = s)
    (h : ∀ w', (wt.pact ι).Later i w w' →
      wt.KeepsFiles i Q (k (FileSystem.answer r w'.system).1) w') :
    wt.KeepsFiles i Q (FileProgram.ask r >>= k) w := Pact.Keeps.look_file hstill h

theorem look_call {r : Request} {k : r.Answer → CompileProgram β}
    (hstill : ∀ s, (FileSystem.answer r s).2 = s)
    (h : ∀ w', (wt.pact ι).Later i w w' →
      wt.KeepsCall i Q (k (FileSystem.answer r w'.system).1) w') :
    wt.KeepsCall i Q (CompileProgram.ask (.file r) >>= k) w := Pact.Keeps.look_call hstill h

theorem change_file {r : Request} {k : r.Answer → FileProgram β}
    (h : ∀ w' : Shared ι, (wt.pact ι).Later i w w' →
      wt.Moves w'.system (FileSystem.answer r w'.system).2 ∧
      wt.KeepsFiles i Q (k (FileSystem.answer r w'.system).1)
        { w' with system := (FileSystem.answer r w'.system).2 }) :
    wt.KeepsFiles i Q (FileProgram.ask r >>= k) w := by
  refine Pact.Keeps.change_file fun w' hlater => ?_
  obtain ⟨hmoves, hrest⟩ := h w' hlater
  exact ⟨_, rfl, ⟨hlater.fine.moves hmoves, hmoves.seen, fun _ _ => trivial⟩, hrest⟩

/-- An event touches no file. -/
theorem keeps_tell (e : Event) :
    wt.KeepsCall i (fun _ s => wt.Seen w.system s) (CompileProgram.ask (.tell e)) w := by
  intro w' hlater
  exact ⟨_, rfl, ⟨⟨hlater.fine.fine, hlater.fine.held⟩, .refl _, fun _ _ => trivial⟩, hlater.seen⟩

/-! ## Coming to the store -/

/-- Nobody is in the way of finding the directory. -/
theorem steady (wt : Watch) (i : ι) :
    (wt.pact ι).Steady wt.compiler wt.options ⟨wt.start, wt.held, []⟩ i fun _ => True where
  workingDir := fun {w} (h : wt.Holds w) => h.fine.workingDir
  resources := fun {w} (h : wt.Holds w) => h.fine.resources
  held := fun {w} (h : wt.Holds w) => h.held
  later := fun _ _ => trivial
  tell := fun {w} _ (h : wt.Holds w) _ =>
    ⟨_, rfl, ⟨⟨h.fine, h.held⟩, .refl _, fun _ _ => trivial⟩, trivial⟩
  publish := fun {w} dest hdest (h : wt.Holds w) _ =>
    ⟨{ w with held := some dest }, rfl,
      ⟨⟨h.fine, .inr ⟨dest, hdest, rfl⟩⟩, .refl _, fun _ _ => trivial⟩, trivial⟩

theorem keeps_unlessThere (p : Path) (e : SystemError) :
    wt.KeepsFiles i (fun _ _ => True) (FileProgram.unlessThere p e) w := by
  unfold FileProgram.unlessThere FileProgram.isDirectory
  rw [bind_assoc]
  refine look_file (fun s => rfl) fun w' hlater => ?_
  dsimp only [FileSystem.answer]
  cases w'.system.status p with
  | error e => trivial
  | ok status =>
      dsimp only
      rw [pure_bind]
      split <;> trivial

theorem keeps_makeDirectory {p : Path} (hp : p ∈ wt.rungs)
    {k : Except SystemError Unit → FileProgram β}
    (hk : ∀ result w', wt.Holds w' → wt.KeepsFiles i Q (k result) w') :
    wt.KeepsFiles i Q (FileProgram.ask (.makeDirectory p) >>= k) w := by
  refine change_file fun w' hlater => ?_
  have hmoves : wt.Moves w'.system (FileSystem.answer (.makeDirectory p) w'.system).2 := by
    dsimp only [FileSystem.answer, attempt]
    cases hmade : w'.system.makeDirectory p with
    | error e => exact .refl hlater.fine.fine
    | ok s' => exact hlater.fine.fine.makeDirectory hp hmade
  exact ⟨hmoves, hk _ _ (hlater.fine.moves hmoves)⟩

theorem keeps_makeAll {paths : List Path} (hpaths : paths ⊆ wt.rungs) :
    wt.KeepsFiles i (fun _ _ => True) (FileProgram.makeAll paths) w := by
  induction paths generalizing w with
  | nil => trivial
  | cons p above ih =>
      obtain ⟨hp, habove⟩ := List.cons_subset.mp hpaths
      unfold FileProgram.makeAll
      refine keeps_makeDirectory hp fun made w₁ hw₁ => ?_
      cases made with
      | ok u => trivial
      | error e =>
          dsimp only
          split
          · exact keeps_unlessThere p e
          · refine (ih habove).bind hw₁ fun made w₂ _ _ => ?_
            cases made with
            | error e => trivial
            | ok u =>
                refine keeps_makeDirectory (Q := fun _ _ => True) hp fun made w₃ _ => ?_
                cases made with
                | ok u => trivial
                | error e => exact keeps_unlessThere p e

theorem keeps_ensure {full : Path} (hfull : wt.Full full) :
    wt.KeepsFiles i (fun _ _ => True) (Store.ensure full) w := by
  unfold Store.ensure
  refine look_file (fun s => rfl) fun w₁ h₁ => ?_
  dsimp only [FileSystem.answer]
  cases w₁.system.status full with
  | ok status =>
      dsimp only
      split <;> trivial
  | error e =>
      dsimp only
      split
      · trivial
      · have hpaths : FileProgram.ancestors full ⊆ wt.rungs := by
          rw [hfull.rungs_eq]
          exact List.Subset.refl _
        refine (keeps_makeAll hpaths).bind h₁.fine fun made w₂ _ _ => ?_
        cases made <;> trivial

/-- Where a call opens its store, that is in the directory of all of them. -/
theorem keeps_openAt (hw : wt.Holds w) {dest : Path}
    (hdest : wt.compiler.destinationFrom wt.options ⟨wt.start, wt.held, []⟩ = .ok dest) :
    wt.KeepsFiles i (fun result _ => ∀ store, result = .ok store → wt.Full store.dir)
      (Store.openAt dest) w := by
  unfold Store.openAt
  refine ((wt.steady i).keeps_absolute trivial dest).bind hw fun result w₁ hw₁ h₁ => ?_
  obtain ⟨rfl, -⟩ := h₁
  cases habsolute : (wt.start.runFiles (Store.absolute dest)).1 with
  | error e => exact fun store he => by cases he
  | ok full =>
      have hfull : wt.Full full := ⟨dest, hdest, habsolute⟩
      refine (keeps_ensure hfull).bind hw₁ fun made w₂ _ _ => ?_
      cases made with
      | error e => exact fun store he => by cases he
      | ok u => exact fun store he => by cases he; exact hfull

/-! ## What a call comes to know -/

/-- A path that was answered for the latest contents: where the artifact was not there at first, a
file stands for it. -/
def Stands (wt : Watch) (p : Path) (s : FileSystem) : Prop :=
  ∃ (store : Store) (l : Location), p = store.artifactPath wt.name ∧ store.CanAsk wt.name ∧
    wt.Full store.dir ∧ s.Reaches store.dir l ∧
    (wt.New l → ∃ data t mode, s.disk.get? (wt.artifact l) = some (.file data t mode))

/-- What is known of a call's answer if it read the latest contents. -/
def Answers (wt : Watch) (contents : Bytes) (result : Except CompileError Path)
    (s : FileSystem) : Prop :=
  wt.nameOf contents = wt.name → ∀ p, result = .ok p → wt.Stands p s

/-- Once it stands, it stands. -/
theorem Stands.seen {p : Path} {s s' : FileSystem} (h : wt.Stands p s) (hseen : wt.Seen s s') :
    wt.Stands p s' := by
  obtain ⟨store, l, hp, hask, hfull, hreach, hfile⟩ := h
  refine ⟨store, l, hp, hask, hfull, hseen.reaches _ _ hfull hreach, fun hnew => ?_⟩
  obtain ⟨data, t, mode, hthere⟩ := hfile hnew
  exact hseen.kept l data t mode hnew hthere

theorem Answers.seen {contents : Bytes} {result : Except CompileError Path} {s s' : FileSystem}
    (h : wt.Answers contents result s) (hseen : wt.Seen s s') : wt.Answers contents result s' :=
  fun hname p hp => (h hname p hp).seen hseen

theorem Answers.error {contents : Bytes} {e : CompileError} {s : FileSystem} :
    wt.Answers contents (.error e) s := fun _ p hp => by cases hp

/-! ## Writing -/

theorem keeps_write {store : Store} (hfull : wt.Full store.dir) {contents : Bytes} (data : Bytes)
    (hlatest : wt.nameOf contents = wt.name → ∃ t, wt.Latest w.system t) :
    wt.KeepsFiles i (wt.Answers contents) (store.write (wt.nameOf contents) data) w := by
  unfold Store.write
  refine change_file fun w₁ h₁ => ?_
  dsimp only [FileSystem.answer]
  cases htemporary : w₁.system.temporary store.dir data with
  | error e => exact ⟨.refl h₁.fine.fine, Answers.error⟩
  | ok made =>
      obtain ⟨p, s₁⟩ := made
      obtain ⟨k, l, rfl, hmoves, hown⟩ := h₁.fine.fine.temporary hfull htemporary
      refine ⟨hmoves, change_file fun w₂ h₂ => ?_⟩
      have hown₂ := hown.seen h₂.seen
      have hlatest₂ : wt.nameOf contents = wt.name →
          ∃ t, wt.Latest w₂.system t ∧ t ≤ w₁.system.now := by
        intro hname
        obtain ⟨t, ht⟩ := hlatest hname
        have ht₁ := h₁.seen.latest ht
        exact ⟨t, (hmoves.seen.trans h₂.seen).latest ht₁, h₁.fine.fine.le_now ht₁⟩
      dsimp only [FileSystem.answer, attempt]
      cases hrename : w₂.system.rename (store.dir.join ⟨temporaryName k⟩)
        (store.artifactPath (wt.nameOf contents)) with
      | ok s₂ =>
          obtain ⟨hmoves₂, hreach, hask, hfile⟩ := h₂.fine.fine.rename hown₂ hlatest₂ hrename
          refine ⟨hmoves₂, fun hname p hp => ?_⟩
          cases hp
          rw [hname] at hask hfile ⊢
          exact ⟨store, l, rfl, hask, hfull, hreach, fun _ => hfile⟩
      | error e =>
          refine ⟨.refl h₂.fine.fine, change_file fun w₃ h₃ => ⟨?_, Answers.error⟩⟩
          dsimp only [FileSystem.answer, attempt]
          cases hremove : w₃.system.remove (store.dir.join ⟨temporaryName k⟩) with
          | ok s₃ => exact h₃.fine.fine.removeTemporary (hown₂.seen h₃.seen) hremove
          | error e => exact .refl h₃.fine.fine

/-! ## Pruning -/

/-- An entry is removed for its time, which another call may change before that. -/
theorem keeps_pruneEntry (hw : wt.Holds w) {store : Store} (hfull : wt.Full store.dir)
    {contents : Bytes} {time : Moment} (htime : wt.Past time w.system) {x : Name}
    (hother : Store.isOther (wt.nameOf contents) x = true) :
    wt.KeepsFiles i (fun _ _ => True) (store.pruneEntry time x) w := by
  unfold Store.pruneEntry
  refine look_file (fun s => rfl) fun w₁ h₁ => ?_
  dsimp only [FileSystem.answer]
  cases hstatus : w₁.system.entryStatus store.dir x with
  | error e => trivial
  | ok status =>
      dsimp only
      split
      · trivial
      · rename_i hbefore
        obtain ⟨l, n, hreach, hn, rfl⟩ := Store.entryStatus_eq_ok hstatus
        have hbefore : n.modified.before time = true := by simpa [Node.status] using hbefore
        refine change_file fun w₂ h₂ => ?_
        dsimp only [FileSystem.answer, attempt]
        cases hremove : w₂.system.remove (store.dir.join ⟨x⟩) with
        | error e =>
            refine ⟨.refl h₂.fine.fine, ?_⟩
            dsimp only
            split <;> trivial
        | ok s' =>
            refine ⟨h₂.fine.fine.removeSibling hfull hother ?_ hremove, trivial⟩
            rintro rfl l' hnew hreach' n' hn'
            cases (h₂.seen.reaches _ _ hfull hreach).unique hreach'
            -- what was so old was a directory, and a directory is never replaced
            have hdir := h₁.fine.fine.isDirectory_of_before
              (h₁.seen.past htime hw.fine.source_file) hnew hn hbefore
            obtain ⟨t, rfl⟩ := Node.isDirectory_iff.mp hdir
            obtain ⟨t', ht'⟩ := h₂.seen.directories _ t hn
            cases ht'.symm.trans hn'
            rfl

theorem keeps_pruneEntries (hw : wt.Holds w) {store : Store} (hfull : wt.Full store.dir)
    {contents : Bytes} {time : Moment} (htime : wt.Past time w.system) {names : List Name}
    (hothers : ∀ x ∈ names, Store.isOther (wt.nameOf contents) x = true) :
    wt.KeepsFiles i (fun _ _ => True) (store.pruneEntries time names) w := by
  induction names generalizing w with
  | nil => trivial
  | cons x rest ih =>
      unfold Store.pruneEntries
      refine (keeps_pruneEntry hw hfull htime
        (hothers x List.mem_cons_self)).and_seen.bind hw fun result w₁ hw₁ h₁ => ?_
      cases result with
      | error e => trivial
      | ok result =>
          refine (ih hw₁ (h₁.2.past htime hw.fine.source_file) fun y hy =>
            hothers y (List.mem_cons_of_mem _ hy)).bind hw₁ fun result' w₂ hw₂ _ => ?_
          cases result' <;> trivial

theorem keeps_prune (hw : wt.Holds w) {store : Store} (hfull : wt.Full store.dir)
    (contents : Bytes) {time : Moment} (htime : wt.Past time w.system) :
    wt.KeepsFiles i (fun _ _ => True) (store.prune (wt.nameOf contents) time) w := by
  unfold Store.prune
  refine look_file (fun s => rfl) fun w₁ h₁ => ?_
  dsimp only [FileSystem.answer]
  cases w₁.system.names store.dir with
  | error e => trivial
  | ok names =>
      exact keeps_pruneEntries h₁.fine hfull (h₁.seen.past htime hw.fine.source_file) fun x hx =>
        (List.mem_filter.mp hx).2

theorem keeps_tellPruned (hw : wt.Holds w) (result : Except CompileError Nat) :
    wt.KeepsCall i (fun _ _ => True) (Compiler.tellPruned result) w := by
  have htell : ∀ e, wt.KeepsCall i (fun _ _ => True) (CompileProgram.ask (.tell e)) w :=
    fun e => (keeps_tell e).mono hw fun _ _ _ _ => trivial
  cases result with
  | error e => exact htell _
  | ok n =>
      cases n with
      | zero => trivial
      | succ n => exact htell _

/-- The time to prune by is one that the source has while it is asked for. -/
theorem keeps_pruneAfter {store : Store} (hfull : wt.Full store.dir) (contents : Bytes) :
    wt.KeepsCall i (fun _ _ => True)
      (Compiler.pruneAfter store (wt.nameOf contents) (Location.path wt.origin)) w := by
  unfold Compiler.pruneAfter
  refine look_call (fun s => rfl) fun w₁ h₁ => ?_
  dsimp only [FileSystem.answer]
  cases hstatus : w₁.system.status (Location.path wt.origin) with
  | error e =>
      exact (keeps_tell _).mono h₁.fine fun _ _ _ _ => trivial
  | ok status =>
      have htime : wt.Past status.modified w₁.system := fun data t mode hfile =>
        (h₁.fine.fine.modified hstatus hfile).le
      exact (keeps_prune h₁.fine hfull contents htime).onFiles.bind h₁.fine
        fun result w₂ hw₂ _ => keeps_tellPruned hw₂ result

end Watch

end TemplateCache
