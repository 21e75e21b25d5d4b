import TemplateCache.Proofs.Compiler.DefaultDir
import TemplateCache.Proofs.Compiler.Frame
import TemplateCache.Proofs.Compiler.Gentle
import TemplateCache.Proofs.Store.Looking
import TemplateCache.Proofs.Store.Reaching

/-!
# Calls that fail

A call can fail before it comes to its directory, on the way there, at the transform and at the
write. Whatever it failed at, files and links are what they were: all that can be new are
directories on the way, with nothing in them but each other (`Compiler.Untouched`). There is no
regular file where the artifact would be. Some errors say that not even a directory was made, if
they are not the transform's own, which is asked when the directories are there and may answer any
error. What a call found as the default directory is kept also when the call fails.

After the artifact was renamed to its name nothing fails any more. This is a fact about the program
of a call and not about file systems, so it is stated for answers of any kind.

Main statement: `template_failure`.
-/

namespace TemplateCache

open FileSystem

namespace FileSystem

/-- Where a path to an entry leads to a regular file, the path of its directory leads to a
directory. -/
theorem directoryAt_of_isFile {s : FileSystem} (hs : s.Sound) {dir : Path}
    (hdir : dir.bytes ≠ []) {name : Name} (hplain : Name.IsPlain name) {status : Status}
    (h : s.status (dir.join ⟨name⟩) = .ok status) (hfile : status.isFile = true) :
    s.DirectoryAt dir := by
  obtain ⟨l, data, t, mode, hfollow⟩ := follow_of_isFile h hfile
  obtain ⟨hcheck, -, l', hreach, -⟩ := follow_join hplain hfollow
  exact (directoryAt_iff hs).mpr ⟨Path.checkPath_of_join hdir hplain hcheck, l', hreach⟩

end FileSystem

/-- An error that a call meets before it makes anything. -/
def CompileError.IsEarly : CompileError → Prop
  | .unreadable _ _ => True
  | .config (.notDirectory _) => True
  | .config (.noRoot _) => True
  | _ => False

namespace Store

theorem ensure_early {s s' : FileSystem} {full : Path} {e : CompileError}
    (h : s.runFiles (ensure full) = (.error e, s')) (he : e.IsEarly) : s' = s := by
  cases ensure_course h with
  | taken _ _ => rfl
  | unseen _ _ => rfl
  -- an error on making directories is that they cannot be written
  | unmade _ _ => exact he.elim

/-- A directory that turns out to be something else was not made in part. -/
theorem openAt_early {s s' : FileSystem} {dir : Path} {e : CompileError}
    (h : s.runFiles (openAt dir) = (.error e, s')) (he : e.IsEarly) : s' = s := by
  cases hfull : (s.runFiles (absolute dir)).1 with
  | error e' =>
      rw [runFiles_openAt_of_error hfull] at h
      cases h
      rfl
  | ok full =>
      rw [runFiles_openAt_of_ok hfull] at h
      cases hmade : s.runFiles (ensure full) with
      | mk result after =>
          rw [hmade] at h
          cases result with
          | ok u => cases h
          | error e' =>
              cases h
              exact ensure_early hmade he

theorem write_not_early {s s' : FileSystem} {store : Store} {n : ArtifactName} {data : Bytes}
    {e : CompileError} (h : s.runFiles (store.write n data) = (.error e, s')) : ¬e.IsEarly := by
  cases write_course h with
  | unmade _ => exact id
  | discarded _ _ => exact id

end Store

/-! ## A rename is the last step that counts -/

/-- A file was renamed to a path. -/
def RenamedTo (target : Path) : (q : CompileQuestion) → q.Answer → Prop
  | .file (.rename _ p), done => p = target ∧ done = .ok ()
  | _, _ => False

namespace FileProgram

open Program

variable {target : Path}

/-- A program that renames nothing. -/
abbrev Quiet {α : Type} (target : Path) (p : FileProgram α) : Prop :=
  p.Settles (fun r a => RenamedTo target (.file r) a) fun _ => False

theorem quiet_ask {r : Request} (h : ∀ a, ¬RenamedTo target (.file r) a) :
    Quiet target (ask r) := Settles.question h

/-- What is asked gently renames nothing. -/
theorem Gentle.quiet {α : Type} {p : FileProgram α} (h : p.Gentle) : Quiet target p := by
  refine h.weaken fun r a hrenamed hgentle => ?_
  cases r with
  | rename source p => exact hgentle
  | _ => exact hrenamed

end FileProgram

namespace Store

open Program FileProgram

variable {target : Path}

theorem quiet_prune (store : Store) (n : ArtifactName) (time : Moment) :
    Quiet target (store.prune n time) := by
  have hentry : ∀ name, Quiet target (store.pruneEntry time name) := by
    intro name
    refine Settles.bind_quiet (quiet_ask fun _ h => h) fun status => ?_
    cases status with
    | error e => exact Settles.pure _
    | ok status =>
        dsimp only
        split
        · exact Settles.pure _
        · refine Settles.bind_quiet (quiet_ask fun _ h => h) fun removed => ?_
          cases removed with
          | ok u => exact Settles.pure _
          | error e =>
              dsimp only
              split <;> exact Settles.pure _
  have hentries : ∀ names, Quiet target (store.pruneEntries time names) := by
    intro names
    induction names with
    | nil => exact Settles.pure _
    | cons name rest ih =>
        refine Settles.bind_quiet (hentry name) fun result => ?_
        cases result with
        | error e => exact Settles.pure _
        | ok result => exact Settles.bind_quiet ih fun n => by cases n <;> exact Settles.pure _
  refine Settles.bind_quiet (quiet_ask fun _ h => h) fun names => ?_
  cases names with
  | error e => exact Settles.pure _
  | ok names => exact hentries _

/-- Once the artifact has its name, writing it has succeeded. -/
theorem write_settles (store : Store) (n : ArtifactName) (data : Bytes) :
    (store.write n data).Settles (fun r a => RenamedTo target (.file r) a)
      (· = .ok target) := by
  refine Settles.bind_quiet (quiet_ask fun _ h => h) fun temporary => ?_
  cases temporary with
  | error e => exact Settles.pure _
  | ok temporary =>
      intro renamed
      cases renamed with
      | ok u =>
          refine ⟨fun htelling => ?_, trivial⟩
          exact congrArg Except.ok htelling.1
      | error e =>
          refine ⟨fun htelling => ?_, fun removed => ⟨fun h => h.elim, trivial⟩⟩
          cases htelling.2

end Store

namespace Compiler

open Program

variable {c : Compiler} {source : Path} {o : Options} {m : Machine}

theorem quiet_ask {target : Path} {q : CompileQuestion} (h : ∀ a, ¬RenamedTo target q a) :
    (CompileProgram.ask q).Settles (RenamedTo target) fun _ => False :=
  Settles.question (I := CompileInterface) h

theorem quiet_destination (c : Compiler) (o : Options) (target : Path) :
    (c.destination o).Settles (RenamedTo target) fun _ => False := by
  refine (c.gentle_destination o).weaken fun q a hrenamed hgentle => ?_
  cases q with
  | file r => cases r with
    | rename source p => exact hgentle
    | _ => exact hrenamed
  | _ => exact hrenamed

theorem quiet_pruneAfter (store : Store) (n : ArtifactName) (canonical target : Path) :
    (pruneAfter store n canonical).Settles (RenamedTo target) fun _ => False := by
  refine Settles.bind_quiet (quiet_ask fun _ h => h) fun status => ?_
  cases status with
  | error e => exact quiet_ask fun _ h => h
  | ok status =>
      refine Settles.bind_quiet
        (CompileProgram.Settles.onFiles (Store.quiet_prune store n _)) fun removed => ?_
      cases removed with
      | error e => exact quiet_ask fun _ h => h
      | ok k =>
          cases k with
          | zero => exact Settles.pure _
          | succ k => exact quiet_ask fun _ h => h

/-- From the write on there is one result left, and pruning has no say in it. -/
theorem make_settles (c : Compiler) (o : Options) (store : Store) (canonical : Path)
    (contents : Bytes) (target : Path) :
    (c.make o store canonical contents).Settles (RenamedTo target) (· = .ok target) := by
  refine Settles.bind_quiet (quiet_ask fun _ h => h) fun _ => ?_
  cases c.transform.apply contents o with
  | error e => exact Settles.pure _
  | ok out =>
      refine Settles.bind (CompileProgram.Settles.onFiles (store.write_settles _ out))
        (fun written hwritten => ?_) fun written => ?_
      · subst hwritten
        exact (Yields.any _).bind fun _ _ => (Yields.any _).bind fun _ _ => rfl
      · cases written with
        | error e => exact Settles.pure _
        | ok p =>
            exact Settles.bind_quiet (quiet_ask fun _ h => h) fun _ =>
              Settles.bind_quiet (quiet_pruneAfter _ _ _ _) fun _ => Settles.pure _

theorem template_settles (c : Compiler) (source : Path) (o : Options) (target : Path) :
    (c.template source o).Settles (RenamedTo target) (· = .ok target) := by
  refine Settles.bind_quiet (quiet_ask fun _ h => h) fun contents => ?_
  cases contents with
  | error e => exact Settles.pure _
  | ok contents =>
  refine Settles.bind_quiet (quiet_ask fun _ h => h) fun canonical => ?_
  cases canonical with
  | error e => exact Settles.pure _
  | ok canonical =>
  refine Settles.bind_quiet (c.quiet_destination o target) fun dir => ?_
  cases dir with
  | error e => exact Settles.pure _
  | ok dir =>
  refine Settles.bind_quiet (CompileProgram.Settles.onFiles (Store.gentle_openAt dir).quiet)
    fun store => ?_
  cases store with
  | error e => exact Settles.pure _
  | ok store =>
  refine Settles.bind_quiet (CompileProgram.Settles.onFiles (FileProgram.gentle_isFile _).quiet)
    fun there => ?_
  cases there with
  | true => exact Settles.bind_quiet (quiet_ask fun _ h => h) fun _ => Settles.pure _
  | false => exact c.make_settles o store canonical contents target

/-! ## What a failure leaves -/

/-- What is different after a call that failed. -/
structure Untouched (c : Compiler) (o : Options) (m : Machine) (after : FileSystem) : Prop where
  /-- Files and links are those from before, to the last byte. -/
  files : ∀ l node, node.isDirectory = false →
    (after.disk.get? l = some node ↔ m.system.disk.get? l = some node)
  /-- Directories stay. -/
  directories : ∀ l, (∃ t, m.system.disk.get? l = some (.directory t)) →
    ∃ t, after.disk.get? l = some (.directory t)
  /-- What is new is a directory on the way, and what is in it is as new. -/
  added : ∀ l node, m.system.disk.get? l = none → after.disk.get? l = some node →
    node.isDirectory = true ∧ c.OnTheWay o m l ∧ ∀ name, m.system.disk.get? (name :: l) = none
  setting : SameSetting m.system after

theorem Untouched.refl : c.Untouched o m m.system := by
  refine ⟨fun l node _ => Iff.rfl, fun l h => h, fun l node hnone hnode => ?_, .refl _⟩
  rw [hnone] at hnode
  cases hnode

/-- Opening a store, whether it succeeds or not, touches nothing. -/
theorem Untouched.of_openAt (hm : m.system.Sound) {d : Path}
    (hd : c.destinationFrom o m = .ok d) :
    c.Untouched o m (m.system.runFiles (Store.openAt d)).2 := by
  have hgrows := Store.openAt_grows hm d
  refine ⟨fun l node hdir => ?_, fun l ⟨t, ht⟩ => ?_, fun l node hnone hnode => ?_,
    hgrows.setting⟩
  · exact ⟨fun h => hgrows.eq_some_back h hdir, fun h => hgrows.eq_some h hdir⟩
  · exact hgrows.keepsWays.directory ht
  · obtain ⟨hdir, p, hp, hreach⟩ := hgrows.added l node hnone hnode
    refine ⟨hdir, ?_, fun name => ?_⟩
    · cases hfull : (m.system.runFiles (Store.absolute d)).1 with
      | error e =>
          rw [hfull] at hp
          cases hp
      | ok full =>
          rw [hfull] at hp
          exact ⟨d, full, hd, hfull, p, hp, hreach⟩
    -- nothing hangs in a directory that is not there
    · cases hbelow : m.system.disk.get? (name :: l) with
      | none => rfl
      | some below =>
          obtain ⟨t, ht⟩ := hm.tree.parent hbelow
          rw [hnone] at ht
          cases ht

/-- Neither does what leaves everything the same. -/
theorem Untouched.of_same {s s' : FileSystem} (h : c.Untouched o m s)
    (hsame : ∀ l, Disk.SameAt s.disk s'.disk l) (hsetting : SameSetting s s') :
    c.Untouched o m s' := by
  refine ⟨fun l node hdir => ?_, fun l hl => ?_, fun l node hnone hnode => ?_,
    h.setting.trans hsetting⟩
  · rw [← h.files l node hdir]
    exact ⟨fun hn => (hsame l).symm.eq_some hn hdir, fun hn => (hsame l).eq_some hn hdir⟩
  · obtain ⟨t, ht⟩ := h.directories l hl
    exact (hsame l).directory ht
  · obtain ⟨node', hnode', hlike⟩ := (hsame l).symm.some hnode
    obtain ⟨hdir, hrest⟩ := h.added l node' hnone hnode'
    exact ⟨hlike.isDirectory_eq ▸ hdir, hrest⟩

/-- The path where the artifact of a call would be, if the call can tell it. -/
def Target (c : Compiler) (source : Path) (o : Options) (m : Machine) (p : Path) : Prop :=
  ∃ contents canonical d full, m.system.contents source = .ok contents ∧
    m.system.canonical source = .ok canonical ∧ c.destinationFrom o m = .ok d ∧
    (m.system.runFiles (Store.absolute d)).1 = .ok full ∧
    p = (⟨full⟩ : Store).artifactPath (c.artifactName o canonical contents)

/-- The call comes to its transform, and the transform answers an error. -/
def Rejects (c : Compiler) (source : Path) (o : Options) (m : Machine) (e : CompileError) : Prop :=
  ∃ contents canonical store opened,
    Arrival source (c.destinationFrom o m) m.system contents canonical store opened ∧
    (opened.runFiles (store.contains (c.artifactName o canonical contents))).1 = false ∧
    c.transform.apply contents o = .error e

/-- What a failed call leaves, said for the error, and for the files after it. -/
structure Failed (c : Compiler) (source : Path) (o : Options) (m : Machine) (e : CompileError)
    (after : FileSystem) : Prop where
  untouched : c.Untouched o m after
  /-- No path to the artifact leads to a regular file. -/
  absent : ∀ p, c.Target source o m p → ∀ status, after.status p = .ok status →
    status.isFile = false
  /-- An early error, unless it is the transform's, comes before anything is made. -/
  early : e.IsEarly → ¬c.Rejects source o m e → after = m.system

section Absent

variable {contents : Bytes} {canonical : Path} {store : Store} {opened : FileSystem}

/-- The artifact's path is the one that was looked at. -/
theorem eq_of_target {p : Path} (htarget : c.Target source o m p)
    (harrival : Arrival source (c.destinationFrom o m) m.system contents canonical store opened) :
    p = store.artifactPath (c.artifactName o canonical contents) := by
  obtain ⟨contents', canonical', d, full, hcontents, hcanonical, hd, hfull, rfl⟩ := htarget
  obtain ⟨d', hd', hopen⟩ := harrival.opened
  rw [hd] at hd'
  cases hd'
  rw [harrival.contents] at hcontents
  rw [harrival.canonical] at hcanonical
  cases hcontents
  cases hcanonical
  have hdir := Store.openAt_eq_ok (congrArg Prod.fst hopen)
  rw [hfull] at hdir
  cases store
  cases hdir
  rfl

theorem isFile_of_contains {s : FileSystem} {n : ArtifactName}
    (h : (s.runFiles (store.contains n)).1 = false) {status : Status}
    (hstatus : s.status (store.artifactPath n) = .ok status) : status.isFile = false := by
  unfold Store.contains at h
  rw [FileProgram.runFiles_isFile, hstatus] at h
  exact h

/-- Where the directory could not be opened its path leads to none, hence to no entry. -/
theorem absent_of_unopened (hm : m.system.Sound) {d : Path} {e : CompileError}
    {after : FileSystem} (hd : c.destinationFrom o m = .ok d)
    (hopen : m.system.runFiles (Store.openAt d) = (.error e, after)) {p : Path}
    (htarget : c.Target source o m p) {status : Status} (hstatus : after.status p = .ok status) :
    status.isFile = false := by
  obtain ⟨contents, canonical, d', full, -, -, hd', hfull, rfl⟩ := htarget
  rw [hd] at hd'
  cases hd'
  have hgrows := Store.openAt_grows hm d
  have hiff := Store.openAt_eq_ok_iff hm hfull
  rw [hopen] at hgrows hiff
  cases hfile : status.isFile with
  | false => rfl
  | true =>
      have hne := Path.bytes_ne_nil_of_isAbsolute (Store.isAbsolute_of_absolute hfull)
      have hthere := directoryAt_of_isFile hgrows.sound hne
        (c.isProper_artifactName o canonical contents).plain hstatus hfile
      cases hiff.mpr hthere

end Absent

theorem failed_of_course {e : CompileError} {after : FileSystem} (hm : m.system.Sound)
    (h : Course c source o (c.destinationFrom o m) m.system (.error e) after) :
    c.Failed source o m e after := by
  cases h with
  | unread hcontents =>
      refine ⟨.refl, fun p htarget => ?_, fun _ _ => rfl⟩
      obtain ⟨_, _, _, _, hcontents', -⟩ := htarget
      rw [hcontents] at hcontents'
      cases hcontents'
  | unresolved _ hcanonical =>
      refine ⟨.refl, fun p htarget => ?_, fun _ _ => rfl⟩
      obtain ⟨_, _, _, _, -, hcanonical', -⟩ := htarget
      rw [hcanonical] at hcanonical'
      cases hcanonical'
  | undirected _ _ hdir =>
      refine ⟨.refl, fun p htarget => ?_, fun _ _ => rfl⟩
      obtain ⟨_, _, _, _, -, -, hdir', -⟩ := htarget
      rw [hdir] at hdir'
      cases hdir'
  | @unopened _ _ _ d _ _ _ hd hopen =>
      have huntouched := Untouched.of_openAt hm hd
      rw [hopen] at huntouched
      exact ⟨huntouched, fun p htarget status => absent_of_unopened hm hd hopen htarget,
        fun he _ => Store.openAt_early hopen he⟩
  | rejected harrival habsent happly =>
      obtain ⟨d, hd, hopen⟩ := harrival.opened
      have huntouched := Untouched.of_openAt hm hd
      rw [hopen] at huntouched
      refine ⟨huntouched, fun p htarget status hstatus => ?_,
        fun _ hnot => absurd ⟨_, _, _, _, harrival, habsent, happly⟩ hnot⟩
      rw [eq_of_target htarget harrival] at hstatus
      exact isFile_of_contains habsent hstatus
  -- the temporary file is gone again, so the write leaves what the open store had
  | @unwritten contents out canonical store opened s' e harrival habsent _ hwrite =>
      obtain ⟨d, hd, hopen⟩ := harrival.opened
      obtain ⟨_, hgrows⟩ := harrival.grows hm
      obtain ⟨hsame, hsetting⟩ := Store.write_eq_error hgrows.sound
        (c.isProper_artifactName o canonical contents) hwrite
      have huntouched := Untouched.of_openAt hm hd
      rw [hopen] at huntouched
      refine ⟨huntouched.of_same hsame hsetting, fun p htarget status hstatus => ?_,
        fun he _ => absurd he (Store.write_not_early hwrite)⟩
      rw [eq_of_target htarget harrival] at hstatus
      cases hfile : status.isFile with
      | false => rfl
      | true =>
          have hbefore := status_isFile_of_kept (fun l n hn => (hsame l).symm.some hn)
            hsetting.workingDir.symm hstatus hfile
          rw [← hfile]
          exact isFile_of_contains habsent hbefore

/-- **A failed call leaves no trace but directories** and the default directory that it found, and
nothing fails once the artifact was renamed into place: from then on the result is its path, whoever
answers and whatever becomes of pruning. -/
theorem template_failure (c : Compiler) (source : Path) (o : Options) (m : Machine)
    (hm : m.system.Sound) :
    (∀ e, ((c.template source o).run Machine.answer m).1 = .error e →
      c.Failed source o m e ((c.template source o).run Machine.answer m).2.system ∧
      (((c.template source o).run Machine.answer m).2.held = m.held ∨
        o.override? = none ∧ m.held = none ∧ ∃ dir, c.destinationFrom o m = .ok dir ∧
          ((c.template source o).run Machine.answer m).2.held = some dir)) ∧
    ∀ (σ : Type) (answer : (q : CompileQuestion) → σ → q.Answer × σ) (s : σ)
      (temporary target : Path),
      ⟨.file (.rename temporary target), .ok ()⟩ ∈ (c.template source o).trace answer s →
      ((c.template source o).run answer s).1 = .ok target := by
  constructor
  · intro e he
    have hcourse := c.template_course source o m
    rw [he] at hcourse
    refine ⟨failed_of_course hm hcourse, ?_⟩
    obtain hheld | ⟨hheld, -⟩ := held_template c source o m
    · rw [hheld]
      exact c.held_directed o m
    · exact .inl hheld
  · intro σ answer s temporary target hmem
    exact result_of_mem_trace (c.template_settles source o target) hmem ⟨rfl, rfl⟩

/-- A call that is refused after it made two directories. -/
theorem template_failure_rejected :
    smallMachine.system.Sound ∧
    ((((under .environment (.ofString "mails")).withTransform .reject).template
      (.ofString "a.html") (Options.none.withDestination (.ofString "new/dir"))).run
        Machine.answer smallMachine).1 = .error (.rejected "unsupported") ∧
    ((((under .environment (.ofString "mails")).withTransform .reject).template
      (.ofString "a.html") (Options.none.withDestination (.ofString "new/dir"))).run
        Machine.answer smallMachine).2.system.disk.get? [Utf8.ofString "dir", Utf8.ofString "new"] =
      some (.directory ⟨8, 0⟩) ∧
    ((((under .environment (.ofString "mails")).withTransform .reject).template
      (.ofString "a.html") (Options.none.withDestination (.ofString "new/dir"))).run
        Machine.answer smallMachine).2.system.disk.get?
          [Utf8.ofString "notes", Utf8.ofString "out"] =
      some (.file [7] ⟨1, 0⟩ fileMode) := by
  have hresult : ((((under .environment (.ofString "mails")).withTransform .reject).template
      (.ofString "a.html") (Options.none.withDestination (.ofString "new/dir"))).run
        Machine.answer smallMachine).1 = .error (.rejected "unsupported") := by decide +kernel
  have hfailed := (template_failure ((under .environment (.ofString "mails")).withTransform .reject)
    (.ofString "a.html") (Options.none.withDestination (.ofString "new/dir")) smallMachine
    sound_smallMachine).1 _ hresult
  refine ⟨sound_smallMachine, hresult, by decide +kernel, ?_⟩
  exact (hfailed.1.untouched.files _ _ rfl).mpr (by decide)

/-- A transform that needs a second template, which is not there. -/
def includes : Transform :=
  ⟨"include/1", fun _ _ => .error (.unreadable (.ofString "part.html") .missing)⟩

/-- A call with it into a directory that is missing. -/
def includesCall : Except CompileError Path × Machine :=
  (((under .environment (.ofString "mails")).withTransform includes).template
    (.ofString "a.html") (Options.none.withDestination (.ofString "new"))).run Machine.answer
      smallMachine

/-- A machine where a file stands in the place of the default directory of one root. -/
def blockedMachine : Machine where
  system := ⟨⟨[([], .directory ⟨0, 0⟩), ([Utf8.ofString "a.html"], .file [1] ⟨5, 0⟩ fileMode),
    ([Utf8.ofString "r"], .directory ⟨0, 0⟩),
    ([Utf8.ofString "mails", Utf8.ofString "r"], .file [2] ⟨1, 0⟩ fileMode)], by decide⟩,
    .inside [], ⟨8, 0⟩, some (Utf8.ofString "/r"), 0⟩
  held := none
  events := []

theorem sound_blockedMachine : blockedMachine.system.Sound where
  tree := Disk.isTree_of_hangs (by decide) (by decide)
  working := ⟨⟨0, 0⟩, by decide⟩

def blockedCall : Except CompileError Path × Machine :=
  ((under .environment (.ofString "mails")).template (.ofString "a.html") .none).run Machine.answer
    blockedMachine

/-- The default directory that a machine answers where another root is set. -/
def defaultUnderOther (m : Machine) : Except CompileError Path :=
  ((under .environment (.ofString "mails")).defaultDir.run Machine.answer
    { m with system := { m.system with resources := some (Utf8.ofString "/s") } }).1

/-- An early error does not say that there is no difference at all. If it is the transform's, the
directory was made before the transform was asked. And where the default directory is a file it is
kept all the same, and is the answer when another root is set. -/
theorem early_failure_leaves_more :
    smallMachine.system.Sound ∧ blockedMachine.system.Sound ∧
    (includesCall.1 = .error (.unreadable (.ofString "part.html") .missing) ∧
      smallMachine.system.disk.get? [Utf8.ofString "new"] = none ∧
      includesCall.2.system.disk.get? [Utf8.ofString "new"] = some (.directory ⟨8, 0⟩)) ∧
    blockedCall.1 = .error (.config (.notDirectory (.ofString "/r/mails"))) ∧
    blockedMachine.held = none ∧ blockedCall.2.held = some (.ofString "/r/mails") ∧
    defaultUnderOther blockedMachine = .ok (.ofString "/s/mails") ∧
    defaultUnderOther blockedCall.2 = .ok (.ofString "/r/mails") := by
  refine ⟨sound_smallMachine, sound_blockedMachine, ⟨?_, ?_, ?_⟩, ?_, rfl, ?_, ?_, ?_⟩
  all_goals decide +kernel

end Compiler

end TemplateCache
