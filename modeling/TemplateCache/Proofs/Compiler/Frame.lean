import TemplateCache.Proofs.Artifact.Naming
import TemplateCache.Proofs.Compiler.Course

/-!
# What a call leaves alone

A call of `template` may write one entry and remove some others, all in one directory; besides that
it makes directories. `Compiler.Framed` says so for every location of the disk, and
`template_frame` that it holds for every call, however it ends.

The times that decide about removals are those of the source before the call. That the call does
not write to its own source has a reason in the names: an artifact's name is longer than its
source's, because it holds it.
-/

namespace TemplateCache

open FileSystem

namespace Compiler

variable {c : Compiler} {source : Path} {o : Options} {m : Machine}

/-! ## Where a call works -/

/-- A call comes to work in a directory: having read its source, it opened a store that leads
there. -/
structure WorksIn (c : Compiler) (source : Path) (o : Options) (m : Machine) (contents : Bytes)
    (canonical : Path) (store : Store) (opened : FileSystem) (dir : Location) : Prop where
  arrival : Arrival source (c.destinationFrom o m) m.system contents canonical store opened
  reaches : opened.Reaches store.dir dir

/-- The entry of the artifact, where its path led to no regular file, neither before the call nor
when the store was open; `out` is what the transform makes of the source. -/
def MayWrite (c : Compiler) (source : Path) (o : Options) (m : Machine) (l : Location)
    (out : Bytes) : Prop :=
  ∃ contents canonical store opened dir,
    c.WorksIn source o m contents canonical store opened dir ∧
    l = (c.artifactName o canonical contents).entryName :: dir ∧
    c.transform.apply contents o = .ok out ∧
    store.CanAsk (c.artifactName o canonical contents) ∧
    ∀ s ∈ [m.system, opened], ∀ status,
      s.status (store.artifactPath (c.artifactName o canonical contents)) = .ok status →
      status.isFile = false

/-- An entry beside the artifact that is a sibling of it, is not it, and is older than the
source. -/
def MayRemove (c : Compiler) (source : Path) (o : Options) (m : Machine) (l : Location)
    (node : Node) : Prop :=
  ∃ contents canonical store opened dir name status,
    c.WorksIn source o m contents canonical store opened dir ∧ l = name :: dir ∧
    Store.isOther (c.artifactName o canonical contents) name = true ∧
    m.system.status source = .ok status ∧ node.modified.before status.modified = true

/-- A place on the way to the directory that the artifact goes to. -/
def OnTheWay (c : Compiler) (o : Options) (m : Machine) (l : Location) : Prop :=
  ∃ d full, c.destinationFrom o m = .ok d ∧ (m.system.runFiles (Store.absolute d)).1 = .ok full ∧
    ∃ p ∈ FileProgram.ancestors full, (m.system.runFiles (Store.openAt d)).2.Reaches p l

/-- What is different after a call. -/
structure Framed (c : Compiler) (source : Path) (o : Options) (m : Machine)
    (after : FileSystem) : Prop where
  /-- An entry stays as it is, unless it becomes the artifact or is removed. Directories stay. -/
  kept : ∀ l node, m.system.disk.get? l = some node →
    (∃ node', after.disk.get? l = some node' ∧ node.Like node') ∨
    node.isDirectory = false ∧
      ((∃ out, c.MayWrite source o m l out ∧
          after.disk.get? l = some (.file out m.system.now fileMode)) ∨
        (c.MayRemove source o m l node ∧ after.disk.get? l = none))
  /-- A new entry is the artifact or a directory that was missing. -/
  added : ∀ l node, m.system.disk.get? l = none → after.disk.get? l = some node →
    (∃ out, c.MayWrite source o m l out ∧ node = .file out m.system.now fileMode) ∨
    (c.OnTheWay o m l ∧ node.isDirectory = true)
  sound : after.Sound
  setting : SameSetting m.system after

/-! ## The source -/

/-- What pruning after a write removes, and the time that it goes by. -/
theorem prunedWith_cleared {s : FileSystem} (hs : s.Sound) (store : Store) (n : ArtifactName)
    (canonical : Path) :
    ∃ time names, (∀ name ∈ names, Store.isOther n name = true) ∧
      Store.Cleared store time names s (prunedWith store n canonical s) ∧
      (names = [] ∨ ∃ status, s.status canonical = .ok status ∧ time = status.modified) := by
  unfold prunedWith
  cases hstatus : s.status canonical with
  | error e => exact ⟨⟨0, 0⟩, [], by simp, .refl hs, .inl rfl⟩
  | ok status =>
      obtain ⟨names, hnames, hcleared⟩ := Store.prune_cleared hs store n status.modified
      exact ⟨status.modified, names, hnames, hcleared, .inr ⟨status, rfl, rfl⟩⟩

/-- By the time the store is open there are new directories and nothing else is different. -/
theorem Arrival.grows {dir : Except CompileError Path} {s opened : FileSystem} {contents : Bytes}
    {canonical : Path} {store : Store}
    (h : Arrival source dir s contents canonical store opened) (hs : s.Sound) :
    ∃ paths, Grows paths s opened := by
  obtain ⟨d, -, hopen⟩ := h.opened
  have hgrows := Store.openAt_grows hs d
  rw [hopen] at hgrows
  exact ⟨_, hgrows⟩

/-- The source that was read is a node which is neither directory nor link, and its canonical path
is that of its location. -/
theorem Arrival.origin {dir : Except CompileError Path} {s opened : FileSystem}
    {contents : Bytes} {canonical : Path} {store : Store}
    (h : Arrival source dir s contents canonical store opened) :
    ∃ l node, s.follow source = .ok (.node l node) ∧ canonical = Location.path l ∧
      s.disk.get? l = some node ∧ node.leadsOn = false := by
  obtain ⟨l, node, hfollow, rfl⟩ := canonical_eq_ok h.canonical
  have hcontents := h.contents
  unfold FileSystem.contents at hcontents
  rw [hfollow] at hcontents
  refine ⟨l, node, hfollow, rfl, (follow_eq_ok_iff.mp hfollow).2.get?, ?_⟩
  cases node with
  | directory t => cases hcontents
  | link target t => cases hcontents
  | file data t mode => rfl
  | device t => rfl

/-- As long as the source stays, its canonical path tells the time it had. -/
theorem Arrival.status_later {dir : Except CompileError Path} {s opened s' : FileSystem}
    {contents : Bytes} {canonical : Path} {store : Store}
    (h : Arrival source dir s contents canonical store opened) (hs' : s'.Sound)
    (hsame : ∀ l node, s.disk.get? l = some node → canonical = Location.path l →
      node.leadsOn = false → s'.disk.get? l = some node)
    {status : Status} (hstatus : s'.status canonical = .ok status) :
    s.status source = .ok status := by
  obtain ⟨l, node, hfollow, rfl, hnode, hleaf⟩ := h.origin
  unfold FileSystem.status at hstatus ⊢
  obtain ⟨spot, hspot, hstatus⟩ := bind_eq_ok hstatus
  have hlink : ∀ target t, node ≠ .link target t := by
    rintro target t rfl
    cases hleaf
  cases follow_path hs' (hsame l node hnode rfl hleaf) hlink hspot
  rw [hfollow]
  exact hstatus

theorem isProper_artifactName (c : Compiler) (o : Options) (canonical : Path)
    (contents : Bytes) : (c.artifactName o canonical contents).IsProper :=
  ArtifactName.isProper_forSource ..

theorem reserved_artifactName (c : Compiler) (o : Options) (canonical : Path)
    (contents : Bytes) : ArtifactName.Reserved (c.artifactName o canonical contents).entryName :=
  ArtifactName.reserved_entryName ..

theorem MayWrite.reserved {name : Name} {dir : Location} {out : Bytes}
    (h : c.MayWrite source o m (name :: dir) out) : ArtifactName.Reserved name := by
  obtain ⟨contents, canonical, _, _, _, -, hl, -⟩ := h
  injection hl with hname _
  rw [hname]
  exact c.reserved_artifactName o canonical contents

theorem MayRemove.reserved {name : Name} {dir : Location} {node : Node}
    (h : c.MayRemove source o m (name :: dir) node) : ArtifactName.Reserved name := by
  obtain ⟨contents, canonical, _, _, _, other, _, -, hl, hother, -⟩ := h
  injection hl with hname _
  rw [hname]
  exact ArtifactName.reserved_of_isOther hother

/-- The artifact does not stand where its source is. -/
theorem entryName_ne_of_path {canonical : Path} {contents : Bytes} {l dir : Location}
    (hl : canonical = Location.path l) :
    l ≠ (c.artifactName o canonical contents).entryName :: dir := by
  intro h
  have hname : (Location.path ((c.artifactName o canonical contents).entryName :: dir)).fileName? =
      some _ := Location.fileName?_path (c.isProper_artifactName o canonical contents).plain
  rw [← h, ← hl] at hname
  exact ArtifactName.entryName_ne_fileName hname _ _ _ rfl

/-! ## The frame -/

/-- How a location can differ from what it was when the store was open. -/
def ChangedOnly (c : Compiler) (source : Path) (o : Options) (m : Machine)
    (opened after : FileSystem) : Prop :=
  ∀ l, Disk.SameAt opened.disk after.disk l ∨
    (∀ t, opened.disk.get? l ≠ some (.directory t)) ∧
      ((∃ out, c.MayWrite source o m l out ∧
          after.disk.get? l = some (.file out m.system.now fileMode)) ∨
        (∃ node, opened.disk.get? l = some node ∧ c.MayRemove source o m l node ∧
          after.disk.get? l = none))

/-- Making directories and then changing the artifact and its siblings stays in the frame. -/
theorem Framed.of_grows {d : Path} {opened after : FileSystem} (hm : m.system.Sound)
    (hd : c.destinationFrom o m = .ok d) (hopened : (m.system.runFiles (Store.openAt d)).2 = opened)
    (hchanged : c.ChangedOnly source o m opened after) (hsound : after.Sound)
    (hsetting : SameSetting opened after) : c.Framed source o m after := by
  have hgrows := Store.openAt_grows hm d
  rw [hopened] at hgrows
  refine ⟨?_, ?_, hsound, hgrows.setting.trans hsetting⟩
  · intro l node hnode
    obtain ⟨node', hnode', hlike⟩ := hgrows.kept l node hnode
    rcases hchanged l with hsame | ⟨hdir, hchange⟩
    · obtain ⟨node'', hnode'', hlike'⟩ := hsame.some hnode'
      exact .inl ⟨node'', hnode'', hlike.trans hlike'⟩
    -- a directory would still be one when the store is open, where only others change
    · have hnodir : node.isDirectory = false := by
        cases hcase : node.isDirectory with
        | false => rfl
        | true =>
            rw [hlike.isDirectory_eq] at hcase
            obtain ⟨t, rfl⟩ := Node.isDirectory_iff.mp hcase
            exact absurd hnode' (hdir t)
      cases hlike.eq_of_not_directory hnodir
      rcases hchange with hwritten | ⟨node', hopen, hremove, hgone⟩
      · exact .inr ⟨hnodir, .inl hwritten⟩
      · rw [hnode'] at hopen
        cases hopen
        exact .inr ⟨hnodir, .inr ⟨hremove, hgone⟩⟩
  · intro l node hnone hnode
    rcases hchanged l with hsame | ⟨-, ⟨out, hwrite, hout⟩ | ⟨_, -, -, hgone⟩⟩
    -- new and not changed since the store was open: it came with the directories
    · obtain ⟨node', hnode', hlike⟩ := hsame.symm.some hnode
      obtain ⟨hdir, p, hp, hreach⟩ := hgrows.added l node' hnone hnode'
      refine .inr ⟨?_, hlike.isDirectory_eq ▸ hdir⟩
      cases hfull : (m.system.runFiles (Store.absolute d)).1 with
      | error e => rw [hfull] at hp; cases hp
      | ok full =>
          rw [hfull] at hp
          exact ⟨d, full, hd, hfull, p, hp, hopened.symm ▸ hreach⟩
    · rw [hnode] at hout
      cases hout
      exact .inl ⟨out, hwrite, rfl⟩
    · rw [hnode] at hgone
      cases hgone

section Made

variable {contents out : Bytes} {canonical : Path} {store : Store} {opened written : FileSystem}
  {dir : Location}

/-- Where the artifact is written there was no regular file before. -/
theorem mayWrite_of_written
    (harrival : Arrival source (c.destinationFrom o m) m.system contents canonical store opened)
    (hm : m.system.Sound)
    (habsent : (opened.runFiles
      (store.contains (c.artifactName o canonical contents))).1 = false)
    (happly : c.transform.apply contents o = .ok out)
    (hwritten : Store.Written store (c.artifactName o canonical contents) out dir opened written) :
    c.MayWrite source o m ((c.artifactName o canonical contents).entryName :: dir) out := by
  refine ⟨contents, canonical, store, opened, dir, ⟨harrival, hwritten.reaches⟩, rfl, happly,
    hwritten.asked, ?_⟩
  have hopened : ∀ status,
      opened.status (store.artifactPath (c.artifactName o canonical contents)) = .ok status →
      status.isFile = false := by
    intro status hstatus
    unfold Store.contains at habsent
    rw [FileProgram.runFiles_isFile, hstatus] at habsent
    exact habsent
  obtain ⟨_, hgrows⟩ := harrival.grows hm
  intro s hs status hstatus
  -- a regular file from before would still be one when the store is open
  rcases List.mem_cons.mp hs with rfl | hs
  · cases hfile : status.isFile with
    | false => rfl
    | true => rw [← hopened status (hgrows.status_isFile hstatus hfile), hfile]
  · rw [List.mem_singleton.mp hs] at hstatus
    exact hopened status hstatus

/-- What pruning removes after the artifact was written may be removed. -/
theorem mayRemove_of_expired
    (harrival : Arrival source (c.destinationFrom o m) m.system contents canonical store opened)
    (hwritten : Store.Written store (c.artifactName o canonical contents) out dir opened written)
    {status : Status} (hstatus : m.system.status source = .ok status) {names : List Name}
    (hnames : ∀ name ∈ names,
      Store.isOther (c.artifactName o canonical contents) name = true) {l : Location}
    (hexpired : store.Expired status.modified names written l) :
    ∃ node, opened.disk.get? l = some node ∧ node.isDirectory = false ∧
      c.MayRemove source o m l node := by
  obtain ⟨name, dir', node, rfl, hname, hreach, hnode, hdir, hbefore⟩ := hexpired
  have hother := hnames name hname
  -- the store's path leads to one directory, after the write as before it
  cases hwritten.reaches.unique
    (hreach.mono hwritten.keepsWays_back hwritten.setting.workingDir.symm)
  have hne : name :: dir ≠ (c.artifactName o canonical contents).entryName :: dir := by
    intro h
    injection h with h _
    rw [h] at hother
    exact Store.not_isOther_self _ hother
  exact ⟨node, (hwritten.others _ hne).symm.eq_some hnode hdir, hdir, contents, canonical, store,
    opened, dir, name, status, ⟨harrival, hwritten.reaches⟩, rfl, hother, hstatus, hbefore⟩

/-- Writing and pruning change the artifact and its siblings only. -/
theorem changedOnly_made
    (harrival : Arrival source (c.destinationFrom o m) m.system contents canonical store opened)
    (hm : m.system.Sound)
    (habsent : (opened.runFiles
      (store.contains (c.artifactName o canonical contents))).1 = false)
    (happly : c.transform.apply contents o = .ok out)
    (hwritten : Store.Written store (c.artifactName o canonical contents) out dir opened written) :
    c.ChangedOnly source o m opened
      (prunedWith store (c.artifactName o canonical contents) canonical written) := by
  obtain ⟨_, hgrows⟩ := harrival.grows hm
  have hsound := hwritten.sound hgrows.sound (c.isProper_artifactName o canonical contents).plain
  have hwrite := mayWrite_of_written harrival hm habsent happly hwritten
  have hfile := hwritten.file
  rw [hgrows.setting.now] at hfile
  obtain ⟨time, names, hnames, hcleared, htime⟩ :=
    prunedWith_cleared hsound store (c.artifactName o canonical contents) canonical
  intro l
  -- pruning leaves a location alone or empties it; the write is behind the first case
  rcases hcleared.fate l with hsame | ⟨hexpired, hnone⟩
  · by_cases hl : l = (c.artifactName o canonical contents).entryName :: dir
    · subst hl
      exact .inr ⟨hwritten.replaced, .inl ⟨out, hwrite, hsame.eq_some hfile rfl⟩⟩
    · exact .inl ((hwritten.others l hl).trans hsame)
  · rcases htime with rfl | ⟨status, hstatus, rfl⟩
    · obtain ⟨_, _, _, _, hname, _⟩ := hexpired
      cases hname
    -- the write did not touch the source, so its time is the one from before the call
    · have hsource : m.system.status source = .ok status := by
        refine harrival.status_later hsound (fun l node hnode hcanonical hleaf => ?_) hstatus
        have hdir : node.isDirectory = false := by cases node <;> first | rfl | cases hleaf
        exact (hwritten.others l (entryName_ne_of_path hcanonical)).eq_some
          (hgrows.eq_some hnode hdir) hdir
      obtain ⟨node, hnode, hdir, hremove⟩ :=
        mayRemove_of_expired harrival hwritten hsource hnames hexpired
      refine .inr ⟨?_, .inr ⟨node, hnode, hremove, hnone⟩⟩
      intro t ht
      rw [hnode] at ht
      cases ht
      cases hdir

end Made

theorem Framed.of_arrival {contents : Bytes} {canonical : Path} {store : Store}
    {opened after : FileSystem} (hm : m.system.Sound)
    (harrival : Arrival source (c.destinationFrom o m) m.system contents canonical store opened)
    (hchanged : c.ChangedOnly source o m opened after) (hsound : after.Sound)
    (hsetting : SameSetting opened after) : c.Framed source o m after := by
  obtain ⟨d, hd, hopen⟩ := harrival.opened
  exact .of_grows hm hd (by rw [hopen]) hchanged hsound hsetting

/-- A call changes nothing but what it may, whatever its course. -/
theorem framed_of_course {result : Except CompileError Path} {after : FileSystem}
    (hm : m.system.Sound)
    (h : Course c source o (c.destinationFrom o m) m.system result after) :
    c.Framed source o m after := by
  have hstill : c.Framed source o m m.system := by
    refine ⟨fun l node hnode => .inl ⟨node, hnode, .refl node⟩, ?_, hm, .refl _⟩
    intro l node hnone hnode
    rw [hnone] at hnode
    cases hnode
  have hunchanged : ∀ {s : FileSystem}, c.ChangedOnly source o m s s :=
    fun l => .inl (.refl _ l)
  cases h with
  -- before the directory is opened nothing is asked that changes anything
  | unread _ => exact hstill
  | unresolved _ _ => exact hstill
  | undirected _ _ _ => exact hstill
  -- a directory that cannot be opened may have been made in part
  | @unopened _ _ _ d _ _ _ hd hopen =>
      have hgrows := Store.openAt_grows hm d
      rw [hopen] at hgrows
      exact .of_grows hm hd (by rw [hopen]) hunchanged hgrows.sound (.refl _)
  | hit harrival _ =>
      obtain ⟨_, hgrows⟩ := harrival.grows hm
      exact .of_arrival hm harrival hunchanged hgrows.sound (.refl _)
  | rejected harrival _ _ =>
      obtain ⟨_, hgrows⟩ := harrival.grows hm
      exact .of_arrival hm harrival hunchanged hgrows.sound (.refl _)
  -- the temporary file is gone again, so a failed write leaves the disk as it was
  | @unwritten contents out canonical store opened s' e harrival _ _ hwrite =>
      obtain ⟨_, hgrows⟩ := harrival.grows hm
      obtain ⟨hsame, hsetting⟩ := Store.write_eq_error hgrows.sound
        (c.isProper_artifactName o canonical contents) hwrite
      exact .of_arrival hm harrival (fun l => .inl (hsame l))
        (hgrows.sound.of_same hsame hsetting.workingDir) hsetting
  | @made contents out canonical p store opened written harrival habsent happly hwrite =>
      obtain ⟨_, hgrows⟩ := harrival.grows hm
      have hproper := c.isProper_artifactName o canonical contents
      obtain ⟨-, dir, hwritten⟩ := Store.write_eq_ok hgrows.sound hproper hwrite
      obtain ⟨_, _, _, hcleared, _⟩ := prunedWith_cleared
        (hwritten.sound hgrows.sound hproper.plain) store (c.artifactName o canonical contents)
        canonical
      exact .of_arrival hm harrival (changedOnly_made harrival hm habsent happly hwritten)
        hcleared.sound (hwritten.setting.trans hcleared.setting)

/-- **A call writes its artifact, removes expired siblings of it, makes directories on the way, and
leaves everything else alone.** With a destination of its own it neither looks at nor changes
the default directory that is kept. -/
theorem template_frame (c : Compiler) (source : Path) (o : Options) (m : Machine)
    (hm : m.system.Sound) :
    c.Framed source o m ((c.template source o).run Machine.answer m).2.system ∧
    ∀ dir, o.override? = some dir →
      c.destinationFrom o m = .ok dir ∧
      ∀ (root : Root) (subdir : Path) (held : Option Path),
        (({ c with root := root, subdir := subdir } : Compiler).template source o).run
            Machine.answer { m with held := held } =
          (((c.template source o).run Machine.answer m).1,
            { ((c.template source o).run Machine.answer m).2 with held := held }) := by
  refine ⟨framed_of_course hm (c.template_course source o m), fun dir hdir => ⟨?_, ?_⟩⟩
  · unfold destinationFrom
    rw [destination_of_override c hdir]
    rfl
  · intro root subdir held
    rw [template_of_override hdir root subdir]
    exact LeavesDefault.template hdir m held

/-- A disk with a source beside a directory, in which there is an expired artifact of it, a link of
that kind, and a file of someone else. -/
def smallDisk : Disk where
  nodes := [
    ([], .directory ⟨0, 0⟩),
    ([Utf8.ofString "a.html"], .file [1, 2, 3] ⟨5, 0⟩ fileMode),
    ([Utf8.ofString "out"], .directory ⟨0, 0⟩),
    ([Utf8.ofString "template_root_a_0", Utf8.ofString "out"], .file [9] ⟨1, 0⟩ fileMode),
    ([Utf8.ofString "template_root_a_1", Utf8.ofString "out"], .link (.ofString "/a.html") ⟨1, 0⟩),
    ([Utf8.ofString "notes", Utf8.ofString "out"], .file [7] ⟨1, 0⟩ fileMode)]
  distinct := by decide

def smallMachine : Machine where
  system := ⟨smallDisk, .inside [], ⟨8, 0⟩, none, 0⟩
  held := none
  events := []

theorem sound_smallMachine : smallMachine.system.Sound where
  tree := Disk.isTree_of_hangs (by decide) (by decide)
  working := ⟨⟨0, 0⟩, by decide⟩

/-- The file of someone else is still there, as it was. -/
theorem template_frame_smallMachine :
    smallMachine.system.Sound ∧
    (((under .environment (.ofString "mails")).template (.ofString "a.html")
      (Options.none.withDestination (.ofString "out"))).run Machine.answer
        smallMachine).2.system.disk.get? [Utf8.ofString "notes", Utf8.ofString "out"] =
      some (.file [7] ⟨1, 0⟩ fileMode) := by
  refine ⟨sound_smallMachine, ?_⟩
  have hnotes : ¬ArtifactName.Reserved (Utf8.ofString "notes") := by
    unfold ArtifactName.Reserved
    decide
  have hthere : smallMachine.system.disk.get? [Utf8.ofString "notes", Utf8.ofString "out"] =
      some (.file [7] ⟨1, 0⟩ fileMode) := by decide
  have hframed := (template_frame (under .environment (.ofString "mails")) (.ofString "a.html")
    (Options.none.withDestination (.ofString "out")) smallMachine sound_smallMachine).1
  rcases hframed.kept _ _ hthere with ⟨node, hnode, hlike⟩ | ⟨-, ⟨out, hwrite, -⟩ | ⟨hremove, -⟩⟩
  · rw [hnode, hlike.eq_of_not_directory rfl]
  · exact absurd hwrite.reserved hnotes
  · exact absurd hremove.reserved hnotes

end Compiler

end TemplateCache
