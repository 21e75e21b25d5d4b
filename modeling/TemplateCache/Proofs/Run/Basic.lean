import TemplateCache.Proofs.Compiler.Frame
import TemplateCache.Proofs.Store.Looking

/-!
# Runs

A run is a sequence of calls of `template` and of edits by others. Calls may be made by any
compilers; compilers that share a default directory share a cell in which it is kept. Of an edit no
more is known than that it is one of those that are allowed.

The history of a run has one record for each call, the last first. Every record holds the machine
before the call and the one after it, so that what is said of a single call can be said of a record.
-/

namespace TemplateCache

open FileSystem

/-- A call of `template`, and the cell in which its compiler's default directory is kept. -/
structure Call where
  compiler : Compiler
  cell : Nat
  source : Path
  options : Options

/-- The files, and the default directories that were found so far. -/
structure World where
  system : FileSystem
  held : Nat → Option Path

/-- A call that was made, with its result. -/
structure Record where
  call : Call
  before : Machine
  result : Except CompileError Path
  after : Machine

namespace World

/-- The machine that a call runs on. -/
def machine (w : World) (cell : Nat) : Machine := ⟨w.system, w.held cell, []⟩

/-- What becomes of a call in a world. -/
def record (w : World) (call : Call) : Record :=
  let ran := (call.compiler.template call.source call.options).run Machine.answer
    (w.machine call.cell)
  ⟨call, w.machine call.cell, ran.1, ran.2⟩

/-- The world after a call. -/
def afterCall (w : World) (call : Call) : World where
  system := (w.record call).after.system
  held := fun cell => if cell = call.cell then (w.record call).after.held else w.held cell

end World

/-- A run from a world, with its history and the world it has come to. -/
inductive Run (allowed : FileSystem → FileSystem → Prop) (start : World) :
    List Record → World → Prop where
  | start : Run allowed start [] start
  | call {history : List Record} {w : World} (call : Call) :
      Run allowed start history w →
      Run allowed start (w.record call :: history) (w.afterCall call)
  | edit {history : List Record} {w : World} {s : FileSystem} :
      Run allowed start history w → allowed w.system s →
      Run allowed start history { w with system := s }

namespace Record

/-- The name that an artifact of the call's source gets. -/
def nameOf (r : Record) (canonical : Path) (contents : Bytes) : ArtifactName :=
  r.call.compiler.artifactName r.call.options canonical contents

theorem isProper_nameOf (r : Record) (canonical : Path) (contents : Bytes) :
    (r.nameOf canonical contents).IsProper :=
  r.call.compiler.isProper_artifactName r.call.options canonical contents

/-- The call read its source and opened its store, so it came to name its artifact. -/
def Arrived (r : Record) (contents : Bytes) (canonical : Path) (store : Store)
    (opened : FileSystem) : Prop :=
  Compiler.Arrival r.call.source (r.call.compiler.destinationFrom r.call.options r.before)
    r.before.system contents canonical store opened

theorem course (w : World) (call : Call) :
    Compiler.Course call.compiler call.source call.options
      (call.compiler.destinationFrom call.options (w.machine call.cell)) w.system
      (w.record call).result (w.record call).after.system :=
  call.compiler.template_course call.source call.options (w.machine call.cell)

theorem framed {w : World} (hw : w.system.Sound) (call : Call) :
    call.compiler.Framed call.source call.options (w.machine call.cell)
      (w.record call).after.system :=
  Compiler.framed_of_course (m := w.machine call.cell) hw (course w call)

end Record

/-! ## Links under artifacts' names -/

namespace Compiler.Framed

variable {c : Compiler} {source : Path} {o : Options} {m : Machine} {after : FileSystem}

/-- A call makes no link. -/
theorem noReservedLinks (h : c.Framed source o m after) (hno : m.system.NoReservedLinks) :
    after.NoReservedLinks := by
  intro name dir target t hname hlink
  cases hbefore : m.system.disk.get? (name :: dir) with
  | none =>
      rcases h.added _ _ hbefore hlink with ⟨out, -, heq⟩ | ⟨-, hdir⟩
      · cases heq
      · cases hdir
  | some node =>
      rcases h.kept _ _ hbefore with ⟨node', hnode', hlike⟩ | ⟨-, ⟨out, -, hout⟩ | ⟨-, hgone⟩⟩
      · rw [hlink] at hnode'
        cases hnode'
        cases hlike.symm.eq_of_not_directory rfl
        exact hno name dir target t hname hbefore
      · rw [hlink] at hout
        cases hout
      · rw [hlink] at hgone
        cases hgone

/-- Where no link can be taken for an artifact, a call cuts no way. -/
theorem keepsWays (h : c.Framed source o m after) (hno : m.system.NoReservedLinks) :
    Disk.KeepsWays m.system.disk after.disk := by
  intro l node hnode hleads
  rcases h.kept l node hnode with hsame | ⟨hdir, hchange⟩
  · exact hsame
  · cases node with
    | directory t => cases hdir
    | file data t mode => cases hleads
    | device t => cases hleads
    | link target t =>
        cases l with
        -- the root has no name, so it is no artifact
        | nil =>
            rcases hchange with ⟨_, ⟨_, _, _, _, _, -, hl, -⟩, -⟩ |
              ⟨⟨_, _, _, _, _, _, _, -, hl, -⟩, -⟩
            · cases hl
            · cases hl
        | cons name dir =>
            rcases hchange with ⟨_, hwrite, -⟩ | ⟨hremove, -⟩
            · exact absurd hnode (hno name dir target t hwrite.reserved)
            · exact absurd hnode (hno name dir target t hremove.reserved)

end Compiler.Framed

/-! ## Where the answer stands -/

/-- What a call answers is the path of the artifact that it named. -/
theorem named_of_ok {w : World} {call : Call} {p : Path} (hp : (w.record call).result = .ok p) :
    ∃ contents canonical store opened, (w.record call).Arrived contents canonical store opened ∧
      p = store.artifactPath ((w.record call).nameOf canonical contents) := by
  have hcourse := Record.course w call
  rw [hp] at hcourse
  exact hcourse.named

namespace Record

/-- The path that a call answered is that of a regular file, which was there before or which the
transform made. -/
structure Stored (r : Record) (p : Path) (contents : Bytes) (canonical : Path) (store : Store)
    (dir : Location) (data : Bytes) (t : Moment) (mode : Nat) : Prop where
  arrived : ∃ opened, r.Arrived contents canonical store opened
  path : p = store.artifactPath (r.nameOf canonical contents)
  ask : store.CanAsk (r.nameOf canonical contents)
  reaches : r.after.system.Reaches store.dir dir
  file : r.after.system.disk.get? ((r.nameOf canonical contents).entryName :: dir) =
    some (.file data t mode)
  origin : r.before.system.disk.get? ((r.nameOf canonical contents).entryName :: dir) =
      some (.file data t mode) ∨
    r.call.compiler.transform.apply contents r.call.options = .ok data

theorem Stored.entry {r : Record} {p canonical : Path} {contents data : Bytes} {store : Store}
    {dir : Location} {t : Moment} {mode : Nat}
    (h : r.Stored p contents canonical store dir data t mode) :
    r.after.system.entry p =
      .ok (.node ((r.nameOf canonical contents).entryName :: dir) (.file data t mode)) := by
  rw [h.path]
  exact Store.entry_of_reaches (Compiler.isProper_artifactName ..).plain h.ask h.reaches h.file

end Record

/-- Every call that succeeds has its answer on disk when it is over. -/
theorem stored_of_ok {w : World} {call : Call} (hw : w.system.Sound)
    (hno : w.system.NoReservedLinks) {p : Path} (hp : (w.record call).result = .ok p) :
    ∃ contents canonical store dir data t mode,
      (w.record call).Stored p contents canonical store dir data t mode := by
  have hframed := Record.framed hw call
  have hcourse := Record.course w call
  rw [hp] at hcourse
  generalize hafter : (w.record call).after.system = after at hcourse
  cases hcourse with
  | @hit contents canonical store _ harrival hthere =>
      obtain ⟨_, hgrows⟩ := harrival.grows hw
      have hproper := call.compiler.isProper_artifactName call.options canonical contents
      have hreserved := call.compiler.reserved_artifactName call.options canonical contents
      obtain ⟨dir, data, t, mode, hreach, hask, hfile, -⟩ :=
        Store.entry_of_contains (hafter ▸ hframed.noReservedLinks hno) hproper hreserved hthere
      exact ⟨contents, canonical, store, dir, data, t, mode, ⟨after, harrival⟩, rfl, hask,
        hafter ▸ hreach, hafter ▸ hfile, .inl (hgrows.eq_some_back hfile rfl)⟩
  | @made contents out canonical _ store opened written harrival _ happly hwrite =>
      obtain ⟨_, hgrows⟩ := harrival.grows hw
      have hproper := call.compiler.isProper_artifactName call.options canonical contents
      have hreserved := call.compiler.reserved_artifactName call.options canonical contents
      obtain ⟨rfl, dir, hwritten⟩ := Store.write_eq_ok hgrows.sound hproper hwrite
      obtain ⟨time, names, hnames, hcleared, -⟩ := Compiler.prunedWith_cleared
        (hwritten.sound hgrows.sound hproper.plain) store
        (call.compiler.artifactName call.options canonical contents) canonical
      -- neither the write nor the pruning cuts a way, so the store's path leads where it led
      have hnoOpened : opened.NoReservedLinks := by
        intro name dir' target t hname hlink
        exact hno name dir' target t hname (hgrows.eq_some_back hlink rfl)
      have hways := (hwritten.keepsWays hnoOpened hreserved).trans
        (hcleared.keepsWays (hwritten.noReservedLinks hnoOpened) fun name hname =>
          ArtifactName.reserved_of_isOther (hnames name hname))
      have hreach := hwritten.reaches.mono hways
        (hwritten.setting.trans hcleared.setting).workingDir
      -- pruning looks at other names than the one just written
      rcases hcleared.fate _ with hsame | ⟨⟨name, dir', _, hl, hname, -⟩, -⟩
      · exact ⟨contents, canonical, store, dir, out, opened.now, fileMode, ⟨opened, harrival⟩, rfl,
          hwritten.asked, hafter ▸ hreach, hafter ▸ hsame.eq_some hwritten.file rfl, .inr happly⟩
      · injection hl with hl _
        exact absurd (hl ▸ hnames name hname) (Store.not_isOther_self _)

/-! ## A small world -/

/-- A world with nothing in it but a source, which has a given time. -/
def World.ofSource (modified : Moment) : World where
  system := ⟨⟨[([], .directory ⟨0, 0⟩),
    ([Utf8.ofString "a"], .file [1, 2, 3] modified fileMode)], by simp⟩,
    .inside [], ⟨8, 0⟩, none, 0⟩
  held := fun _ => none

theorem World.sound_ofSource (modified : Moment) : (World.ofSource modified).system.Sound where
  tree := Disk.isTree_of_hangs (by rfl) (by rfl)
  working := ⟨⟨0, 0⟩, rfl⟩

/-- A call for that source. -/
def sampleCall : Call where
  compiler := .under (.fixed (.ofString "/")) (.ofString "out")
  cell := 0
  source := .ofString "a"
  options := .none

/-- Where its artifact stands. -/
def samplePath : Path :=
  .ofString "/out/template_root_a_0568b0a648ab92e2_142352a4_6c69e8be9db2a35a25e184c33c7eb3c0.tpl"

end TemplateCache
