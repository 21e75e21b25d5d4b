import TemplateCache.Proofs.Compiler.DefaultDir
import TemplateCache.Proofs.Run.Basic
import TemplateCache.Proofs.Store.Reaching

/-!
# The default destination

Calls without a destination of their own share the default directory, which is found once and kept.
What is kept is its path as it was put together. Where that begins at the root, the artifacts of all
those calls lie in one directory, whatever becomes of the working directory and the environment.

Where it does not, there is a defect: each call makes the path absolute from the working directory
that it finds, so artifacts lie together only as long as the working directory says the same, and
none of their paths begins with the default directory. The root of a compiler is taken as it is
given, so this happens: see `default_directory_moves`. Main statement: `default_destination`.
-/

namespace TemplateCache

open FileSystem

/-! ## What is asked of a compiler -/

/-- What is asked of a compiler: an artifact, by any transform, or the default directory. -/
inductive Ask where
  | template (transform : Transform) (source : Path) (o : Options)
  | defaultDir

/-- What was asked, and how it was answered. -/
structure Reply where
  ask : Ask
  before : Machine
  result : Except CompileError Path
  after : Machine

namespace Compiler

def program (c : Compiler) : Ask → CompileProgram (Except CompileError Path)
  | .template t source o => (c.withTransform t).template source o
  | .defaultDir => c.defaultDir

def reply (c : Compiler) (m : Machine) (a : Ask) : Reply :=
  let ran := (c.program a).run Machine.answer m
  ⟨a, m, ran.1, ran.2⟩

end Compiler

/-- A compiler in use, with the history of its replies, the last first. In between anything may
become of the files, the working directory and the environment. -/
inductive Uses (c : Compiler) (start : Machine) : List Reply → Machine → Prop where
  | start : Uses c start [] start
  | ask {history : List Reply} {m : Machine} (a : Ask) :
      Uses c start history m → Uses c start (c.reply m a :: history) (c.reply m a).after
  | edit {history : List Reply} {m : Machine} (s : FileSystem) :
      Uses c start history m → Uses c start history { m with system := s }

namespace Reply

/-- An artifact was answered to a call without a destination of its own. -/
inductive Gives (r : Reply) (p : Path) : Prop where
  | template (t : Transform) (source : Path) (o : Options) :
      r.ask = .template t source o → o.override? = none → r.result = .ok p → Gives r p

/-- The default directory was answered. -/
def GivesDefault (r : Reply) (dir : Path) : Prop := r.ask = .defaultDir ∧ r.result = .ok dir

/-- The default directory is found in the environment of a reply. -/
def Finds (r : Reply) (c : Compiler) (dir : Path) : Prop :=
  ∃ root, (r.before.system.runFiles c.root.resolve).1 = .ok root ∧ dir = root.join c.subdir

/-- A path is that of an entry of a directory, which is made absolute in the environment of a
reply. -/
def Places (r : Reply) (dir p : Path) : Prop :=
  ∃ full n, (r.before.system.runFiles (Store.absolute dir)).1 = .ok full ∧ Name.IsPlain n ∧
    p = full.join ⟨n⟩

end Reply

/-- Two paths have parents that say the same. -/
def Path.liesBeside (p q : Path) : Bool :=
  match p.parent?, q.parent? with
  | some parent, some parent' => parent.same parent'
  | _, _ => false

/-! ## One reply -/

namespace Compiler

variable {c : Compiler} {m : Machine} {a : Ask} {dir p : Path}

theorem held_destination (c : Compiler) (o : Options) (m : Machine) :
    ((c.destination o).run Machine.answer m).2.held = m.held ∨
      m.held = none ∧ ∃ root, (m.system.runFiles c.root.resolve).1 = .ok root ∧
        ((c.destination o).run Machine.answer m).2.held = some (root.join c.subdir) := by
  cases hover : o.override? with
  | some dir =>
      rw [destination_of_override c hover]
      exact .inl rfl
  | none =>
      rw [destination_of_default c hover, run_defaultDir]
      cases hheld : m.held with
      | some dir => exact .inl hheld
      | none =>
          cases hroot : (m.system.runFiles c.root.resolve).1 with
          | error e => exact .inl hheld
          | ok root => exact .inr ⟨rfl, root, rfl, rfl⟩

/-- A reply keeps the default directory, or keeps the one that it found where there was none. -/
theorem held_reply (c : Compiler) (m : Machine) (a : Ask) :
    (c.reply m a).after.held = m.held ∨
      m.held = none ∧ ∃ dir, (c.reply m a).Finds c dir ∧ (c.reply m a).after.held = some dir := by
  have hfind : ∀ o, ((c.destination o).run Machine.answer m).2.held = m.held ∨
      m.held = none ∧ ∃ dir, (c.reply m a).Finds c dir ∧
        ((c.destination o).run Machine.answer m).2.held = some dir := by
    intro o
    obtain hsame | ⟨hnone, root, hroot, hheld⟩ := c.held_destination o m
    · exact .inl hsame
    · exact .inr ⟨hnone, _, ⟨root, hroot, rfl⟩, hheld⟩
  cases a with
  | template t source o =>
      obtain hheld | ⟨hheld, -⟩ := held_template (c.withTransform t) source o m
      · exact hheld ▸ hfind o
      · exact .inl hheld
  | defaultDir => exact hfind .none

/-- A default directory that was answered is kept. -/
theorem held_of_givesDefault (h : (c.reply m a).GivesDefault dir) :
    (c.reply m a).after.held = some dir := by
  obtain ⟨ha, hdir⟩ := h
  change a = .defaultDir at ha
  subst ha
  obtain ⟨dir', hdir', hheld⟩ | ⟨e, he, -⟩ := c.held_defaultDir m
  · cases hdir'.symm.trans hdir
    exact hheld
  · cases he.symm.trans hdir

/-- An artifact that was answered stands in the directory that is kept. -/
theorem held_of_gives (h : (c.reply m a).Gives p) :
    ∃ dir, (c.reply m a).after.held = some dir ∧ (c.reply m a).Places dir p := by
  obtain ⟨t, source, o, ha, hnone, hp⟩ := h
  change a = .template t source o at ha
  subst ha
  have hcourse := template_course (c.withTransform t) source o m
  change (((c.withTransform t).template source o).run Machine.answer m).1 = .ok p at hp
  have hheld := held_template_of_ok hp
  rw [hp] at hcourse
  obtain ⟨contents, canonical, store, opened, harrival, hpath⟩ := hcourse.named
  obtain ⟨d, hd, hopen⟩ := harrival.opened
  refine ⟨d, ?_, store.dir, _, Store.openAt_eq_ok (congrArg Prod.fst hopen),
    ((c.withTransform t).isProper_artifactName o canonical contents).plain, hpath⟩
  -- without a destination of its own the call went to the default directory
  unfold destinationFrom at hd
  rw [destination_of_default _ hnone] at hd hheld
  obtain ⟨dir, hdir, hkept⟩ | ⟨e, he, -⟩ := (c.withTransform t).held_defaultDir m
  · cases hdir.symm.trans hd
    exact hheld.trans hkept
  · cases he.symm.trans hd

end Compiler

/-! ## All replies -/

namespace Uses

variable {c : Compiler} {start m : Machine} {history : List Reply}

/-- A default directory that is kept after one reply is kept ever after. -/
theorem held_of_mem (h : Uses c start history m) {r : Reply} (hr : r ∈ history) {dir : Path}
    (hdir : r.after.held = some dir) : m.held = some dir := by
  induction h with
  | start => cases hr
  | @ask history m a _ ih =>
      rcases List.mem_cons.mp hr with rfl | hr
      · exact hdir
      · obtain hsame | ⟨hnone, -⟩ := c.held_reply m a
        · exact hsame.trans (ih hr)
        · cases (ih hr).symm.trans hnone
  | edit s _ ih => exact ih hr

/-- It was kept from the start, or the first reply to look for it found it. -/
theorem found (h : Uses c start history m) {dir : Path} (hdir : m.held = some dir) :
    start.held = some dir ∨ ∃ r ∈ history, r.before.held = none ∧ r.Finds c dir := by
  induction h with
  | start => exact .inl hdir
  | @ask history m a _ ih =>
      obtain hsame | ⟨hnone, dir', hfinds, hdir'⟩ := c.held_reply m a
      · obtain hstart | ⟨r, hr, hfound⟩ := ih (hsame.symm.trans hdir)
        · exact .inl hstart
        · exact .inr ⟨r, List.mem_cons_of_mem _ hr, hfound⟩
      · cases hdir'.symm.trans hdir
        exact .inr ⟨_, List.mem_cons_self, hnone, hfinds⟩
  | edit s _ ih => exact ih hdir

theorem mem_eq (h : Uses c start history m) {r : Reply} (hr : r ∈ history) :
    r = c.reply r.before r.ask := by
  induction h with
  | start => cases hr
  | ask a _ ih =>
      rcases List.mem_cons.mp hr with rfl | hr
      · rfl
      · exact ih hr
  | edit s _ ih => exact ih hr

/-- The default directory that was answered is the one that is kept. -/
theorem held_of_givesDefault (h : Uses c start history m) {r : Reply} (hr : r ∈ history)
    {dir : Path} (hdir : r.GivesDefault dir) : m.held = some dir := by
  have hreply := h.mem_eq hr
  rw [hreply] at hdir
  have hheld := Compiler.held_of_givesDefault hdir
  rw [← hreply] at hheld
  exact h.held_of_mem hr hheld

/-- The artifacts that were answered stand in the directory that is kept. -/
theorem held_of_gives (h : Uses c start history m) {r : Reply} (hr : r ∈ history) {p : Path}
    (hp : r.Gives p) : ∃ dir, m.held = some dir ∧ r.Places dir p := by
  have hreply := h.mem_eq hr
  rw [hreply] at hp
  obtain ⟨dir, hheld, hplaces⟩ := Compiler.held_of_gives hp
  rw [← hreply] at hheld hplaces
  exact ⟨dir, h.held_of_mem hr hheld, hplaces⟩

end Uses

/-! ## Directories of artifacts -/

namespace Path

variable {full full' dir : Path} {n n' : Name}

/-- Entries lie beside one another if their directories say the same. -/
theorem liesBeside_join_iff (habs : full.isAbsolute = true) (habs' : full'.isAbsolute = true)
    (hn : Name.IsPlain n) (hn' : Name.IsPlain n') :
    (full.join ⟨n⟩).liesBeside (full'.join ⟨n'⟩) = true ↔ full.components = full'.components := by
  obtain ⟨parent, hparent, hparts⟩ := parent?_join_name habs hn
  obtain ⟨parent', hparent', hparts'⟩ := parent?_join_name habs' hn'
  unfold liesBeside
  rw [hparent, hparent']
  dsimp only
  rw [same, hparts, hparts', beq_iff_eq]

/-- No path from the root begins with a relative one. -/
theorem not_startsWith_of_relative {p : Path} (hp : p.isAbsolute = true)
    (hdir : dir.isAbsolute = false) (hne : dir.bytes ≠ []) : p.startsWith dir = false := by
  by_contra hstarts
  rw [Bool.not_eq_false, startsWith, List.isPrefixOf_iff_prefix] at hstarts
  obtain ⟨part, rest, hcons⟩ := List.exists_cons_of_ne_nil (components_ne_nil hne)
  have hhead : part = .root := by
    rw [hcons, components_of_isAbsolute hp] at hstarts
    exact (List.cons_prefix_cons.mp hstarts).1
  have habs : dir.isAbsolute = true := by
    rw [isAbsolute_iff, hcons, hhead]
    rfl
  rw [hdir] at habs
  cases habs

end Path

namespace Reply.Places

variable {r r' : Reply} {dir p p' : Path}

theorem parent (h : r.Places dir p) : ∃ full parent,
    (r.before.system.runFiles (Store.absolute dir)).1 = .ok full ∧ p.parent? = some parent ∧
      parent.components = full.components := by
  obtain ⟨full, n, hfull, hn, rfl⟩ := h
  obtain ⟨parent, hparent, hparts⟩ := Path.parent?_join_name (Store.isAbsolute_of_absolute hfull) hn
  exact ⟨full, parent, hfull, hparent, hparts⟩

theorem startsWith_iff (h : r.Places dir p) : p.startsWith dir = true ↔ dir.isAbsolute = true := by
  obtain ⟨full, n, hfull, hn, rfl⟩ := h
  have habs := Store.isAbsolute_of_absolute hfull
  obtain ⟨hdir, hparts⟩ | ⟨hdir, hne, -⟩ := Store.components_of_absolute hfull
  · have hjoin : (full.join ⟨n⟩).components = dir.components ++ [.name n] := by
      rw [← hparts]
      exact Path.components_join_name (Path.bytes_ne_nil_of_isAbsolute habs) hn
    exact iff_of_true (Path.startsWith_of_eq_append hjoin) hdir
  · have hrel := Path.not_startsWith_of_relative
      ((Path.isAbsolute_join_name full hn).trans habs) hdir hne
    rw [hrel, hdir]

/-- In an absolute directory the entries lie beside one another. -/
theorem liesBeside (h : r.Places dir p) (h' : r'.Places dir p') (habs : dir.isAbsolute = true) :
    p.liesBeside p' = true := by
  obtain ⟨full, n, hfull, hn, rfl⟩ := h
  obtain ⟨full', n', hfull', hn', rfl⟩ := h'
  rw [Path.liesBeside_join_iff (Store.isAbsolute_of_absolute hfull)
    (Store.isAbsolute_of_absolute hfull') hn hn']
  obtain ⟨-, hparts⟩ | ⟨hrel, -⟩ := Store.components_of_absolute hfull
  · obtain ⟨-, hparts'⟩ | ⟨hrel, -⟩ := Store.components_of_absolute hfull'
    · exact hparts.trans hparts'.symm
    · cases habs.symm.trans hrel
  · cases habs.symm.trans hrel

/-- In a relative one they do if it is made absolute in the same way. -/
theorem liesBeside_iff (h : r.Places dir p) (h' : r'.Places dir p')
    (hrel : dir.isAbsolute = false) : ∃ workingDir workingDir',
      r.before.system.workingDirectory = .ok workingDir ∧
      r'.before.system.workingDirectory = .ok workingDir' ∧
      (p.liesBeside p' = true ↔ workingDir.same workingDir' = true) := by
  obtain ⟨full, n, hfull, hn, rfl⟩ := h
  obtain ⟨full', n', hfull', hn', rfl⟩ := h'
  rw [Path.liesBeside_join_iff (Store.isAbsolute_of_absolute hfull)
    (Store.isAbsolute_of_absolute hfull') hn hn']
  obtain ⟨habs, -⟩ | ⟨-, -, workingDir, hworking, -, hparts⟩ := Store.components_of_absolute hfull
  · cases hrel.symm.trans habs
  · obtain ⟨habs, -⟩ | ⟨-, -, workingDir', hworking', -, hparts'⟩ :=
      Store.components_of_absolute hfull'
    · cases hrel.symm.trans habs
    · refine ⟨workingDir, workingDir', hworking, hworking', ?_⟩
      rw [hparts, hparts', Path.same, beq_iff_eq]
      exact List.append_left_inj _

end Reply.Places

/-- **The default directory is found once and kept, but kept as it is spelled.** Once an artifact
was answered to a call without a destination of its own, the default directory is one that was kept
from the start or that the first of the replies found, and every answer to what it is tells just
this. It is absolute exactly when the paths of the artifacts begin with it. If it is, all those
artifacts lie beside one another; if not, they lie beside one another exactly when they were made
from working directories that say the same. -/
theorem default_destination {c : Compiler} {start m : Machine} {history : List Reply}
    (h : Uses c start history m) {r : Reply} {p : Path} (hr : r ∈ history) (hp : r.Gives p) :
    ∃ dir, (c.defaultDir.run Machine.answer m).1 = .ok dir ∧
      (∀ r' ∈ history, ∀ dir', r'.GivesDefault dir' → dir' = dir) ∧
      (start.held = some dir ∨ ∃ r' ∈ history, r'.before.held = none ∧ r'.Finds c dir) ∧
      (∃ full parent, (r.before.system.runFiles (Store.absolute dir)).1 = .ok full ∧
        p.parent? = some parent ∧ parent.components = full.components) ∧
      (p.startsWith dir = true ↔ dir.isAbsolute = true) ∧
      ∀ r' ∈ history, ∀ p', r'.Gives p' →
        (dir.isAbsolute = true → p.liesBeside p' = true) ∧
        (dir.isAbsolute = false → ∃ workingDir workingDir',
          r.before.system.workingDirectory = .ok workingDir ∧
          r'.before.system.workingDirectory = .ok workingDir' ∧
          (p.liesBeside p' = true ↔ workingDir.same workingDir' = true)) := by
  obtain ⟨dir, hheld, hplaces⟩ := h.held_of_gives hr hp
  refine ⟨dir, by rw [Compiler.run_defaultDir, hheld], fun r' hr' dir' hdir' => ?_,
    h.found hheld, hplaces.parent, hplaces.startsWith_iff, fun r' hr' p' hp' => ?_⟩
  · exact Option.some.inj ((h.held_of_givesDefault hr' hdir').symm.trans hheld)
  · obtain ⟨dir', hheld', hplaces'⟩ := h.held_of_gives hr' hp'
    cases hheld.symm.trans hheld'
    exact ⟨hplaces.liesBeside hplaces', hplaces.liesBeside_iff hplaces'⟩

/-! ### A root that is pinned, and one that moves -/

/-- Files with a source and another directory to work in. -/
def workplaces : FileSystem :=
  ⟨⟨[([], .directory ⟨0, 0⟩), ([Utf8.ofString "a"], .file [1, 2, 3] ⟨5, 0⟩ fileMode),
    ([Utf8.ofString "work"], .directory ⟨0, 0⟩)], by decide⟩, .inside [], ⟨8, 0⟩, none, 0⟩

/-- The same files, seen from the other directory, with another root in the environment. -/
def FileSystem.fromWork (s : FileSystem) : FileSystem :=
  { s with workingDir := .inside [Utf8.ofString "work"], resources := some (Utf8.ofString "r") }

/-- An artifact of the source. -/
def sourceAsk : Ask := .template .identity (.ofString "/a") .none

/-- The reply to a compiler's first call. -/
def firstReply (c : Compiler) : Reply := c.reply ⟨workplaces, none, []⟩ sourceAsk

/-- The machine after it, when everything has moved. -/
def movedMachine (c : Compiler) : Machine :=
  { (firstReply c).after with system := (firstReply c).after.system.fromWork }

/-- The reply to the same call after that. -/
def movedReply (c : Compiler) : Reply := c.reply (movedMachine c) sourceAsk

theorem uses_moved (c : Compiler) : Uses c ⟨workplaces, none, []⟩ [movedReply c, firstReply c]
    (movedReply c).after :=
  .ask sourceAsk (.edit _ (.ask sourceAsk .start))

/-- The name of the artifact. -/
def sourceArtifact : Path :=
  .ofString "template_root_a_0568b0a648ab92e2_142352a4_6c69e8be9db2a35a25e184c33c7eb3c0.tpl"

/-- A root from the environment is below the working directory of the first call. -/
def pinnedCompiler : Compiler := .under .environment (.ofString "tmp/cache/mails")

theorem default_destination_pinned : ∃ p q, (firstReply pinnedCompiler).result = .ok p ∧
    (movedReply pinnedCompiler).result = .ok q ∧ p.liesBeside q = true ∧
    p.startsWith (.ofString "/resources/tmp/cache/mails") = true := by
  obtain ⟨hresult, hresult', hdefault⟩ :
      (firstReply pinnedCompiler).result =
        .ok ((Path.ofString "/resources/tmp/cache/mails").join sourceArtifact) ∧
      (movedReply pinnedCompiler).result =
        .ok ((Path.ofString "/resources/tmp/cache/mails").join sourceArtifact) ∧
      (pinnedCompiler.defaultDir.run Machine.answer (movedReply pinnedCompiler).after).1 =
        .ok (.ofString "/resources/tmp/cache/mails") := by
    decide +kernel
  obtain ⟨dir, hdir, -, -, -, hstarts, hbeside⟩ := default_destination (uses_moved pinnedCompiler)
    (List.mem_cons_of_mem _ List.mem_cons_self) (.template _ _ _ rfl rfl hresult)
  cases hdir.symm.trans hdefault
  exact ⟨_, _, hresult, hresult', (hbeside _ List.mem_cons_self _
    (.template _ _ _ rfl rfl hresult')).1 (by decide +kernel), hstarts.mpr (by decide +kernel)⟩

/-- A relative root stays as it is given. -/
def movingCompiler : Compiler := .under (.fixed (.ofString "r")) (.ofString "tmp/cache/mails")

/-- The default directory is the same before and after, and yet the artifacts lie in two
directories, and their paths do not begin with it. -/
theorem default_directory_moves : ∃ history m r r' p q dir,
    Uses movingCompiler ⟨workplaces, none, []⟩ history m ∧ r ∈ history ∧ r' ∈ history ∧
    r.Gives p ∧ r'.Gives q ∧
    (movingCompiler.defaultDir.run Machine.answer r.after).1 = .ok dir ∧
    (movingCompiler.defaultDir.run Machine.answer r'.after).1 = .ok dir ∧
    p.liesBeside q = false ∧ p.startsWith dir = false ∧ q.startsWith dir = false := by
  obtain ⟨hresult, hresult', hdefault, hdefault'⟩ :
      (firstReply movingCompiler).result =
        .ok ((Path.ofString "/r/tmp/cache/mails").join sourceArtifact) ∧
      (movedReply movingCompiler).result =
        .ok ((Path.ofString "/work/r/tmp/cache/mails").join sourceArtifact) ∧
      (movingCompiler.defaultDir.run Machine.answer (firstReply movingCompiler).after).1 =
        .ok (.ofString "r/tmp/cache/mails") ∧
      (movingCompiler.defaultDir.run Machine.answer (movedReply movingCompiler).after).1 =
        .ok (.ofString "r/tmp/cache/mails") := by
    decide +kernel
  exact ⟨_, _, firstReply movingCompiler, movedReply movingCompiler, _, _, _,
    uses_moved movingCompiler, List.mem_cons_of_mem _ List.mem_cons_self, List.mem_cons_self,
    .template _ _ _ rfl rfl hresult, .template _ _ _ rfl rfl hresult', hdefault, hdefault',
    by decide +kernel, by decide +kernel, by decide +kernel⟩

end TemplateCache
