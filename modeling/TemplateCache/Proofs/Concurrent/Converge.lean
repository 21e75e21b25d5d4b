import TemplateCache.Proofs.Concurrent.Caller

/-!
# Concurrent calls converge

Calls with the same source, transform and options overlap in any way, on files where one of them
alone would succeed. All of them answer the same path; the artifact, once there, stays there and is
never seen in part; and when all are done the files are those that the one call alone would have
left, its write time aside. What was removed was removed by exactly one of them, which counts it.
Main statement: `calls_converge`.

What a call finds in its directory it finds there when the way to it has been made. A path with
`..` after a part that is missing leads into a directory that may have entries already, though
nothing is found under the path at first: see `appears_with_other_bytes`. So whether the artifact is
absent is a question about that directory (`Aim.Absent`), and one about the path only where that goes
up from nothing that is missing. And what is made on the way may stand in the directory itself, where
it must not have the name of a sibling: see `removed_and_not_counted`.
-/

namespace TemplateCache

open FileSystem

/-! ## What a call is after -/

/-- What a call finds out about its artifact before it makes anything. -/
structure Aim (c : Compiler) (source : Path) (o : Options) (m : Machine) where
  contents : Bytes
  canonical : Path
  dest : Path
  store : Store
  read : m.system.contents source = .ok contents
  resolved : m.system.canonical source = .ok canonical
  destination : c.destinationFrom o m = .ok dest
  absolute : (m.system.runFiles (Store.absolute dest)).1 = .ok store.dir

namespace Aim

variable {c : Compiler} {source : Path} {o : Options} {m : Machine} {ι : Type}

/-- The name of the artifact. -/
def name (aim : Aim c source o m) : ArtifactName := c.artifactName o aim.canonical aim.contents

/-- The path of the artifact. -/
def path (aim : Aim c source o m) : Path := aim.store.artifactPath aim.name

/-- The files that one call alone leaves. -/
def alone (_ : Aim c source o m) : FileSystem :=
  ((c.template source o).run Machine.answer m).2.system

/-- The files once the directory is there. -/
def opened (aim : Aim c source o m) : FileSystem := (m.system.runFiles (Store.openAt aim.dest)).2

/-- Every entry that the directory then has under a name like the artifact's is a regular file. -/
def SiblingsRegular (aim : Aim c source o m) : Prop :=
  ∀ dir text n, aim.opened.Reaches aim.store.dir dir → aim.name.isSibling text = true →
    aim.opened.disk.get? (Utf8.encode text :: dir) = some n → ∃ data t mode, n = .file data t mode

/-- This can be checked node by node. -/
theorem siblingsRegular_of_nodes (aim : Aim c source o m)
    (h : ∀ entry ∈ aim.opened.disk.nodes, entry.2.status.isFile = true ∨
      ∀ x ∈ entry.1.head?, ¬ArtifactName.Reserved x) : aim.SiblingsRegular := by
  intro dir text n _ hsibling hn
  rcases h _ ((Disk.get?_eq_some_iff _ _ _).mp hn) with hfile | hother
  · cases n with
    | directory t => cases hfile
    | link target t => cases hfile
    | device t => cases hfile
    | file data t mode => exact ⟨data, t, mode, rfl⟩
  · exact absurd (ArtifactName.reserved_of_isSibling hsibling) (hother _ rfl)

/-- At first nothing stands under the artifact's name in the directory. -/
def Absent (aim : Aim c source o m) : Prop :=
  ∀ dir, aim.opened.Reaches aim.store.dir dir →
    m.system.disk.get? (aim.name.entryName :: dir) = none

end Aim

/-- Time passes, in whatever direction. -/
def Shared.Tick {ι : Type} (s s' : Shared ι) : Prop :=
  ∃ now, s' = { s with system := { s.system with now := now } }

namespace Aim

variable {c : Compiler} {source : Path} {o : Options} {m : Machine} {ι : Type} [DecidableEq ι]

/-- What is true at any time of calls that overlap. -/
structure Concurs (aim : Aim c source o m)
    (pool : ι → CompileProgram (Except CompileError Path)) (s : Shared ι) : Prop where
  /-- A call that has returned has returned the path, and any other comes to it. -/
  returns : ∀ i, ((pool i).run (Shared.answer i) s).1 = .ok aim.path
  /-- All of them can come to their end. -/
  ends : ∃ s', Program.Turns Shared.answer Shared.Tick pool s (fun _ => .done (.ok aim.path)) s'
  /-- Once the artifact is there, it stays there. -/
  stays : (∃ status, s.system.status aim.path = .ok status) → ∀ pool' s',
    Program.Turns Shared.answer Shared.Tick pool s pool' s' →
    ∃ status, s'.system.status aim.path = .ok status ∧ status.isFile = true
  /-- If it was not there at first, it is all there whenever it is read. -/
  whole : aim.Absent → ∀ data,
    s.system.contents aim.path = .ok data → c.transform.apply aim.contents o = .ok data

/-- What is true when all of them have returned. -/
structure Agrees (aim : Aim c source o m) (s : Shared ι) (dir : Location) : Prop where
  reaches : aim.alone.Reaches aim.store.dir dir ∧ s.system.Reaches aim.store.dir dir
  artifact : ∃ data mode t t', aim.alone.disk.get? (aim.name.entryName :: dir) =
      some (.file data t mode) ∧
    s.system.disk.get? (aim.name.entryName :: dir) = some (.file data t' mode)
  others : ∀ l, l ≠ aim.name.entryName :: dir → Disk.SameAt aim.alone.disk s.system.disk l
  /-- No temporary file is left, nor anything else that is new. -/
  nothingNew : ∀ l n, s.system.disk.get? l = some n → n.isDirectory = false →
    m.system.disk.get? l = some n ∨ l = aim.name.entryName :: dir
  /-- Each of those that were removed is counted by exactly one call. -/
  counted : ∃ removed : ι → List Name,
    (∀ x, (∃ i, x ∈ removed i) ↔ m.system.disk.get? (x :: dir) ≠ none ∧
      s.system.disk.get? (x :: dir) = none) ∧
    (∀ i, (removed i).Nodup) ∧ (∀ i j x, x ∈ removed i → x ∈ removed j → i = j) ∧
    ∀ i, Event.removedIn (s.events i) = (removed i).length

end Aim

namespace Scene

variable {ι : Type} {sc : Scene} {w : Noted ι}

/-! ## The scene of a call that succeeds -/

/-- What the call of a scene is after. -/
def aim (sc : Scene) : Aim sc.compiler sc.source sc.options ⟨sc.start, sc.held, []⟩ where
  contents := sc.contents
  canonical := Location.path sc.origin
  dest := sc.dest
  store := sc.store
  read := sc.read
  resolved := sc.canonical
  destination := sc.destination
  absolute := sc.absolute

section

variable {c : Compiler} {source : Path} {o : Options} {start opened : FileSystem}
  {held : Option Path} {contents : Bytes} {canonical : Path} {store : Store}

/-- A call that comes to its store, and there to its artifact, has a scene. -/
theorem exists_scene_of_arrival (hs : start.Sound)
    (harrival : Compiler.Arrival source (c.destinationFrom o ⟨start, held, []⟩) start contents
      canonical store opened)
    (hregular : ∀ aim : Aim c source o ⟨start, held, []⟩, aim.SiblingsRegular)
    (hask : store.CanAsk (c.artifactName o canonical contents)) (out : Bytes)
    (houtcome : ∀ dir, opened.Reaches store.dir dir →
      (∃ n, opened.disk.get? ((c.artifactName o canonical contents).entryName :: dir) = some n) ∨
        c.transform.apply contents o = .ok out) :
    ∃ sc : Scene, sc.compiler = c ∧ sc.source = source ∧ sc.options = o ∧ sc.start = start ∧
      sc.held = held ∧ sc.path = store.artifactPath (c.artifactName o canonical contents) ∧
      sc.aim.opened = sc.opened := by
  obtain ⟨origin, node, hfollow, rfl, -, hleaf⟩ := harrival.origin
  obtain ⟨dest, hdest, hopen⟩ := harrival.opened
  have habsolute := Store.openAt_eq_ok (congrArg Prod.fst hopen)
  have hraised := Store.raised_of_openAt hs hopen
  have hthere : opened.DirectoryAt store.dir := by
    have hiff := Store.openAt_eq_ok_iff hs habsolute
    rw [hopen] at hiff
    exact hiff.mp rfl
  obtain ⟨hcheck, dir, hreach⟩ := (directoryAt_iff (hraised.sound hs)).mp hthere
  let aim : Aim c source o ⟨start, held, []⟩ := ⟨contents, Location.path origin, dest, store,
    harrival.contents, harrival.canonical, hdest, habsolute⟩
  have hopened : aim.opened = opened := congrArg Prod.snd hopen
  have hfiles : ∀ text n, (c.artifactName o (Location.path origin) contents).isSibling text = true →
      opened.disk.get? (Utf8.encode text :: dir) = some n →
      ∃ data t mode, n = .file data t mode := by
    intro text n hsibling hn
    rw [← hopened] at hreach hn
    exact hregular aim dir text n hreach hsibling hn
  exact ⟨⟨c, source, o, start, held, hs, origin, node, hfollow, hleaf, contents, harrival.contents,
    harrival.canonical, dest, hdest, store, habsolute, opened, hraised, hcheck, dir, hreach, hask,
    hfiles, out, houtcome dir hreach⟩, rfl, rfl, rfl, rfl, rfl, rfl, hopened⟩

/-- A call that succeeds has a scene. -/
theorem exists_scene (hs : start.Sound) {p : Path}
    (hlone : ((c.template source o).run Machine.answer ⟨start, held, []⟩).1 = .ok p)
    (hregular : ∀ aim : Aim c source o ⟨start, held, []⟩, aim.SiblingsRegular) :
    ∃ sc : Scene, sc.compiler = c ∧ sc.source = source ∧ sc.options = o ∧ sc.start = start ∧
      sc.held = held ∧ sc.path = p ∧ sc.aim.opened = sc.opened := by
  have hcourse := c.template_course source o ⟨start, held, []⟩
  rw [hlone] at hcourse
  change Compiler.Course c source o _ start _ _ at hcourse
  generalize ((c.template source o).run Machine.answer (⟨start, held, []⟩ : Machine)).2.system =
    after at hcourse
  cases hcourse with
  | @hit contents canonical store opened harrival hthere =>
      have hplain := (c.isProper_artifactName o canonical contents).plain
      unfold Store.contains at hthere
      rw [FileProgram.runFiles_isFile] at hthere
      dsimp only at hthere
      split at hthere
      · rename_i status hstatus
        obtain ⟨l, data, t, mode, hfollow⟩ := follow_of_isFile hstatus hthere
        obtain ⟨hcheck, hlen, dir, hreach, hentry⟩ := follow_join hplain hfollow
        refine exists_scene_of_arrival hs harrival hregular ⟨hcheck, hlen⟩ [] ?_
        -- the path leads to a file, so something stands under the name
        intro dir' hreach'
        cases hreach.unique hreach'
        rcases hentry with ⟨target, t', hlink⟩ | hentry
        · exact .inl ⟨_, hlink⟩
        · obtain ⟨-, -, dir'', hreach'', ⟨-, hspot⟩ | ⟨n, hn, hspot⟩⟩ :=
            (entry_join_eq_ok_iff hplain).mp hentry
          · cases hspot
          · cases hreach.unique hreach''
            exact .inl ⟨n, hn⟩
      · cases hthere
  | @made contents out canonical _ store opened written harrival habsent happly hwrite =>
      have hproper := c.isProper_artifactName o canonical contents
      obtain ⟨dest, hdest, hopen⟩ := harrival.opened
      have hsound := (Store.raised_of_openAt hs hopen).sound hs
      obtain ⟨rfl, dir, hwritten⟩ := Store.write_eq_ok hsound hproper hwrite
      exact exists_scene_of_arrival hs harrival hregular hwritten.asked out
        fun _ _ => .inr happly

end

/-! ## The artifact seen through its path -/

/-- Whoever finds anything under the path finds the artifact. -/
theorem artifact_of_status (hw : sc.Fine w) {status : Status}
    (h : w.shared.system.status sc.path = .ok status) :
    w.shared.system.DirectoryAt sc.store.dir ∧
    ∃ data t mode, w.shared.system.disk.get? sc.artifact = some (.file data t mode) := by
  unfold FileSystem.status at h
  obtain ⟨spot, hfollow, hspot⟩ := bind_eq_ok h
  obtain ⟨-, -, dir, hreach, hentry⟩ := follow_join isProper_name.plain hfollow
  have hdir := (directoryAt_iff hw.sound).mpr ⟨sc.check, dir, hreach⟩
  have hworking := hw.working hdir
  cases hreach.unique (hworking.reaches hw)
  refine ⟨hdir, ?_⟩
  rcases hworking.artifact with ⟨hnone, -⟩ | ⟨data, t, mode, hfile, -⟩
  · rcases hentry with ⟨target, t, hlink⟩ | hentry
    · cases hlink.symm.trans hnone
    · obtain ⟨-, -, dir', hreach', ⟨-, rfl⟩ | ⟨n, hn, -⟩⟩ :=
        (entry_join_eq_ok_iff isProper_name.plain).mp hentry
      · cases hspot
      · cases hreach'.unique (hworking.reaches hw)
        cases hn.symm.trans hnone
  · exact ⟨data, t, mode, hfile⟩

/-- The path leads to the artifact that is there. -/
theorem follow_of_artifact (hw : sc.Fine w) (hdir : w.shared.system.DirectoryAt sc.store.dir)
    {data : Bytes} {t : Moment} {mode : Nat}
    (hfile : w.shared.system.disk.get? sc.artifact = some (.file data t mode)) :
    w.shared.system.follow sc.path = .ok (.node sc.artifact (.file data t mode)) :=
  follow_of_entry isProper_name.plain
    (entry_of_present askable_name ((hw.working hdir).reaches hw) hfile)

/-- What is not there at first has to be made. -/
theorem opened_of_absent (hopened : sc.aim.opened = sc.opened) (h : sc.aim.Absent) :
    sc.opened.disk.get? sc.artifact = none := by
  have hreach := sc.reaches
  rw [← hopened] at hreach
  have hbefore : sc.start.disk.get? sc.artifact = none := h sc.dir hreach
  rcases sc.raised.fate sc.sound sc.artifact with hsame | ⟨-, time, htime⟩
  · exact hsame.none_iff.mp hbefore
  -- on the way no directory is made under the artifact's name
  · rcases sc.artifact_opened with hnone | ⟨data, t, mode, hfile⟩
    · exact hnone
    · cases htime.symm.trans hfile

/-- Where the path goes up from nothing that is missing, the artifact is not there if nothing is
found under its path. -/
theorem absent_of_status (hopened : sc.aim.opened = sc.opened)
    (hstraight : Store.Straight sc.start sc.store.dir) {e : SystemError}
    (h : sc.start.status sc.path = .error e) : sc.aim.Absent := by
  intro dir hreach
  rw [hopened] at hreach
  cases hreach.unique sc.reaches
  -- what is there has come to be a regular file, which its path leads to
  have hnone : sc.opened.disk.get? sc.artifact = none := by
    rcases sc.raised.opened_or_empty sc.sound sc.absolute hstraight with hsame | ⟨l, hreach', hempty⟩
    · rcases sc.artifact_opened with hnone | ⟨data, t, mode, hfile⟩
      · exact hnone
      · have hreach := sc.reaches
        rw [hsame] at hfile hreach
        have hfollow := follow_of_entry isProper_name.plain
          (entry_of_present askable_name hreach hfile)
        cases h.symm.trans (status_of_follow hfollow)
    · cases sc.reaches.unique hreach'
      exact hempty _
  rcases sc.raised.fate sc.sound sc.artifact with hsame | ⟨hbefore, -⟩
  · exact hsame.none_iff.mpr hnone
  · exact hbefore

/-! ## The end -/

/-- The files when all callers are done: the artifact is there, what is expired is not, and all else
is as it was when the directory was opened. -/
structure Ended (sc : Scene) (s : FileSystem) : Prop where
  reaches : s.Reaches sc.store.dir sc.dir
  kept : ∀ n, sc.opened.disk.get? sc.artifact = some n → s.disk.get? sc.artifact = some n
  made : sc.opened.disk.get? sc.artifact = none →
    ∃ t, s.disk.get? sc.artifact = some (.file sc.out t fileMode)
  cleared : ∀ x, sc.Expired x → s.disk.get? (x :: sc.dir) = none
  others : ∀ l, l ≠ sc.artifact → (∀ x, sc.Expired x → l ≠ x :: sc.dir) →
    Disk.SameAt sc.opened.disk s.disk l

theorem ended_of_finished (hw : sc.Fine w) [Nonempty ι]
    (h : ∀ i, ∃ result, sc.Finished i result w) : sc.Ended w.shared.system := by
  have hany := (h (Classical.arbitrary ι)).choose_spec
  have hworking := hw.working hany.directory
  have hidle : ∀ i, (w.notes i).temporary = none := fun i =>
    (h i).choose_spec.settled.temporary
  obtain ⟨data, t, mode, hfile⟩ := hany.artifact
  refine ⟨hworking.reaches hw, fun n hn => ?_, fun hnone => ?_, fun x hexpired => ?_,
    fun l hl hkeep => ?_⟩
  · have hsame := hworking.same hn fun x hx hl => hx.ne_entryName (List.cons.inj hl).1.symm
    obtain ⟨n', hn', hlike⟩ := hsame.some hn
    rw [hfile] at hn'
    cases hn'
    rcases hlike with rfl | ⟨-, hdir⟩
    · exact hfile
    · cases hdir
  · rcases hworking.artifact with ⟨hnone', -⟩ | ⟨data', t', mode', hfile', hnew⟩
    · cases hfile.symm.trans hnone'
    · obtain ⟨rfl, rfl⟩ := hnew hnone
      exact ⟨t', hfile'⟩
  · -- where something is expired, somebody has written the artifact
    rcases hworking.wrote with ⟨i, hi⟩ | hsame
    · exact (h i).choose_spec.settled.cleared hi x hexpired
    · cases (hsame.none_iff.mp hexpired.absent).symm.trans hfile
  · cases hworking.fate l with
    | same hsame => exact hsame
    | written hl' _ _ => exact absurd hl' hl
    | removed hl' hx _ _ => exact absurd hl' (hkeep _ hx)
    | temporary _ hi =>
        rw [hidle] at hi
        cases hi

/-- There is only one such end, the artifact's write time aside. -/
theorem Ended.agree {s s' : FileSystem} (h : sc.Ended s) (h' : sc.Ended s') :
    (∃ data mode t t', s.disk.get? sc.artifact = some (.file data t mode) ∧
      s'.disk.get? sc.artifact = some (.file data t' mode)) ∧
    ∀ l, l ≠ sc.artifact → Disk.SameAt s.disk s'.disk l := by
  constructor
  · rcases sc.artifact_opened with hnone | ⟨data, t, mode, hfile⟩
    · obtain ⟨t, ht⟩ := h.made hnone
      obtain ⟨t', ht'⟩ := h'.made hnone
      exact ⟨sc.out, fileMode, t, t', ht, ht'⟩
    · exact ⟨data, mode, t, t, h.kept _ hfile, h'.kept _ hfile⟩
  · intro l hl
    by_cases hexpired : ∃ x, sc.Expired x ∧ l = x :: sc.dir
    · obtain ⟨x, hx, rfl⟩ := hexpired
      exact .of_eq (by rw [h.cleared x hx, h'.cleared x hx])
    · have hkeep : ∀ x, sc.Expired x → l ≠ x :: sc.dir := fun x hx e => hexpired ⟨x, hx, e⟩
      exact (h.others l hl hkeep).symm.trans (h'.others l hl hkeep)

/-- Nothing is new in the end but directories and the artifact. -/
theorem Ended.nothingNew {s : FileSystem} (h : sc.Ended s) {l : Location} {n : Node}
    (hn : s.disk.get? l = some n) (hdir : n.isDirectory = false) :
    sc.start.disk.get? l = some n ∨ l = sc.artifact := by
  by_cases hl : l = sc.artifact
  · exact .inr hl
  by_cases hexpired : ∃ x, sc.Expired x ∧ l = x :: sc.dir
  · obtain ⟨x, hx, rfl⟩ := hexpired
    cases hn.symm.trans (h.cleared x hx)
  · have hsame := h.others l hl fun x hx e => hexpired ⟨x, hx, e⟩
    have hopened := hsame.symm.eq_some hn hdir
    rcases sc.raised.fate sc.sound l with hsame' | ⟨-, time, htime⟩
    · exact .inl (hsame'.symm.eq_some hopened hdir)
    · rw [hopened] at htime
      cases htime
      cases hdir

/-- What is gone was removed by exactly one caller. -/
theorem removed_iff (hw : sc.Fine w) [Nonempty ι] (h : ∀ i, ∃ result, sc.Finished i result w)
    (x : Name) : (∃ i, x ∈ (w.notes i).removed) ↔
      sc.start.disk.get? (x :: sc.dir) ≠ none ∧
      w.shared.system.disk.get? (x :: sc.dir) = none := by
  have hended := ended_of_finished hw h
  have hworking := hw.working (h (Classical.arbitrary ι)).choose_spec.directory
  constructor
  · rintro ⟨i, hi⟩
    obtain ⟨hexpired, hgone⟩ := hworking.gone i x hi
    refine ⟨fun hnone => ?_, hgone⟩
    obtain ⟨data, t, mode, _, hfile, -⟩ := hexpired.old
    rcases sc.raised.fate sc.sound (x :: sc.dir) with hsame | ⟨-, time, htime⟩
    · cases (hsame.none_iff.mp hnone).symm.trans hfile
    · cases htime.symm.trans hfile
  · rintro ⟨hthere, hgone⟩
    obtain ⟨n, hn⟩ := Option.ne_none_iff_exists'.mp hthere
    obtain ⟨n', hn', -⟩ := sc.raised.kept sc.sound hn
    cases hworking.fate (x :: sc.dir) with
    | same hsame => cases (hsame.none_iff.mpr hgone).symm.trans hn'
    | written _ _ hfile => cases hfile.symm.trans hgone
    | @removed y i hl _ hmem _ => exact ⟨i, (List.cons.inj hl).1 ▸ hmem⟩
    | @temporary k i _ hi =>
        rw [(h i).choose_spec.settled.temporary] at hi
        cases hi

/-! ## From the beginning -/

/-- The world before any call. -/
def first (sc : Scene) (ι : Type) : Noted ι :=
  ⟨⟨sc.start, sc.held, fun _ => []⟩, fun _ => .none⟩

theorem fine_first : sc.Fine (sc.first ι) := by
  refine ⟨sc.sound, rfl, rfl, .inl rfl, Nat.le_refl _, fun k hle hlt => ?_,
    .inl ⟨.start_stage sc.sound, fun _ => rfl⟩⟩
  exact absurd hlt (Nat.not_lt.mpr hle)

theorem fresh_first (sc : Scene) (i : ι) : Fresh i (sc.first ι) := ⟨rfl, rfl, rfl⟩

theorem room_of_start {n : Nat} (h : sc.start.seed + sc.start.disk.nodes.length + pathLimit + n <
      temporaryLimit ArtifactName.leastLength) : sc.Room n := by
  obtain ⟨habs, -⟩ := Store.absolute_eq_ok sc.sound sc.absolute
  have hpaths := FileProgram.length_ancestors_le habs sc.check
  have hnodes := sc.raised.length_le
  exact ⟨_, fun numbers hnodup hused => length_le_of_used (l := sc.dir) hnodup hused, by omega⟩

/-- Nobody minds that time passes. -/
theorem bears_tick : (sc.pact ι).Bears Shared.Tick := by
  rintro w _ hw ⟨now, rfl⟩
  have hw : sc.Fine w := hw
  refine ⟨⟨{ w.shared with system := { w.shared.system with now := now } }, w.notes⟩, rfl,
    hw.of_eq rfl rfl rfl rfl hw.held rfl, ?_, fun i => ⟨rfl, rfl⟩⟩
  exact ⟨fun l n hn _ => ⟨n, hn, .refl n⟩, fun _ t _ h => ⟨t, h⟩, fun _ _ h => h⟩

/-- What has been finished stays so. -/
theorem stable_finished (i : ι) (result : Except CompileError Path) :
    (sc.pact ι).Stable i (fun w => sc.Fine w ∧ sc.Finished i result w) :=
  fun hpost hlater => ⟨hlater.fine, hpost.2.stable hpost.1 hlater⟩

variable [DecidableEq ι]

/-- What is known of each caller at any time. -/
theorem keeps_of_turns [Fintype ι] (hroom : sc.Room (Fintype.card ι))
    {pool : ι → CompileProgram (Except CompileError Path)} {s : Shared ι}
    (h : Program.Turns Shared.answer Shared.Tick
      (fun _ => sc.compiler.template sc.source sc.options) (sc.first ι).shared pool s) :
    ∃ w, w.shared = s ∧ sc.Fine w ∧
      ∀ i, sc.KeepsCall i (fun result w => sc.Fine w ∧ sc.Finished i result w) (pool i) w := by
  obtain ⟨w, hstate, hfine, -, hkeeps⟩ := Pact.keeps_turns bears_tick stable_finished
    (w := sc.first ι) fine_first
    (fun i => (keeps_template hroom (sc.fresh_first i)).mono fine_first fun _ _ hw h => ⟨hw, h⟩) h
  exact ⟨w, hstate, hfine, hkeeps⟩

theorem concurs_of_turns [Fintype ι] (hroom : sc.Room (Fintype.card ι))
    (hfound : sc.aim.opened = sc.opened)
    {pool : ι → CompileProgram (Except CompileError Path)} {s : Shared ι}
    (h : Program.Turns Shared.answer Shared.Tick
      (fun _ => sc.compiler.template sc.source sc.options) (sc.first ι).shared pool s) :
    sc.aim.Concurs pool s := by
  obtain ⟨w, rfl, hw, hkeeps⟩ := keeps_of_turns hroom h
  have hreturns : ∀ {pool : ι → CompileProgram (Except CompileError Path)} {w : Noted ι},
      sc.Fine w → (∀ i, sc.KeepsCall i (fun result w => sc.Fine w ∧ sc.Finished i result w)
        (pool i) w) → ∀ i, ((pool i).run (Shared.answer i) w.shared).1 = .ok sc.path := by
    intro pool w hw hkeeps i
    obtain ⟨_, -, -, -, hfinished⟩ := (hkeeps i).run hw
    exact hfinished.result
  refine ⟨hreturns hw hkeeps, ?_, fun ⟨status, hstatus⟩ pool' s' hturns => ?_,
    fun habsent data hdata => ?_⟩
  · obtain ⟨results, s', hturns⟩ :=
      Program.Turns.exists_done Shared.answer Shared.Tick pool w.shared
    obtain ⟨w', rfl, hw', hkeeps'⟩ := keeps_of_turns hroom (h.trans hturns)
    have hresults : results = fun _ => .ok sc.aim.path := funext fun i => hreturns hw' hkeeps' i
    rw [hresults] at hturns
    exact ⟨_, hturns⟩
  · obtain ⟨hdir, data, t, mode, hfile⟩ := artifact_of_status hw hstatus
    obtain ⟨w', rfl, hw', hseen, -⟩ := Pact.keeps_turns bears_tick stable_finished hw hkeeps hturns
    obtain ⟨t', hfile'⟩ := hseen.artifact data t mode hfile
    have hfollow := follow_of_artifact hw' (directoryAt_seen hw hw' hseen hdir) hfile'
    exact ⟨_, status_of_follow hfollow, rfl⟩
  · have hopened := opened_of_absent hfound habsent
    have hdata : w.shared.system.contents sc.path = .ok data := hdata
    -- what can be read has a status
    have hstatus : ∃ status, w.shared.system.status sc.path = .ok status := by
      unfold FileSystem.contents at hdata
      obtain ⟨spot, hfollow, hspot⟩ := bind_eq_ok hdata
      cases spot with
      | node l n => exact ⟨_, status_of_follow hfollow⟩
      | removed base levels => cases hspot
      | vacant dir name => cases hspot
    obtain ⟨status, hstatus⟩ := hstatus
    obtain ⟨hdir, data', t, mode, hfile⟩ := artifact_of_status hw hstatus
    have hread := contents_of_follow (follow_of_artifact hw hdir hfile)
    cases hdata.symm.trans hread
    rcases (hw.working hdir).artifact with ⟨hnone, -⟩ | ⟨_, _, _, hfile', hnew⟩
    · cases hfile.symm.trans hnone
    · cases hfile.symm.trans hfile'
      obtain ⟨rfl, -⟩ := hnew hopened
      rcases sc.outcome with ⟨n, hn⟩ | happly
      · cases hn.symm.trans hopened
      · exact happly

/-- What one call alone leaves. -/
theorem ended_alone (hroom : sc.Room 1) : sc.Ended sc.aim.alone := by
  have hkeeps := keeps_template (i := ()) (ι := Unit) hroom (sc.fresh_first ())
  obtain ⟨w, hstate, hstep, hfinished⟩ := hkeeps.run fine_first
  have hended := ended_of_finished (w := w) hstep.fine fun _ => ⟨_, hfinished⟩
  have hsystem : w.shared.system = sc.aim.alone := by
    have hshared : w.shared = _ := hstate
    rw [hshared, Shared.run_answer]
    rfl
  rwa [hsystem] at hended

end Scene

open Scene in
/-- Calls with the same arguments, overlapping in any way where one of them alone succeeds, all
return the path that it returns, never lose or spoil the artifact, and leave what it leaves. -/
theorem calls_converge {ι : Type} [DecidableEq ι] [Fintype ι] [Nonempty ι] {c : Compiler}
    {source : Path} {o : Options} {start : FileSystem} {held : Option Path} {p : Path}
    (hs : start.Sound)
    (hlone : ((c.template source o).run Machine.answer ⟨start, held, []⟩).1 = .ok p)
    (hregular : ∀ aim : Aim c source o ⟨start, held, []⟩, aim.SiblingsRegular)
    (hroom : start.seed + start.disk.nodes.length + pathLimit + Fintype.card ι <
      temporaryLimit ArtifactName.leastLength) :
    ∃ (aim : Aim c source o ⟨start, held, []⟩) (dir : Location), aim.path = p ∧
      (Store.Straight start aim.store.dir → (∃ e, start.status p = .error e) → aim.Absent) ∧
      ∀ (pool : ι → CompileProgram (Except CompileError Path)) (s : Shared ι),
        Program.Turns Shared.answer Shared.Tick (fun _ => c.template source o)
          ⟨start, held, fun _ => []⟩ pool s →
        aim.Concurs pool s ∧
        ((∀ i, ∃ result, pool i = .done result) → aim.Agrees s dir) := by
  obtain ⟨sc, rfl, rfl, rfl, rfl, rfl, rfl, hfound⟩ := exists_scene hs hlone hregular
  have hcard : 0 < Fintype.card ι := Fintype.card_pos
  have hrooms := room_of_start hroom
  refine ⟨sc.aim, sc.dir, rfl, fun hstraight ⟨_, he⟩ => absent_of_status hfound hstraight he,
    fun pool s hturns =>
    ⟨concurs_of_turns hrooms hfound hturns, fun hdone => ?_⟩⟩
  obtain ⟨w, rfl, hw, hkeeps⟩ := keeps_of_turns hrooms hturns
  have hall : ∀ i, ∃ result, sc.Finished i result w := by
    intro i
    obtain ⟨result, hresult⟩ := hdone i
    have hkept := hkeeps i
    rw [hresult] at hkept
    exact ⟨result, hkept.2⟩
  have hended := ended_of_finished hw hall
  have hroom' : sc.Room 1 := room_of_start (by omega)
  have halone := ended_alone hroom'
  obtain ⟨hartifact, hothers⟩ := halone.agree hended
  have hworking := hw.working (hall (Classical.arbitrary ι)).choose_spec.directory
  exact ⟨⟨halone.reaches, hended.reaches⟩, hartifact, hothers, fun l n => hended.nothingNew,
    fun i => (w.notes i).removed, removed_iff hw hall, hworking.once, hworking.disjoint,
    fun i => (hall i).choose_spec.settled.removed⟩

/-! ## Two calls, and one by a roundabout way -/

/-- A disk with a source, and a directory with other bytes under the artifact's name. -/
def strayDisk : Disk where
  nodes := [
    ([], .directory ⟨0, 0⟩),
    ([Utf8.ofString "a.html"], .file [97] ⟨5, 0⟩ fileMode),
    ([Utf8.ofString "out"], .directory ⟨0, 0⟩),
    ([Utf8.ofString
        "template_root_a_05f8f540d8935e3b_142352a4_0bb43091937b1110bc7a6c071926d6a4.html",
      Utf8.ofString "out"], .file [120] ⟨1, 0⟩ fileMode)]
  distinct := by decide

def strayStart : FileSystem := ⟨strayDisk, .inside [], ⟨8, 0⟩, none, 0⟩

/-- A call for its source with a directory of its own. -/
def strayCall (dir : String) : CompileProgram (Except CompileError Path) :=
  (Compiler.under (.fixed (.ofString "/r")) (.ofString "mails")).template (.ofString "a.html")
    (Options.none.withDestination (.ofString dir))

/-- The path of its artifact in a directory. -/
def strayPath (dir : String) : Path :=
  (Path.ofString dir).join
    (.ofString "template_root_a_05f8f540d8935e3b_142352a4_0bb43091937b1110bc7a6c071926d6a4.html")

theorem sound_strayStart : strayStart.Sound where
  tree := Disk.isTree_of_hangs (by decide) (by decide)
  working := ⟨⟨0, 0⟩, by decide⟩

/-- Two calls that make the same directory. -/
theorem two_calls_converge :
    ∃ (aim : Aim (Compiler.under (.fixed (.ofString "/r")) (.ofString "mails"))
        (.ofString "a.html") (Options.none.withDestination (.ofString "new"))
        ⟨strayStart, none, []⟩) (dir : Location) (s : Shared Bool),
      Program.Turns Shared.answer Shared.Tick (fun _ => strayCall "new")
        ⟨strayStart, none, fun _ => []⟩ (fun _ => .done (.ok (strayPath "/new"))) s ∧
      aim.Agrees s dir := by
  have hlone : ((strayCall "new").run Machine.answer ⟨strayStart, none, []⟩).1 =
      .ok (strayPath "/new") := by decide +kernel
  have hregular : ∀ aim : Aim (Compiler.under (.fixed (.ofString "/r")) (.ofString "mails"))
      (.ofString "a.html") (Options.none.withDestination (.ofString "new"))
      ⟨strayStart, none, []⟩, aim.SiblingsRegular := by
    intro aim
    have hdest : Path.ofString "new" = aim.dest := Except.ok.inj aim.destination
    refine aim.siblingsRegular_of_nodes ?_
    unfold Aim.opened
    rw [← hdest]
    decide +kernel
  obtain ⟨aim, dir, hpath, -, hall⟩ := calls_converge (ι := Bool) sound_strayStart hlone hregular
    (by decide)
  obtain ⟨s, hturns⟩ := (hall _ _ .start).1.ends
  rw [hpath] at hturns
  exact ⟨aim, dir, s, hturns, (hall _ s hturns).2 fun _ => ⟨_, rfl⟩⟩

/-- Where the way to the directory goes through one that is missing and up again, nothing is found
under the artifact's path at first, and then other bytes than the compiled ones. -/
theorem appears_with_other_bytes :
    strayStart.Sound ∧
    (∀ x n, strayStart.disk.get? [x, Utf8.ofString "out"] = some n →
      n = .file [120] ⟨1, 0⟩ fileMode) ∧
    ((strayCall "out/sub/..").run Machine.answer ⟨strayStart, none, []⟩).1 =
      .ok (strayPath "/out/sub/..") ∧
    strayStart.status (strayPath "/out/sub/..") = .error .missing ∧
    ∃ s, Program.Turns Shared.answer Shared.Tick (fun _ : Unit => strayCall "out/sub/..")
        ⟨strayStart, none, fun _ => []⟩ (fun _ => .done (.ok (strayPath "/out/sub/.."))) s ∧
      s.system.contents (strayPath "/out/sub/..") = .ok [120] ∧
      Transform.identity.apply [97] (Options.none.withDestination (.ofString "out/sub/..")) =
        .ok [97] := by
  have hlone : ((strayCall "out/sub/..").run Machine.answer ⟨strayStart, none, []⟩).1 =
      .ok (strayPath "/out/sub/..") := by decide +kernel
  refine ⟨sound_strayStart, fun x n hn => ?_, hlone, by decide +kernel, ?_⟩
  · have hmem := (Disk.get?_eq_some_iff _ _ _).mp hn
    -- of the four nodes only the last is an entry of that directory
    rcases List.mem_cons.mp hmem with he | hmem
    · cases congrArg (fun e => e.1.length) he
    rcases List.mem_cons.mp hmem with he | hmem
    · cases congrArg (fun e => e.1.length) he
    rcases List.mem_cons.mp hmem with he | hmem
    · cases congrArg (fun e => e.1.length) he
    rcases List.mem_cons.mp hmem with he | hmem
    · exact congrArg Prod.snd he
    · cases hmem
  · have hturns := Shared.turns_alone Shared.Tick (strayCall "out/sub/..") strayStart none
    rw [hlone] at hturns
    exact ⟨_, hturns, by decide +kernel, rfl⟩

/-- An artifact of the same source with other contents. -/
def siblingOf (key : String) : String :=
  "template_root_a_05f8f540d8935e3b_142352a4_" ++ key ++ ".html"

/-- The one that is in the directory. -/
def oldSibling : Name := Utf8.ofString (siblingOf "00000000000000000000000000000000")

/-- A disk with a source whose time is yet to come, and an older artifact of it. -/
def lateDisk : Disk where
  nodes := [
    ([], .directory ⟨0, 0⟩),
    ([Utf8.ofString "a.html"], .file [97] ⟨9, 0⟩ fileMode),
    ([Utf8.ofString "out"], .directory ⟨0, 0⟩),
    ([oldSibling, Utf8.ofString "out"], .file [120] ⟨1, 0⟩ fileMode)]
  distinct := by decide

def lateStart : FileSystem := ⟨lateDisk, .inside [], ⟨8, 0⟩, none, 0⟩

/-- A way to the directory through an entry that is missing and named like an artifact. -/
def lateDir : String := "out/" ++ siblingOf "11111111111111111111111111111111" ++ "/.."

/-- Where the way to the directory goes through an entry of it that is missing and named like the
artifact, the call makes a directory there, which it cannot remove when it is older than the source.
What it removed before is not told of. -/
theorem removed_and_not_counted :
    lateStart.Sound ∧
    lateStart.disk.names [Utf8.ofString "out"] = [oldSibling] ∧
    lateStart.disk.get? [oldSibling, Utf8.ofString "out"] = some (.file [120] ⟨1, 0⟩ fileMode) ∧
    ∃ s, Program.Turns Shared.answer Shared.Tick (fun _ : Unit => strayCall lateDir)
        ⟨lateStart, none, fun _ => []⟩
        (fun _ => .done (.ok (strayPath ("/" ++ lateDir)))) s ∧
      s.system.disk.get? [oldSibling, Utf8.ofString "out"] = none ∧
      Event.removedIn (s.events ()) = 0 := by
  have hlone : ((strayCall lateDir).run Machine.answer ⟨lateStart, none, []⟩).1 =
      .ok (strayPath ("/" ++ lateDir)) := by decide +kernel
  have hturns := Shared.turns_alone Shared.Tick (strayCall lateDir) lateStart none
  rw [hlone] at hturns
  exact ⟨⟨Disk.isTree_of_hangs (by decide) (by decide), ⟨0, 0⟩, by decide⟩, by decide +kernel,
    by decide +kernel, _, hturns, by decide +kernel, by decide +kernel⟩

end TemplateCache
