import TemplateCache.Proofs.Concurrent.Finding
import TemplateCache.Proofs.Concurrent.Steps

/-!
# How callers come to the store

A caller that comes to its store has read the source, found out where the artifact goes, and made
the directory or found it made. Whatever other callers do in the meantime, each of its questions
gets the answer that the caller of the scene got, or finds done what that caller had to do. Main
statements: `keeps_destination` and `keeps_openAt`.
-/

namespace TemplateCache

open FileSystem

namespace Scene

variable {ι α β : Type} {sc : Scene} {i : ι} {w w' : Noted ι}

/-! ## What a caller knows -/

/-- A caller that has changed nothing but directories, and told of nothing else. -/
structure Fresh (i : ι) (w : Noted ι) : Prop where
  idle : w.notes i = .none
  removed : Event.removedIn (w.shared.events i) = 0
  wrote : Event.wroteIn (w.shared.events i) = 0

theorem Fresh.later (h : Fresh i w) (hlater : (sc.pact ι).Later i w w') : Fresh i w' := by
  obtain ⟨hnotes, hevents⟩ := hlater.spared
  exact ⟨hnotes.trans h.idle, hevents ▸ h.removed, hevents ▸ h.wrote⟩

/-- A world with one more event of a caller. -/
def told [DecidableEq ι] (w : Noted ι) (i : ι) (e : Event) : Noted ι :=
  ⟨{ w.shared with events := Function.update w.shared.events i (e :: w.shared.events i) }, w.notes⟩

theorem events_told [DecidableEq ι] (w : Noted ι) (i : ι) (e : Event) :
    (told w i e).shared.events i = e :: w.shared.events i := Function.update_self ..

theorem Fresh.told [DecidableEq ι] (h : Fresh i w) {e : Event} (hremoved : e.removed = 0)
    (hwrote : e.isWrote = false) : Fresh i (told w i e) := by
  refine ⟨h.idle, ?_, ?_⟩
  · rw [events_told, Event.removedIn_cons, hremoved, h.removed]
  · simp [events_told, hwrote, h.wrote]

/-- A directory that a path leads to stays. -/
theorem directoryAt_later (hw : sc.Fine w) (hlater : (sc.pact ι).Later i w w') {p : Path}
    (h : w.shared.system.DirectoryAt p) : w'.shared.system.DirectoryAt p :=
  h.mono hw.sound hlater.fine.sound hlater.seen.ways
    (hlater.fine.workingDir.trans hw.workingDir.symm)

variable [DecidableEq ι]

/-- A program on files keeps the pact of a scene. -/
abbrev KeepsFiles (sc : Scene) (i : ι) (P : α → Noted ι → Prop) (p : FileProgram α)
    (w : Noted ι) : Prop :=
  (sc.pact ι).Keeps (I := FileInterface) Shared.onSystem i P p w

/-- So does a part of a call. -/
abbrev KeepsCall (sc : Scene) (i : ι) (P : α → Noted ι → Prop) (p : CompileProgram α)
    (w : Noted ι) : Prop :=
  (sc.pact ι).Keeps (I := CompileInterface) Shared.answer i P p w

/-! ## Questions -/

/-- A request that changes nothing. -/
theorem look_file {r : Request} (hstill : ∀ s, (FileSystem.answer r s).2 = s)
    {Q : β → Noted ι → Prop} {k : r.Answer → FileProgram β}
    (h : ∀ w', (sc.pact ι).Later i w w' →
      sc.KeepsFiles i Q (k (FileSystem.answer r w'.shared.system).1) w') :
    sc.KeepsFiles i Q (FileProgram.ask r >>= k) w := Pact.Keeps.look_file hstill h

theorem look_call {r : Request} (hstill : ∀ s, (FileSystem.answer r s).2 = s)
    {Q : β → Noted ι → Prop} {k : r.Answer → CompileProgram β}
    (h : ∀ w', (sc.pact ι).Later i w w' →
      sc.KeepsCall i Q (k (FileSystem.answer r w'.shared.system).1) w') :
    sc.KeepsCall i Q (CompileProgram.ask (.file r) >>= k) w := Pact.Keeps.look_call hstill h

/-- A request that changes files. -/
theorem change_file {r : Request} {Q : β → Noted ι → Prop} {k : r.Answer → FileProgram β}
    (h : ∀ w', (sc.pact ι).Later i w w' → ∃ w'',
      w''.shared = { w'.shared with system := (FileSystem.answer r w'.shared.system).2 } ∧
      (sc.pact ι).Step i w' w'' ∧
      sc.KeepsFiles i Q (k (FileSystem.answer r w'.shared.system).1) w'') :
    sc.KeepsFiles i Q (FileProgram.ask r >>= k) w := Pact.Keeps.change_file h

/-- An event is told, and nothing else happens. -/
theorem tell_call {e : Event} {Q : β → Noted ι → Prop} {k : Unit → CompileProgram β}
    (h : ∀ w', (sc.pact ι).Later i w w' →
      sc.KeepsCall i Q (k ()) (told w' i e)) :
    sc.KeepsCall i Q (CompileProgram.ask (.tell e) >>= k) w := by
  refine Pact.Keeps.ask fun w' hlater => ⟨_, (Shared.answer_tell i e w'.shared).symm ▸ rfl, ?_,
    h w' hlater⟩
  refine ⟨hlater.fine.of_eq rfl rfl rfl rfl hlater.fine.held rfl,
    ⟨fun l n hn _ => ⟨n, hn, .refl n⟩, fun _ t _ h => ⟨t, h⟩, fun _ _ h => h⟩,
    fun j hj => ⟨rfl, Function.update_of_ne hj ..⟩⟩

/-- The last that a program does is to tell something. -/
theorem tell_last {e : Event} {Q : Unit → Noted ι → Prop}
    (h : ∀ w', (sc.pact ι).Later i w w' → Q () (told w' i e)) :
    sc.KeepsCall i Q (CompileProgram.ask (.tell e)) w := by
  have hlast := tell_call (k := Pure.pure) h
  rwa [bind_pure] at hlast

/-! ## Finding the directory -/

/-- What a caller knows is not touched by finding the directory. -/
theorem steady (sc : Scene) (i : ι) :
    (sc.pact ι).Steady sc.compiler sc.options ⟨sc.start, sc.held, []⟩ i (Fresh i) where
  workingDir := fun {w} (h : sc.Fine w) => h.workingDir
  resources := fun {w} (h : sc.Fine w) => h.resources
  held := fun {w} (h : sc.Fine w) => h.held.imp_right fun hkept => ⟨_, sc.destination, hkept⟩
  later := fun h hlater => h.later hlater
  tell := fun {w} dest (h : sc.Fine w) hfresh => by
    refine ⟨told w i (.foundDefault dest), (Shared.answer_tell i _ w.shared).symm ▸ rfl, ?_,
      hfresh.told rfl rfl⟩
    exact ⟨h.of_eq rfl rfl rfl rfl h.held rfl,
      ⟨fun l n hn _ => ⟨n, hn, .refl n⟩, fun _ t _ h => ⟨t, h⟩, fun _ _ h => h⟩,
      fun j hj => ⟨rfl, Function.update_of_ne hj ..⟩⟩
  publish := fun {w} dest hdest (h : sc.Fine w) hfresh => by
    cases hdest.symm.trans sc.destination
    refine ⟨⟨{ w.shared with held := some sc.dest }, w.notes⟩, rfl, ?_,
      ⟨hfresh.idle, hfresh.removed, hfresh.wrote⟩⟩
    exact ⟨h.of_eq rfl rfl rfl rfl (.inr rfl) rfl,
      ⟨fun l n hn _ => ⟨n, hn, .refl n⟩, fun _ t _ h => ⟨t, h⟩, fun _ _ h => h⟩,
      fun j _ => ⟨rfl, rfl⟩⟩

/-- Every caller finds the same directory, or is given it by another. -/
theorem keeps_destination (hw : sc.Fine w) (hfresh : Fresh i w) :
    sc.KeepsCall i (fun result w => result = .ok sc.dest ∧ Fresh i w)
      (sc.compiler.destination sc.options) w :=
  ((sc.steady i).keeps_destination hfresh).mono hw fun _ _ _ h => ⟨h.1.trans sc.destination, h.2⟩

/-! ## Making directories -/

/-- What is known when some directories have been made. -/
def Made (i : ι) (paths : List Path) (result : Except SystemError Unit) (w : Noted ι) : Prop :=
  result = .ok () ∧ (∀ p ∈ paths, w.shared.system.DirectoryAt p) ∧ Fresh i w

theorem keeps_unlessThere (hw : sc.Fine w) {p : Path} (h : w.shared.system.DirectoryAt p)
    (e : SystemError) {P : Except SystemError Unit → Noted ι → Prop}
    (hP : ∀ w', (sc.pact ι).Later i w w' → P (.ok ()) w') :
    sc.KeepsFiles i P (FileProgram.unlessThere p e) w := by
  unfold FileProgram.unlessThere FileProgram.isDirectory
  rw [bind_assoc]
  refine look_file (fun s => rfl) fun w' hlater => ?_
  dsimp only [FileSystem.answer]
  obtain ⟨l, t, hfollow⟩ := directoryAt_later hw hlater h
  rw [status_of_follow hfollow]
  exact hP w' hlater

/-- A rung of the ladder to the store is there, or can be made, or one below it can. -/
theorem Fine.rung (hw : sc.Fine w) (i : ι) {p : Path} {lower : List Path}
    (hp : p :: lower <:+ FileProgram.ancestors sc.store.dir) :
    w.shared.system.DirectoryAt p ∨
    (∃ dir name, w.shared.system.Vacant p dir name ∧ (sc.pact ι).Step i w (w.turn i
      (w.shared.system.put dir name (.directory w.shared.system.now)) (w.notes i))) ∨
    ∃ q ∈ lower, ∃ dir name, w.shared.system.Vacant q dir name := by
  rcases hw.phase with hopening | hworking
  · rcases hopening.stage.rung sc.sound sc.raised hp with
      hthere | ⟨dir, name, hvacant, hstage⟩ | hlower
    · exact .inl hthere
    · exact .inr (.inl ⟨dir, name, hvacant, hopening.makeDirectory_step hw i hvacant hstage⟩)
    · exact .inr (.inr hlower)
  · have hthere := sc.raised.directoryAt sc.sound p (hp.subset List.mem_cons_self)
    exact .inl (hthere.mono sound_opened hw.sound hworking.ways hw.workingDir_opened)

/-- A rung cannot be asked for as long as one below it is vacant. -/
theorem beyond_rung {s : FileSystem} {p q : Path} {lower : List Path}
    (hp : p :: lower <:+ FileProgram.ancestors sc.store.dir) (hq : q ∈ lower) {dir : Location}
    {name : Name} (hvacant : s.Vacant q dir name) :
    s.makeDirectory p = .error .missing ∧ s.status p = .error .missing := by
  obtain ⟨habs, hhere⟩ := Store.absolute_eq_ok sc.sound sc.absolute
  have hladder := (FileProgram.ancestors_ladder habs hhere).of_suffix hp (by simp)
  have hcheck := FileProgram.checkPath_of_mem_ancestors habs (hp.subset List.mem_cons_self) sc.check
  obtain ⟨more, hmore, hsegments⟩ := hladder.segments_beyond hq
  exact hvacant.beyond (hladder.isAbsolute (List.mem_cons_of_mem _ hq))
    (hladder.isAbsolute List.mem_cons_self) hcheck hmore hsegments

/-- A caller asks for a rung to be made, and goes on after the answer. -/
theorem keeps_rung {p : Path} {lower : List Path}
    (hp : p :: lower <:+ FileProgram.ancestors sc.store.dir) (hfresh : Fresh i w)
    {k : Except SystemError Unit → FileProgram (Except SystemError Unit)}
    (hok : k (.ok ()) = pure (.ok ()))
    (hthere : k (.error .alreadyThere) = FileProgram.unlessThere p .alreadyThere)
    (hmissing : ∀ w', (sc.pact ι).Later i w w' →
      (∃ q ∈ lower, ∃ dir name, w'.shared.system.Vacant q dir name) →
      sc.KeepsFiles i (Made i (p :: lower)) (k (.error .missing)) w') :
    sc.KeepsFiles i (Made i (p :: lower)) (FileProgram.ask (.makeDirectory p) >>= k) w := by
  obtain ⟨habs, hhere⟩ := Store.absolute_eq_ok sc.sound sc.absolute
  have hladder := (FileProgram.ancestors_ladder habs hhere).of_suffix hp (by simp)
  have hcheck : ∀ q ∈ p :: lower, checkPath q = .ok () := fun q hq =>
    FileProgram.checkPath_of_mem_ancestors habs (hp.subset hq) sc.check
  refine change_file fun w' hlater => ?_
  have hfresh' := hfresh.later hlater
  dsimp only [FileSystem.answer]
  rcases hlater.fine.rung i hp with
    hhere | ⟨dir, name, hvacant, hstep⟩ | ⟨q, hq, dir, name, hvacant⟩
  · refine ⟨w', ?_, .refl hlater.fine, ?_⟩
    · rw [hhere.makeDirectory hlater.fine.sound]
      rfl
    · rw [hhere.makeDirectory hlater.fine.sound]
      dsimp only [attempt]
      rw [hthere]
      refine keeps_unlessThere hlater.fine hhere _ fun w'' hlater' =>
        ⟨rfl, ?_, hfresh'.later hlater'⟩
      have hhere' := directoryAt_later hlater.fine hlater' hhere
      exact hhere'.of_ladder hlater'.fine.sound hladder hcheck
  · refine ⟨_, ?_, hstep, ?_⟩
    · rw [hvacant.makeDirectory]
      rfl
    · rw [hvacant.makeDirectory]
      dsimp only [attempt]
      rw [hok]
      refine ⟨rfl, ?_, ⟨?_, hfresh'.removed, hfresh'.wrote⟩⟩
      · obtain ⟨-, hmade, -⟩ := hvacant.made hlater.fine.sound
        exact hmade.of_ladder hstep.fine.sound hladder hcheck
      · rw [Noted.notes_turn_self]
        exact hfresh'.idle
  · refine ⟨w', ?_, .refl hlater.fine, ?_⟩
    · rw [(beyond_rung hp hq hvacant).1]
      rfl
    · rw [(beyond_rung hp hq hvacant).1]
      exact hmissing w' hlater ⟨q, hq, dir, name, hvacant⟩

/-- Making directories succeeds, whoever makes them. -/
theorem keeps_makeAll (hw : sc.Fine w) (hfresh : Fresh i w) {paths : List Path}
    (hpaths : paths <:+ FileProgram.ancestors sc.store.dir) :
    sc.KeepsFiles i (Made i paths) (FileProgram.makeAll paths) w := by
  induction paths generalizing w with
  | nil => exact ⟨rfl, fun p hp => (by cases hp), hfresh⟩
  | cons p lower ih =>
      unfold FileProgram.makeAll
      refine keeps_rung hpaths hfresh rfl rfl fun w' hlater _ => ?_
      have hlower : lower <:+ FileProgram.ancestors sc.store.dir :=
        (List.suffix_cons p lower).trans hpaths
      refine (ih hlater.fine (hfresh.later hlater) hlower).bind hlater.fine ?_
      rintro result w'' hw'' ⟨rfl, hall, hfresh'⟩
      refine keeps_rung hpaths hfresh' rfl rfl fun w₃ hlater' hmissing => ?_
      obtain ⟨q, hq, dir, name, hvacant⟩ := hmissing
      -- all of the lower ones are there by now
      exact absurd hvacant ((directoryAt_later hw'' hlater' (hall q hq)).not_vacant
        hlater'.fine.sound)

/-! ## Opening the store -/

/-- What is known when the store is open. -/
def Opened (sc : Scene) (i : ι) (result : Except CompileError Store) (w : Noted ι) : Prop :=
  result = .ok sc.store ∧ w.shared.system.DirectoryAt sc.store.dir ∧ Fresh i w

theorem keeps_ensure (hfresh : Fresh i w) :
    sc.KeepsFiles i (fun result w => result = .ok () ∧
      w.shared.system.DirectoryAt sc.store.dir ∧ Fresh i w) (Store.ensure sc.store.dir) w := by
  obtain ⟨habs, hhere⟩ := Store.absolute_eq_ok sc.sound sc.absolute
  have hwhole := FileProgram.ancestors_eq habs
  have hpaths := List.suffix_rfl (l := FileProgram.ancestors sc.store.dir)
  unfold Store.ensure
  refine look_file (fun s => rfl) fun w' hlater => ?_
  have hfresh' := hfresh.later hlater
  have hcases : w'.shared.system.DirectoryAt sc.store.dir ∨
      w'.shared.system.status sc.store.dir = .error .missing := by
    have hp : sc.store.dir :: FileProgram.above (.root :: sc.store.dir.inner).reverse <:+
        FileProgram.ancestors sc.store.dir := hwhole.symm ▸ List.suffix_rfl
    rcases hlater.fine.rung i hp with hthere | ⟨dir, name, hvacant, -⟩ | ⟨q, hq, dir, name, hvacant⟩
    · exact .inl hthere
    · exact .inr (hvacant.status habs)
    · exact .inr (beyond_rung hp hq hvacant).2
  dsimp only [FileSystem.answer]
  rcases hcases with ⟨l, t, hfollow⟩ | hmissing
  · rw [status_of_follow hfollow]
    exact ⟨rfl, ⟨l, t, hfollow⟩, hfresh'⟩
  · rw [hmissing]
    refine (keeps_makeAll hlater.fine hfresh' hpaths).bind hlater.fine ?_
    rintro result w'' hw'' ⟨rfl, hall, hfresh''⟩
    exact ⟨rfl, hall _ (by rw [hwhole]; exact List.mem_cons_self), hfresh''⟩

/-- Every caller comes to the same store. -/
theorem keeps_openAt (hw : sc.Fine w) (hfresh : Fresh i w) :
    sc.KeepsFiles i (sc.Opened i) (Store.openAt sc.dest) w := by
  unfold Store.openAt
  refine ((sc.steady i).keeps_absolute hfresh sc.dest).bind hw ?_
  rintro result w' hw' ⟨rfl, hfresh'⟩
  rw [sc.absolute]
  refine (keeps_ensure hfresh').bind hw' ?_
  rintro result w'' hw'' ⟨rfl, hthere, hfresh''⟩
  exact ⟨rfl, hthere, hfresh''⟩

end Scene

end TemplateCache
