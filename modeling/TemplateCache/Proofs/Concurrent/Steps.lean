import Mathlib.Data.Fintype.Card
import Mathlib.Order.Interval.Finset.Nat
import TemplateCache.Proofs.Concurrent.Scene

/-!
# What the steps of callers do

Five requests of a caller change something: it makes a directory, makes a temporary file, renames
it, removes a sibling, and keeps a default directory. Each of them is a step that the pact of the
scene allows, with its note made on the caller. The rest of a call only looks, and what it sees is
what the caller of the scene saw, or what other callers did for it.
-/

namespace TemplateCache

open FileSystem

namespace Scene

variable {ι : Type} {sc : Scene} {w : Noted ι}

/-! ## What a caller can see -/

namespace Working

/-- What was there is still the same, if it is not one of those to be removed. -/
theorem same (h : sc.Working w) {l : Location} {n : Node} (hn : sc.opened.disk.get? l = some n)
    (hkeep : ∀ x, sc.Expired x → l ≠ x :: sc.dir) :
    Disk.SameAt sc.opened.disk w.shared.system.disk l := by
  cases h.fate l with
  | same hsame => exact hsame
  | written _ hnone _ => rw [hn] at hnone; cases hnone
  | removed hl hx _ _ => exact absurd hl (hkeep _ hx)
  | temporary hl hi =>
      have hnone := (h.temporary _ _ hi).2.1
      rw [← hl, hn] at hnone
      cases hnone

theorem ways (h : sc.Working w) : Disk.KeepsWays sc.opened.disk w.shared.system.disk := by
  refine Disk.keepsWays_of_sameAt fun l n hn hleads => h.same hn ?_
  rintro x ⟨-, -, data, t, mode, -, hfile, -⟩ rfl
  rw [hn] at hfile
  cases hfile
  cases hleads

/-- Of a sibling that is to be removed there is all or nothing. -/
theorem expired (h : sc.Working w) {x : Name} (hx : sc.Expired x) :
    w.shared.system.disk.get? (x :: sc.dir) = sc.opened.disk.get? (x :: sc.dir) ∨
      w.shared.system.disk.get? (x :: sc.dir) = none := by
  obtain ⟨data, t, mode, _, hfile, -⟩ := hx.old
  cases h.fate (x :: sc.dir) with
  | same hsame => exact .inl (by rw [hsame.eq_some hfile rfl, hfile])
  | written _ hnone _ => rw [hfile] at hnone; cases hnone
  | removed _ _ _ hnone => exact .inr hnone
  | temporary hl _ => exact absurd (List.cons.inj hl).1 (hx.ne_temporaryName _)

/-- Under the artifact's name stands a file, or nothing if nothing stood there. -/
theorem artifact (h : sc.Working w) :
    (w.shared.system.disk.get? sc.artifact = none ∧ sc.opened.disk.get? sc.artifact = none) ∨
    ∃ data t mode, w.shared.system.disk.get? sc.artifact = some (.file data t mode) ∧
      (sc.opened.disk.get? sc.artifact = none → data = sc.out ∧ mode = fileMode) := by
  cases h.fate sc.artifact with
  | same hsame =>
      rcases sc.artifact_opened with hnone | ⟨data, t, mode, hfile⟩
      · exact .inl ⟨hsame.none_iff.mp hnone, hnone⟩
      · refine .inr ⟨data, t, mode, hsame.eq_some hfile rfl, fun hnone => ?_⟩
        rw [hfile] at hnone
        cases hnone
  | written _ _ hfile => exact .inr ⟨_, _, _, hfile, fun _ => ⟨rfl, rfl⟩⟩
  | removed hl hx _ _ => exact absurd (List.cons.inj hl).1.symm hx.ne_entryName
  | temporary hl _ => exact absurd hl (artifact_ne_temporary _)

theorem origin (h : sc.Working w) : w.shared.system.disk.get? sc.origin = some sc.node :=
  (h.same get?_origin_opened fun _ hx => hx.ne_origin).eq_some get?_origin_opened
    isDirectory_node

/-- A temporary name is free again when its file has been renamed. -/
theorem used (h : sc.Working w) {k : Nat}
    (hused : w.shared.system.disk.get? (sc.temporary k) ≠ none) :
    sc.opened.disk.get? (sc.temporary k) ≠ none ∨ ∃ i, (w.notes i).number = some k := by
  cases h.fate (sc.temporary k) with
  | same hsame => exact .inl fun hnone => hused (hsame.none_iff.mp hnone)
  | written hl _ _ => exact absurd hl.symm (artifact_ne_temporary k)
  | removed hl hx _ _ => exact absurd (List.cons.inj hl).1.symm (hx.ne_temporaryName k)
  | @temporary j i hl hi =>
      cases temporary_injective hl
      exact .inr ⟨i, (h.temporary i k hi).1⟩

end Working

namespace Fine

theorem ways (h : sc.Fine w) : Disk.KeepsWays sc.start.disk w.shared.system.disk := by
  rcases h.phase with hopening | hworking
  · obtain ⟨lower, t, -, hraised, hsame⟩ := hopening.stage.reached
    exact (hraised.keepsWays sc.sound).trans (Disk.keepsWays_of_sameAt fun l _ _ _ => hsame l)
  · exact (sc.raised.keepsWays sc.sound).trans hworking.ways

theorem origin (h : sc.Fine w) : w.shared.system.disk.get? sc.origin = some sc.node := by
  rcases h.phase with hopening | hworking
  · obtain ⟨lower, t, -, hraised, hsame⟩ := hopening.stage.reached
    obtain ⟨n, hn, hlike⟩ := hraised.kept sc.sound get?_origin
    rw [← hlike.eq_of_not_directory isDirectory_node] at hn
    exact (hsame _).eq_some hn isDirectory_node
  · exact hworking.origin

theorem workingDir_opened (h : sc.Fine w) :
    w.shared.system.workingDir = sc.opened.workingDir :=
  h.workingDir.trans sc.raised.setting.1.workingDir.symm

/-- The callers are at work as soon as the directory is there. -/
theorem working (h : sc.Fine w) (hthere : w.shared.system.DirectoryAt sc.store.dir) :
    sc.Working w := by
  rcases h.phase with hopening | hworking
  · obtain ⟨habs, hhere⟩ := Store.absolute_eq_ok sc.sound sc.absolute
    have hsame := hopening.stage.done sc.sound sc.raised fun p hp =>
      hthere.of_mem h.sound habs hhere hp
    have hnothing : ∀ i, (w.notes i).temporary = none ∧ (w.notes i).removed = [] := fun i => by
      rw [hopening.idle i]
      exact ⟨rfl, rfl⟩
    refine ⟨fun l => .same (hsame l), fun i k hi => ?_, fun i j k hi => ?_, fun i x hx => ?_,
      fun i => ?_, fun i j x hx => ?_, .inr (hsame _)⟩
    · rw [(hnothing i).1] at hi
      cases hi
    · rw [(hnothing i).1] at hi
      cases hi
    · rw [(hnothing i).2] at hx
      cases hx
    · rw [(hnothing i).2]
      exact .nil
    · rw [(hnothing i).2] at hx
      cases hx
  · exact hworking

end Fine

theorem Working.reaches (h : sc.Working w) (hw : sc.Fine w) :
    w.shared.system.Reaches sc.store.dir sc.dir :=
  sc.reaches.mono h.ways hw.workingDir_opened

/-! ## What stays through a step -/

/-- What became of a location that a step leaves alone stays known. -/
theorem Fate.carry {w' : Noted ι} {l : Location} (h : sc.Fate w l)
    (hsame : Disk.SameAt w.shared.system.disk w'.shared.system.disk l)
    (hremoved : ∀ i x, x ∈ (w.notes i).removed → x ∈ (w'.notes i).removed)
    (htemporary : ∀ i k, l = sc.temporary k → (w.notes i).temporary = some k →
      (w'.notes i).temporary = some k) : sc.Fate w' l := by
  cases h with
  | same hbefore => exact .same (hbefore.trans hsame)
  | written hl hnone hfile => exact .written hl hnone (hsame.eq_some hfile rfl)
  | removed hl hx hmem hnone => exact .removed hl hx (hremoved _ _ hmem) (hsame.none_iff.mp hnone)
  | temporary hl hi => exact .temporary hl (htemporary _ _ hl hi)

/-- The files, the default directory and the notes decide what is fine. -/
theorem Fine.of_eq {w' : Noted ι} (h : sc.Fine w)
    (hdisk : w'.shared.system.disk = w.shared.system.disk)
    (hworking : w'.shared.system.workingDir = w.shared.system.workingDir)
    (hresources : w'.shared.system.resources = w.shared.system.resources)
    (hseed : w'.shared.system.seed = w.shared.system.seed)
    (hheld : w'.shared.held = sc.held ∨ w'.shared.held = some sc.dest)
    (hnotes : w'.notes = w.notes) : sc.Fine w' := by
  have hsame : ∀ l, Disk.SameAt w.shared.system.disk w'.shared.system.disk l :=
    fun l => .of_eq (by rw [hdisk])
  refine ⟨h.sound.of_same hsame hworking, hworking.trans h.workingDir,
    hresources.trans h.resources, hheld, by rw [hseed]; exact h.seed, ?_, ?_⟩
  · rw [hseed, hnotes]
    exact h.numbers
  · rcases h.phase with hopening | hworking'
    · obtain ⟨lower, t, hlower, hraised, hreached⟩ := hopening.stage.reached
      refine .inl ⟨⟨h.sound.of_same hsame hworking, hworking.trans h.workingDir, lower, t, hlower,
        hraised, fun l => (hreached l).trans (hsame l)⟩, ?_⟩
      rw [hnotes]
      exact hopening.idle
    · refine .inr ⟨fun l => (hworking'.fate l).carry (hsame l) ?_ ?_, ?_, ?_, ?_, ?_, ?_, ?_⟩
      · rw [hnotes]; exact fun _ _ h => h
      · rw [hnotes]; exact fun _ _ _ h => h
      · rw [hnotes, hdisk]; exact hworking'.temporary
      · rw [hnotes]; exact hworking'.apart
      · rw [hnotes, hdisk]; exact hworking'.gone
      · rw [hnotes]; exact hworking'.once
      · rw [hnotes]; exact hworking'.disjoint
      · rw [hnotes, hdisk]; exact hworking'.wrote

/-- Steps that only touch what is no way, keep the artifact, and bring back nothing. -/
theorem Seen.of_changed {w' : Noted ι} (changed : Location → Prop)
    (hsame : ∀ l, ¬changed l → Disk.SameAt w.shared.system.disk w'.shared.system.disk l)
    (hleaf : ∀ l n, changed l → w.shared.system.disk.get? l = some n → n.leadsOn = false)
    (hartifact : ∀ data t mode, changed sc.artifact →
      w.shared.system.disk.get? sc.artifact = some (.file data t mode) →
      ∃ t', w'.shared.system.disk.get? sc.artifact = some (.file data t' mode))
    (hgone : ∀ x, sc.Expired x → changed (x :: sc.dir) →
      w.shared.system.disk.get? (x :: sc.dir) = none →
      w'.shared.system.disk.get? (x :: sc.dir) = none) : sc.Seen w w' := by
  refine ⟨Disk.keepsWays_of_sameAt fun l n hn hleads => hsame l fun hl => ?_,
    fun data t mode hfile => ?_, fun x hx hnone => ?_⟩
  · rw [hleaf l n hl hn] at hleads
    cases hleads
  · by_cases hl : changed sc.artifact
    · exact hartifact data t mode hl hfile
    · exact ⟨t, (hsame _ hl).eq_some hfile rfl⟩
  · by_cases hl : changed (x :: sc.dir)
    · exact hgone x hx hl hnone
    · exact (hsame _ hl).none_iff.mp hnone

/-! ## Making a directory -/

/-- What is to be removed was there from the beginning. -/
theorem Opening.expired (h : sc.Opening w) {x : Name} (hx : sc.Expired x) :
    w.shared.system.disk.get? (x :: sc.dir) ≠ none := by
  obtain ⟨data, t, mode, _, hfile, -⟩ := hx.old
  obtain ⟨lower, t', -, hraised, hsame⟩ := h.stage.reached
  have hstart : sc.start.disk.get? (x :: sc.dir) = some (.file data t mode) := by
    rcases sc.raised.fate sc.sound (x :: sc.dir) with hsame | ⟨-, time, htime⟩
    · exact hsame.symm.eq_some hfile rfl
    · rw [hfile] at htime
      cases htime
  obtain ⟨n, hn, hlike⟩ := hraised.kept sc.sound hstart
  obtain ⟨n', hn', -⟩ := (hsame _).some hn
  rw [hn']
  simp

variable [DecidableEq ι]

/-- The callers stay at work through a turn of one of them if its new note is in order with the
files and with the notes on the others. -/
theorem Working.turn (h : sc.Working w) {i : ι} {s : FileSystem} {note : Note}
    (hfate : ∀ l, (Disk.SameAt w.shared.system.disk s.disk l ∧
      ∀ k, l = sc.temporary k → (w.notes i).temporary = some k → note.temporary = some k) ∨
      sc.Fate (w.turn i s note) l)
    (hremoved : (w.notes i).removed ⊆ note.removed)
    (hmine : ∀ k, note.temporary = some k → note.number = some k ∧
      sc.opened.disk.get? (sc.temporary k) = none ∧
      ∃ t, s.disk.get? (sc.temporary k) = some (.file sc.out t fileMode))
    (hothers : ∀ j k, j ≠ i → (w.notes j).temporary = some k → note.temporary ≠ some k ∧
      Disk.SameAt w.shared.system.disk s.disk (sc.temporary k))
    (hgone : ∀ x ∈ note.removed, sc.Expired x ∧ s.disk.get? (x :: sc.dir) = none ∧
      ∀ j, j ≠ i → x ∉ (w.notes j).removed)
    (honce : note.removed.Nodup)
    (hback : ∀ x, sc.Expired x → w.shared.system.disk.get? (x :: sc.dir) = none →
      s.disk.get? (x :: sc.dir) = none)
    (hwrote : note.wrote = true ∨ (((w.notes i).wrote = true → note.wrote = true) ∧
      Disk.SameAt w.shared.system.disk s.disk sc.artifact)) :
    sc.Working (w.turn i s note) := by
  refine ⟨fun l => ?_, ?_, fun j j' k => ?_, ?_, ?_, fun j j' x => ?_, ?_⟩
  · rcases hfate l with ⟨hsame, hkeep⟩ | hknown
    · refine (h.fate l).carry hsame ?_ ?_
      · exact Noted.forall_notes_turn (fun j new => ∀ x, x ∈ (w.notes j).removed → x ∈ new.removed)
          (fun _ hx => hremoved hx) fun _ _ _ hx => hx
      · exact Noted.forall_notes_turn (fun j new => ∀ k, l = sc.temporary k →
          (w.notes j).temporary = some k → new.temporary = some k) hkeep fun _ _ _ _ hj => hj
    · exact hknown
  · refine Noted.forall_notes_turn (fun _ new => ∀ k, new.temporary = some k →
      new.number = some k ∧ sc.opened.disk.get? (sc.temporary k) = none ∧
      ∃ t, s.disk.get? (sc.temporary k) = some (.file sc.out t fileMode)) hmine ?_
    intro j hji k hj
    obtain ⟨hnumber, hnone, t, ht⟩ := h.temporary j k hj
    exact ⟨hnumber, hnone, t, (hothers j k hji hj).2.eq_some ht rfl⟩
  · exact Noted.eq_of_turn (fun note => note.temporary = some k) (fun _ _ => h.apart _ _ k)
      fun j hji hj => (hothers j k hji hj).1
  · refine Noted.forall_notes_turn (fun _ new => ∀ x ∈ new.removed,
      sc.Expired x ∧ s.disk.get? (x :: sc.dir) = none)
      (fun x hx => ⟨(hgone x hx).1, (hgone x hx).2.1⟩) ?_
    intro j _ x hx
    obtain ⟨hexpired, hnone⟩ := h.gone j x hx
    exact ⟨hexpired, hback x hexpired hnone⟩
  · exact Noted.forall_notes_turn (fun _ new => new.removed.Nodup) honce fun j _ => h.once j
  · exact Noted.eq_of_turn (fun note => x ∈ note.removed) (fun _ _ => h.disjoint _ _ x)
      fun j hji hj hx => (hgone x hx).2.2 j hji hj
  · rcases hwrote with hnew | ⟨hold, hsame⟩
    · exact .inl ⟨i, by rwa [w.notes_turn_self]⟩
    · rcases h.wrote with ⟨j, hj⟩ | hkept
      · exact .inl ⟨j, Noted.forall_notes_turn
          (fun j new => (w.notes j).wrote = true → new.wrote = true) hold (fun _ _ hj => hj) j hj⟩
      · exact .inr (hkept.trans hsame)

/-- A caller makes a directory on the way to the store. -/
theorem Opening.makeDirectory_step (h : sc.Opening w) (hw : sc.Fine w) (i : ι) {p : Path}
    {dir : Location} {name : Name} (hvacant : w.shared.system.Vacant p dir name)
    (hstage : Store.Stage sc.start (FileProgram.ancestors sc.store.dir)
      (w.shared.system.put dir name (.directory w.shared.system.now))) :
    (sc.pact ι).Step i w (w.turn i
      (w.shared.system.put dir name (.directory w.shared.system.now)) (w.notes i)) := by
  obtain ⟨hsound, -, hdir, hnone⟩ := hvacant.made hw.sound
  have hnotes : (w.turn i (w.shared.system.put dir name (.directory w.shared.system.now))
      (w.notes i)).notes = w.notes := Function.update_eq_self i w.notes
  refine ⟨⟨hsound, hw.workingDir, hw.resources, hw.held, hw.seed, ?_, .inl ⟨hstage, ?_⟩⟩,
    ?_, fun j hj => ⟨congrFun hnotes j, rfl⟩⟩
  · rw [hnotes]
    exact hw.numbers
  · rw [hnotes]
    exact h.idle
  · refine .of_changed (· = name :: dir) (fun l hl => sameAt_put hdir hl) ?_ ?_ ?_
    · rintro l n rfl hn
      rw [hnone] at hn
      cases hn
    · intro data t mode hl hfile
      rw [hl, hnone] at hfile
      cases hfile
    · intro x hx hl hgone
      exact absurd hgone (h.expired hx)

/-! ## Making a temporary file -/

omit [DecidableEq ι] in
/-- Numbers in use are those that were in use at first, and one for each caller. -/
theorem length_le_of_numbers [Fintype ι] {used first last : Nat}
    (hused : ∀ numbers : List Nat, numbers.Nodup →
      (∀ k ∈ numbers, sc.opened.disk.get? (sc.temporary k) ≠ none) → numbers.length ≤ used)
    {notes : ι → Note} (h : ∀ k, first ≤ k → k < last →
      sc.opened.disk.get? (sc.temporary k) ≠ none ∨ ∃ i, (notes i).number = some k) :
    last ≤ first + used + Fintype.card ι := by
  classical
  let before := (Finset.Ico first last).filter fun k =>
    sc.opened.disk.get? (sc.temporary k) ≠ none
  let others := (Finset.Ico first last).filter fun k =>
    ¬sc.opened.disk.get? (sc.temporary k) ≠ none
  have hbefore : before.card ≤ used := by
    rw [← Finset.length_toList]
    refine hused _ before.nodup_toList fun k hk => ?_
    exact (Finset.mem_filter.mp (Finset.mem_toList.mp hk)).2
  have hothers : others.card ≤ Fintype.card ι := by
    have hsub : others ⊆ Finset.univ.image fun i => ((notes i).number).getD 0 := by
      intro k hk
      obtain ⟨hrange, hnot⟩ := Finset.mem_filter.mp hk
      obtain ⟨hle, hlt⟩ := Finset.mem_Ico.mp hrange
      obtain ⟨i, hi⟩ := (h k hle hlt).resolve_left hnot
      exact Finset.mem_image.mpr ⟨i, Finset.mem_univ i, by rw [hi]; rfl⟩
    exact (Finset.card_le_card hsub).trans Finset.card_image_le
  have hsum : before.card + others.card = (Finset.Ico first last).card :=
    Finset.card_filter_add_card_filter_not _
  rw [Nat.card_Ico] at hsum
  omega

/-- The callers stay at work when one of them has made its temporary file. -/
theorem Working.prepared (h : sc.Working w) {i : ι} (hi : w.notes i = .none) {k : Nat}
    (hfree : w.shared.system.disk.get? (sc.temporary k) = none) {s : FileSystem} {t : Moment}
    (hfile : s.disk.get? (sc.temporary k) = some (.file sc.out t fileMode))
    (hsame : ∀ l, l ≠ sc.temporary k → Disk.SameAt w.shared.system.disk s.disk l) :
    sc.Working (w.turn i s ⟨some k, some k, false, []⟩) := by
  have hopened : sc.opened.disk.get? (sc.temporary k) = none := by
    cases hn : sc.opened.disk.get? (sc.temporary k) with
    | none => rfl
    | some n =>
        have hkeep := h.same hn fun x hx hl => hx.ne_temporaryName k (List.cons.inj hl).1.symm
        rw [hkeep.none_iff.mpr hfree] at hn
        cases hn
  -- nobody else can have a file where there was none
  have hother : ∀ j, (w.notes j).temporary ≠ some k := by
    intro j hj
    obtain ⟨-, -, t', ht'⟩ := h.temporary j k hj
    rw [hfree] at ht'
    cases ht'
  refine h.turn (fun l => ?_) (by simp [hi, Note.none]) (fun m hm => ?_) (fun j m _ hj => ?_)
    (by simp) (by simp) (fun x hx hnone => ?_) (.inr ⟨by simp [hi, Note.none], ?_⟩)
  · by_cases hl : l = sc.temporary k
    · exact .inr (.temporary hl (i := i) (by rw [w.notes_turn_self]))
    · exact .inl ⟨hsame l hl, by simp [hi, Note.none]⟩
  · cases hm
    exact ⟨rfl, hopened, t, hfile⟩
  · have hne : m ≠ k := by
      rintro rfl
      exact hother j hj
    exact ⟨by simpa using hne.symm, hsame _ fun e => hne (temporary_injective e)⟩
  · exact (hsame _ fun e => hx.ne_temporaryName k (List.cons.inj e).1).none_iff.mp hnone
  · exact hsame _ (artifact_ne_temporary k)

/-- A caller makes its temporary file. -/
theorem Working.temporary_step [Fintype ι] (h : sc.Working w) (hw : sc.Fine w)
    (hroom : sc.Room (Fintype.card ι)) {i : ι} (hi : w.notes i = .none) :
    ∃ k s, Askable sc.store.dir (temporaryName k) ∧
      w.shared.system.temporary sc.store.dir sc.out =
        .ok (sc.store.dir.join ⟨temporaryName k⟩, s) ∧
      (sc.pact ι).Step i w (w.turn i s ⟨some k, some k, false, []⟩) := by
  have hreach := h.reaches hw
  -- a number that was passed was used at first, or by a caller before
  have hnumbers : ∀ k, (∀ j, w.shared.system.seed ≤ j → j < k →
      w.shared.system.disk.get? (sc.temporary j) ≠ none) → ∀ j, sc.start.seed ≤ j → j < k →
      sc.opened.disk.get? (sc.temporary j) ≠ none ∨ ∃ i, (w.notes i).number = some j := by
    intro k hpassed j hle hlt
    by_cases hj : j < w.shared.system.seed
    · exact hw.numbers j hle hj
    · exact h.used (hpassed j (by omega) hlt)
  obtain ⟨used, hused, hsmall⟩ := hroom
  obtain ⟨k, hle, hbound, hfree, hpassed, htemporary⟩ := temporary_of_reaches hreach sc.out
    (sc.start.seed + used + Fintype.card ι)
    (fun k hpassed _ => length_le_of_numbers hused (hnumbers k hpassed))
    (fun j hj => sc.ask.askable_temporaryName (by omega))
  change w.shared.system.disk.get? (sc.temporary k) = none at hfree
  refine ⟨k, _, sc.ask.askable_temporaryName (by omega), htemporary, ?_⟩
  have hdir := hreach.directory hw.sound
  have hnone : ∀ n, w.shared.system.disk.get? (sc.temporary k) ≠ some n := by
    intro n hn
    rw [hfree] at hn
    cases hn
  have hsame := fun l (hl : l ≠ sc.temporary k) =>
    sameAt_put (n := .file sc.out w.shared.system.now fileMode) hdir hl
  refine ⟨⟨?_, hw.workingDir, hw.resources, hw.held, ?_, fun j hle' hlt => ?_,
    .inr (h.prepared hi hfree get?_put_self hsame)⟩, ?_,
    fun j hj => ⟨w.notes_turn_of_ne hj .., rfl⟩⟩
  · exact hw.sound.of_sameAt hdir (isPlain_temporaryName k) (fun t => hnone _) hsame rfl
  · have hseed := hw.seed
    show sc.start.seed ≤ k + 1
    omega
  · have hlt : j < k + 1 := hlt
    by_cases hj : j = k
    · exact .inr ⟨i, by rw [w.notes_turn_self, hj]⟩
    · rcases hnumbers k hpassed j hle' (by omega) with hused | ⟨i', hi'⟩
      · exact .inl hused
      · refine .inr ⟨i', ?_⟩
        rwa [w.notes_turn_of_ne fun e => ?_]
        rw [e, hi] at hi'
        cases hi'
  · refine .of_changed (· = sc.temporary k) hsame ?_ ?_ ?_
    · rintro l n rfl hn
      exact absurd hn (hnone n)
    · intro data t mode hl
      exact absurd hl (artifact_ne_temporary k)
    · intro x hx hl
      exact absurd (List.cons.inj hl).1 (hx.ne_temporaryName k)

/-- A turn in which no number is used leaves those that are. -/
theorem Fine.numbers_turn (hw : sc.Fine w) {i : ι} {s : FileSystem} {note : Note}
    (hnumber : note.number = (w.notes i).number) {k : Nat} (hle : sc.start.seed ≤ k)
    (hlt : k < w.shared.system.seed) :
    sc.opened.disk.get? (sc.temporary k) ≠ none ∨
      ∃ j, ((w.turn i s note).notes j).number = some k := by
  rcases hw.numbers k hle hlt with hused | ⟨j, hj⟩
  · exact .inl hused
  · refine .inr ⟨j, ?_⟩
    by_cases hji : j = i
    · subst hji
      rwa [w.notes_turn_self, hnumber]
    · rwa [w.notes_turn_of_ne hji]

/-! ## Renaming it -/

/-- The callers stay at work when one of them has renamed its temporary file. -/
theorem Working.renamed (h : sc.Working w) {i : ι} {k : Nat}
    (hk : (w.notes i).temporary = some k) (hopened : sc.opened.disk.get? sc.artifact = none)
    {s : FileSystem} {t : Moment} (hfile : s.disk.get? sc.artifact = some (.file sc.out t fileMode))
    (hfree : s.disk.get? (sc.temporary k) = none)
    (hsame : ∀ l, l ≠ sc.temporary k → l ≠ sc.artifact →
      Disk.SameAt w.shared.system.disk s.disk l) :
    sc.Working (w.turn i s { w.notes i with temporary := none, wrote := true }) := by
  have hsibling : ∀ {x}, sc.Expired x →
      Disk.SameAt w.shared.system.disk s.disk (x :: sc.dir) := fun hx =>
    hsame _ (fun e => hx.ne_temporaryName k (List.cons.inj e).1)
      fun e => hx.ne_entryName (List.cons.inj e).1
  refine h.turn (fun l => ?_) (fun x hx => hx) (fun m hm => ?_) (fun j m hj hm => ?_)
    (fun x hx => ?_) (h.once i) (fun x hx hnone => (hsibling hx).none_iff.mp hnone) (.inl rfl)
  · by_cases hl : l = sc.artifact
    · subst hl
      exact .inr (.written rfl hopened hfile)
    · by_cases hl' : l = sc.temporary k
      -- the temporary name was free when the directory was opened and is free again
      · subst hl'
        refine .inr (.same (.of_eq ?_))
        rw [w.turn_system, hfree, (h.temporary i k hk).2.1]
      · refine .inl ⟨hsame l hl' hl, fun m hm him => ?_⟩
        rw [hk] at him
        cases him
        exact absurd hm hl'
  · cases hm
  · refine ⟨by simp, hsame _ (fun e => ?_) (artifact_ne_temporary m).symm⟩
    exact hj (h.apart j i k (temporary_injective e ▸ hm) hk)
  · obtain ⟨hexpired, hnone⟩ := h.gone i x hx
    exact ⟨hexpired, (hsibling hexpired).none_iff.mp hnone,
      fun j hj hmem => hj (h.disjoint j i x hmem hx)⟩

/-- A caller gives its temporary file the name of the artifact. -/
theorem Working.rename_step (h : sc.Working w) (hw : sc.Fine w) {i : ι} {k : Nat}
    (hk : (w.notes i).temporary = some k) (hask : Askable sc.store.dir (temporaryName k))
    (hopened : sc.opened.disk.get? sc.artifact = none) :
    ∃ s, w.shared.system.rename (sc.store.dir.join ⟨temporaryName k⟩) sc.path = .ok s ∧
      (∃ t, s.disk.get? sc.artifact = some (.file sc.out t fileMode)) ∧
      (sc.pact ι).Step i w
        (w.turn i s { w.notes i with temporary := none, wrote := true }) := by
  have hreach := h.reaches hw
  have hdir := hreach.directory hw.sound
  obtain ⟨hnumber, -, t, hfile⟩ := h.temporary i k hk
  have htarget : ∀ n, w.shared.system.disk.get? sc.artifact = some n →
      n = .file sc.out n.modified fileMode := by
    intro n hn
    rcases h.artifact with ⟨hnone, -⟩ | ⟨data, t', mode, hthere, hnew⟩
    · rw [hn] at hnone
      cases hnone
    · obtain ⟨rfl, rfl⟩ := hnew hopened
      rw [hn] at hthere
      cases hthere
      rfl
  have hnotDirectory : ∀ n, w.shared.system.disk.get? sc.artifact = some n →
      n.isDirectory = false := fun n hn => by rw [htarget n hn]; rfl
  refine ⟨_, rename_of_file hask askable_name hreach hfile hnotDirectory, ⟨t, get?_put_self⟩, ?_⟩
  have hdir' : ∃ t, (w.shared.system.drop sc.dir (temporaryName k)).disk.get? sc.dir =
      some (.directory t) :=
    (sameAt_drop hdir (Disk.ne_cons _ _)).directory hdir.choose_spec
  have hdropped : (w.shared.system.drop sc.dir (temporaryName k)).Sound :=
    hw.sound.of_sameAt hdir (isPlain_temporaryName k) (fun t' ht' => by cases hfile.symm.trans ht')
      (fun l hl => sameAt_drop hdir hl) rfl
  have hput := fun l (hl : l ≠ sc.artifact) =>
    sameAt_put (n := .file sc.out t fileMode) hdir' hl
  have hsame := fun l (hl : l ≠ sc.temporary k) (hl' : l ≠ sc.artifact) =>
    (sameAt_drop hdir hl).trans (hput l hl')
  have hfree := (hput _ (artifact_ne_temporary k).symm).none_iff.mp get?_drop_self
  refine ⟨⟨?_, hw.workingDir, hw.resources, hw.held, hw.seed,
    fun j hle hlt => hw.numbers_turn (by rfl) hle hlt,
    .inr (h.renamed hk hopened get?_put_self hfree hsame)⟩, ?_,
    fun j hj => ⟨w.notes_turn_of_ne hj .., rfl⟩⟩
  · refine hdropped.of_sameAt hdir' isProper_name.plain (fun t' ht' => ?_) hput rfl
    have hback := (sameAt_drop hdir (artifact_ne_temporary k)).symm.directory ht'
    obtain ⟨t'', ht''⟩ := hback
    have hfalse := hnotDirectory _ ht''
    cases hfalse
  · refine .of_changed (fun l => l = sc.temporary k ∨ l = sc.artifact)
      (fun l hl => hsame l (fun e => hl (.inl e)) fun e => hl (.inr e)) ?_ ?_ ?_
    · rintro l n (rfl | rfl) hn
      · rw [hfile] at hn
        cases hn
        rfl
      · rw [htarget n hn]
        rfl
    · intro data t' mode _ hthere
      cases htarget _ hthere
      exact ⟨t, get?_put_self⟩
    · rintro x hx (hl | hl) -
      · exact absurd (List.cons.inj hl).1 (hx.ne_temporaryName k)
      · exact absurd (List.cons.inj hl).1 hx.ne_entryName

/-! ## Removing what is expired -/

/-- The callers stay at work when one of them has removed a sibling. -/
theorem Working.dropped (h : sc.Working w) (i : ι) {x : Name} (hx : sc.Expired x)
    (hpresent : w.shared.system.disk.get? (x :: sc.dir) ≠ none) {s : FileSystem}
    (hnone : s.disk.get? (x :: sc.dir) = none)
    (hsame : ∀ l, l ≠ x :: sc.dir → Disk.SameAt w.shared.system.disk s.disk l) :
    sc.Working (w.turn i s { w.notes i with removed := x :: (w.notes i).removed }) := by
  have hfresh : ∀ j, x ∉ (w.notes j).removed := fun j hmem => hpresent (h.gone j x hmem).2
  have hback : ∀ y, w.shared.system.disk.get? (y :: sc.dir) = none →
      s.disk.get? (y :: sc.dir) = none := by
    intro y hy
    by_cases hyx : y = x
    · rw [hyx, hnone]
    · exact (hsame _ fun e => hyx (List.cons.inj e).1).none_iff.mp hy
  have htemporary : ∀ k, Disk.SameAt w.shared.system.disk s.disk (sc.temporary k) := fun k =>
    hsame _ fun e => hx.ne_temporaryName k (List.cons.inj e).1.symm
  refine h.turn (fun l => ?_) (List.subset_cons_self x _) (fun k hk => ?_) (fun j k hj hk => ?_)
    (fun y hy => ?_) (List.nodup_cons.mpr ⟨hfresh i, h.once i⟩) (fun y _ => hback y)
    (.inr ⟨fun hw => hw, hsame _ fun e => hx.ne_entryName (List.cons.inj e).1.symm⟩)
  · by_cases hl : l = x :: sc.dir
    · subst hl
      exact .inr (.removed rfl hx (i := i) (by simp) hnone)
    · exact .inl ⟨hsame l hl, fun k _ hk => hk⟩
  · obtain ⟨hnumber, hopened, t, ht⟩ := h.temporary i k hk
    exact ⟨hnumber, hopened, t, (htemporary k).eq_some ht rfl⟩
  · exact ⟨fun hik => hj (h.apart j i k hk hik), htemporary k⟩
  · rcases List.mem_cons.mp hy with rfl | hy
    · exact ⟨hx, hnone, fun j _ => hfresh j⟩
    · obtain ⟨hexpired, hgone⟩ := h.gone i y hy
      exact ⟨hexpired, hback y hgone, fun j hj hmem => hj (h.disjoint j i y hmem hy)⟩

/-- A caller removes an expired sibling that is still there. -/
theorem Working.remove_step (h : sc.Working w) (hw : sc.Fine w) (i : ι) {x : Name}
    (hx : sc.Expired x) {data : Bytes} {t : Moment} {mode : Nat}
    (hfile : w.shared.system.disk.get? (x :: sc.dir) = some (.file data t mode)) :
    w.shared.system.remove (sc.store.dir.join ⟨x⟩) = .ok (w.shared.system.drop sc.dir x) ∧
      (sc.pact ι).Step i w (w.turn i (w.shared.system.drop sc.dir x)
        { w.notes i with removed := x :: (w.notes i).removed }) := by
  have hreach := h.reaches hw
  have hdir := hreach.directory hw.sound
  refine ⟨remove_of_file hx.askable hreach hfile, ?_⟩
  have hsame : ∀ l, l ≠ x :: sc.dir →
      Disk.SameAt w.shared.system.disk (w.shared.system.drop sc.dir x).disk l :=
    fun l hl => sameAt_drop hdir hl
  have hpresent : w.shared.system.disk.get? (x :: sc.dir) ≠ none := by
    rw [hfile]
    simp
  refine ⟨⟨?_, hw.workingDir, hw.resources, hw.held, hw.seed,
    fun j hle hlt => hw.numbers_turn (by rfl) hle hlt,
    .inr (h.dropped i hx hpresent get?_drop_self hsame)⟩, ?_,
    fun j hj => ⟨w.notes_turn_of_ne hj .., rfl⟩⟩
  · exact hw.sound.of_sameAt hdir hx.askable.plain
      (fun t' ht' => by cases hfile.symm.trans ht') hsame rfl
  · refine .of_changed (· = x :: sc.dir) hsame ?_ ?_ ?_
    · rintro l n rfl hn
      rw [hfile] at hn
      cases hn
      rfl
    · intro data' t' mode' hl
      exact absurd (List.cons.inj hl).1.symm hx.ne_entryName
    · intro y _ hl _
      rw [hl]
      exact get?_drop_self

end Scene

end TemplateCache
