import Mathlib.Data.List.TakeWhile
import TemplateCache.Proofs.Artifact.Siblings
import TemplateCache.Proofs.FileSystem.Passing
import TemplateCache.Proofs.Store.Pruning

/-!
# Pruning, entry by entry

Pruning goes through some names of a directory. It skips those whose entries are not old, removes the
others, and stops at the first that it cannot remove, for that is a directory or has too long a path.
No entry is a link on the way to the directory, so that what is removed does not cut the way to the
rest, and what is said of an entry when its turn comes was so at the beginning. Hence the outcome is
known beforehand: `pruneEntries_eq`.
-/

namespace TemplateCache

namespace FileSystem

/-! ## Removing many entries -/

/-- A system without some entries of a directory, which are removed one after another. -/
def dropAll (s : FileSystem) (l : Location) (names : List Name) : FileSystem :=
  names.foldl (fun t x => t.drop l x) s

section

variable {s : FileSystem} {l : Location} {names : List Name}

theorem dropAll_cons (x : Name) :
    s.dropAll l (x :: names) = (s.drop l x).dropAll l names := rfl

theorem dropAll_setting : SameSetting s (s.dropAll l names) := by
  induction names generalizing s with
  | nil => exact .refl s
  | cons x rest ih =>
      have hfirst : SameSetting s (s.drop l x) := ⟨rfl, rfl, rfl⟩
      exact hfirst.trans ih

theorem get?_dropAll_entry (x : Name) :
    (s.dropAll l names).disk.get? (x :: l) = if x ∈ names then none else s.disk.get? (x :: l) := by
  induction names generalizing s with
  | nil => simp [dropAll]
  | cons y rest ih =>
      rw [dropAll_cons, ih]
      by_cases hrest : x ∈ rest
      · simp [hrest]
      · by_cases hxy : x = y
        · subst hxy
          simp [hrest, get?_drop_self]
        · have hne : x :: l ≠ y :: l := fun e => hxy (List.cons.inj e).1
          simp [hrest, hxy, get?_drop_of_ne hne (Disk.ne_cons x l).symm]

theorem get?_dropAll_of_ne {l' : Location} (h : ∀ x, l' ≠ x :: l) (hdir : l' ≠ l) :
    (s.dropAll l names).disk.get? l' = s.disk.get? l' := by
  induction names generalizing s with
  | nil => rfl
  | cons y rest ih => rw [dropAll_cons, ih, get?_drop_of_ne (h y) hdir]

theorem get?_dropAll_dir (s : FileSystem) (l : Location) (names : List Name) :
    (s.dropAll l names).disk.get? l = s.disk.get? l ∨
      (s.dropAll l names).disk.get? l = (s.disk.get? l).map (Node.withModified s.now) := by
  induction names generalizing s with
  | nil => exact .inl rfl
  | cons y rest ih =>
      right
      rw [dropAll_cons]
      rcases ih (s.drop l y) with hsame | hnew
      · rw [hsame, get?_drop_dir]
      · rw [hnew, get?_drop_dir]
        cases s.disk.get? l with
        | none => rfl
        | some node => exact congrArg some (node.withModified_withModified _ _)

/-- Where no entry of the directory is, nothing was touched. -/
theorem untouched_dropAll (hs : s.Sound) {p : Path} (hr : s.Reaches p l) {l' : Location}
    (h : ∀ x, l' ≠ x :: l) : Untouched p s (s.dropAll l names) l' := by
  by_cases hdir : l' = l
  · subst hdir
    rcases get?_dropAll_dir s l' names with hsame | hnew
    · exact .inl hsame
    · exact untouched_of_directory hs hr hnew
  · exact .inl (get?_dropAll_of_ne h hdir)

end

/-! ## Entries that cannot be removed -/

/-- Why the entry under a name cannot be removed by its path. -/
def refusal (s : FileSystem) (dir : Path) (l : Location) (x : Name) : Option SystemError :=
  if checkPath (dir.join ⟨x⟩) = .ok () ∧ x.length ≤ nameLimit then
    if (s.disk.get? (x :: l)).any Node.isDirectory then some .isDirectory else none
  else some .tooLong

theorem refusal_of_askable {s : FileSystem} {dir : Path} {l : Location} {x : Name}
    (ha : Askable dir x) : s.refusal dir l x =
      if (s.disk.get? (x :: l)).any Node.isDirectory then some .isDirectory else none :=
  if_pos ⟨ha.check, ha.length⟩

theorem refusal_ne_missing {s : FileSystem} {dir : Path} {l : Location} {x : Name}
    {e : SystemError} (h : s.refusal dir l x = some e) : e ≠ .missing := by
  unfold refusal at h
  split at h
  · split at h
    · cases h
      decide
    · cases h
  · cases h
    decide

/-- An entry is removed, or there is a reason why not. -/
theorem remove_eq {s : FileSystem} {dir : Path} {l : Location} {x : Name} {n : Node}
    (hcheck : checkPath dir = .ok ()) (hr : s.Reaches dir l) (hplain : Name.IsPlain x)
    (hzero : 0 ∉ x) (hn : s.disk.get? (x :: l) = some n) :
    s.remove (dir.join ⟨x⟩) = match s.refusal dir l x with
      | some e => .error e
      | none => .ok (s.drop l x) := by
  have hjoin := checkPath_join_eq hplain (checkPath_eq_ok_iff.mp hcheck).1 hzero
  unfold refusal
  by_cases hlen : (dir.join ⟨x⟩).bytes.length < pathLimit
  · rw [if_pos hlen] at hjoin
    by_cases hname : x.length ≤ nameLimit
    · rw [if_pos ⟨hjoin, hname⟩, hn]
      unfold FileSystem.remove
      rw [entry_of_present ⟨hplain, hjoin, hname⟩ hr hn]
      cases n <;> rfl
    · rw [if_neg fun h => hname h.2]
      unfold FileSystem.remove
      rw [entry_of_long hplain hjoin hr (Nat.lt_of_not_le hname)]
      rfl
  · rw [if_neg hlen] at hjoin
    have hnot : ¬(checkPath (dir.join ⟨x⟩) = .ok () ∧ x.length ≤ nameLimit) := by
      rw [hjoin]
      exact fun h => by cases h.1
    rw [if_neg hnot]
    unfold FileSystem.remove FileSystem.entry locate
    rw [hjoin]
    rfl

end FileSystem

open FileSystem

namespace Store

/-! ## Names to go through -/

/-- Whether what stands under a name is older than a time. -/
def isOld (s : FileSystem) (l : Location) (time : Moment) (x : Name) : Bool :=
  (s.disk.get? (x :: l)).any fun n => n.modified.before time

/-- What is old is there. -/
theorem mem_names_of_isOld {s : FileSystem} {l : Location} {time : Moment} {x : Name}
    (h : isOld s l time x = true) : x ∈ s.disk.names l := by
  obtain ⟨n, hn, -⟩ := (Option.any_eq_true ..).mp h
  exact (s.disk.mem_names_iff l x).mpr ⟨n, hn⟩

/-- What makes pruning stop at a name: an old entry that cannot be removed. -/
def obstacle (store : Store) (s : FileSystem) (l : Location) (time : Moment) (x : Name) :
    Option CompileError :=
  if isOld s l time x then (s.refusal store.dir l x).map (.unwritable (store.dir.join ⟨x⟩))
  else none

/-- Where a name can be asked for, only an old directory is an obstacle. -/
theorem obstacle_eq_none_iff {store : Store} {s : FileSystem} {l : Location} {time : Moment}
    {x : Name} (ha : Askable store.dir x) :
    store.obstacle s l time x = none ↔
      (isOld s l time x = true → ∀ t, s.disk.get? (x :: l) ≠ some (.directory t)) := by
  unfold obstacle
  rw [refusal_of_askable ha]
  cases hn : s.disk.get? (x :: l) with
  | none => simp
  | some n => cases n <;> simp [Node.isDirectory]

/-- Different names of a store's directory, under none of which there is a link on the way there. -/
structure Listed (store : Store) (l : Location) (names : List Name) (s : FileSystem) : Prop where
  sound : s.Sound
  check : checkPath store.dir = .ok ()
  reaches : s.Reaches store.dir l
  nodup : names.Nodup
  plain : ∀ x ∈ names, Name.IsPlain x ∧ 0 ∉ x
  uncrossed : ∀ x ∈ names, ¬s.Crosses store.dir (x :: l)

variable {store : Store} {l : Location} {s : FileSystem} {x : Name} {names : List Name}

theorem Listed.tail (h : store.Listed l (x :: names) s) : store.Listed l names s :=
  ⟨h.sound, h.check, h.reaches, (List.nodup_cons.mp h.nodup).2,
    fun y hy => h.plain y (List.mem_cons_of_mem _ hy),
    fun y hy => h.uncrossed y (List.mem_cons_of_mem _ hy)⟩

/-- The others can be gone through without the first, if that was no directory. -/
theorem Listed.drop (h : store.Listed l (x :: names) s)
    (hnot : ∀ t, s.disk.get? (x :: l) ≠ some (.directory t)) :
    store.Listed l names (s.drop l x) ∧
      ∀ y ∈ names, (s.drop l x).disk.get? (y :: l) = s.disk.get? (y :: l) := by
  have hdir := h.reaches.directory h.sound
  have hother : ∀ l', l' ≠ x :: l → Disk.SameAt s.disk (s.drop l x).disk l' :=
    fun l' hl' => sameAt_drop hdir hl'
  have hback : Disk.KeepsWays (s.drop l x).disk s.disk := by
    refine Disk.keepsWays_of_sameAt fun l' n hn _ => (hother l' ?_).symm
    rintro rfl
    rw [get?_drop_self] at hn
    cases hn
  have hreaches : (s.drop l x).Reaches store.dir l := by
    refine h.reaches.of_uncrossed rfl fun l' => ?_
    by_cases hl' : l' = x :: l
    · subst hl'
      exact .inr ⟨hnot, h.uncrossed x List.mem_cons_self⟩
    · exact .inl (hother l' hl')
  refine ⟨⟨?_, h.check, hreaches, h.tail.nodup, h.tail.plain, fun y hy hcrosses => ?_⟩,
    fun y hy => ?_⟩
  · exact h.sound.of_sameAt hdir (h.plain x List.mem_cons_self).1 hnot hother rfl
  · exact h.tail.uncrossed y hy (hcrosses.mono_back hback rfl)
  · have hne : y :: l ≠ x :: l := fun e =>
      (List.nodup_cons.mp h.nodup).1 ((List.cons.inj e).1 ▸ hy)
    exact get?_drop_of_ne hne (Disk.ne_cons y l).symm

/-! ## Going through them -/

theorem pruneEntry_eq (h : store.Listed l (x :: names) s) (time : Moment) :
    s.runFiles (store.pruneEntry time x) = match store.obstacle s l time x with
      | some e => (.error e, s)
      | none => if isOld s l time x then (.ok .removed, s.drop l x) else (.ok .kept, s) := by
  unfold pruneEntry obstacle
  rw [runFiles_then, runFiles_ask]
  dsimp only [answer]
  rw [entryStatus_of_reaches h.sound h.check h.reaches]
  cases hn : s.disk.get? (x :: l) with
  | none =>
      have hold : isOld s l time x = false := by
        unfold isOld
        rw [hn]
        rfl
      rw [hold]
      rfl
  | some n =>
      have hold : isOld s l time x = n.modified.before time := by
        unfold isOld
        rw [hn]
        rfl
      rw [hold]
      dsimp only [Node.status]
      cases n.modified.before time with
      | false => rfl
      | true =>
          obtain ⟨hplain, hzero⟩ := h.plain x List.mem_cons_self
          rw [if_neg (by simp), runFiles_then, runFiles_ask]
          dsimp only [answer]
          rw [remove_eq h.check h.reaches hplain hzero hn]
          cases hrefusal : s.refusal store.dir l x with
          | none => rfl
          | some e =>
              dsimp only [FileSystem.attempt]
              rw [if_neg (refusal_ne_missing hrefusal)]
              rfl

/-- What is old and no obstacle is no directory. -/
theorem not_directory_of_obstacle {time : Moment} (hold : isOld s l time x = true)
    (hnone : store.obstacle s l time x = none) (t : Moment) :
    s.disk.get? (x :: l) ≠ some (.directory t) := by
  intro ht
  unfold obstacle refusal at hnone
  rw [if_pos hold, ht] at hnone
  split at hnone <;> cases hnone

/-- Up to the first obstacle, old entries are removed; if there is none, their number is the
answer. -/
theorem pruneEntries_eq (h : store.Listed l names s) (time : Moment) :
    s.runFiles (store.pruneEntries time names) =
      (match names.findSome? (store.obstacle s l time) with
        | some e => .error e
        | none => .ok (names.countP (isOld s l time)),
        s.dropAll l ((names.takeWhile fun x => (store.obstacle s l time x).isNone).filter
          (isOld s l time))) := by
  -- what is said of the names is fixed at the beginning, while entries go
  suffices hfixed : ∀ (old : Name → Bool) (stop : Name → Option CompileError),
      (∀ x ∈ names, isOld s l time x = old x ∧ store.obstacle s l time x = stop x) →
      s.runFiles (store.pruneEntries time names) =
        (match names.findSome? stop with
          | some e => .error e
          | none => .ok (names.countP old),
          s.dropAll l ((names.takeWhile fun x => (stop x).isNone).filter old)) from
    hfixed _ _ fun x _ => ⟨rfl, rfl⟩
  intro old stop hagree
  induction names generalizing s with
  | nil => rfl
  | cons x rest ih =>
      obtain ⟨hold, hstop⟩ := hagree x List.mem_cons_self
      have hrest : ∀ y ∈ rest, isOld s l time y = old y ∧ store.obstacle s l time y = stop y :=
        fun y hy => hagree y (List.mem_cons_of_mem _ hy)
      unfold pruneEntries
      rw [runFiles_then, pruneEntry_eq h, hold, hstop]
      cases hx : stop x with
      | some e => simp [hx, dropAll]
      | none =>
          cases hxold : old x with
          | false =>
              simp only [Bool.false_eq_true, if_false]
              rw [runFiles_then, ih h.tail hrest]
              simp only [List.findSome?_cons, List.countP_cons, List.takeWhile_cons, hx, hxold,
                List.filter_cons, Option.isNone_none, Bool.false_eq_true, if_false, if_true]
              cases rest.findSome? stop <;> rfl
          | true =>
              have hnot := not_directory_of_obstacle (hold.trans hxold) (hstop.trans hx)
              obtain ⟨hlisted, hsame⟩ := h.drop hnot
              have hagree' : ∀ y ∈ rest, isOld (s.drop l x) l time y = old y ∧
                  store.obstacle (s.drop l x) l time y = stop y := by
                intro y hy
                rw [← (hrest y hy).1, ← (hrest y hy).2]
                unfold obstacle isOld refusal
                rw [hsame y hy]
                exact ⟨rfl, rfl⟩
              simp only [if_true]
              rw [runFiles_then, ih hlisted hagree']
              simp only [List.findSome?_cons, List.countP_cons, List.takeWhile_cons, hx, hxold,
                List.filter_cons, Option.isNone_none, if_true, dropAll_cons]
              cases rest.findSome? stop <;> rfl

/-- Where there is no obstacle all old entries are removed. -/
theorem pruneEntries_of_free (h : store.Listed l names s) (time : Moment)
    (hfree : ∀ x ∈ names, store.obstacle s l time x = none) :
    s.runFiles (store.pruneEntries time names) =
      (.ok (names.countP (isOld s l time)), s.dropAll l (names.filter (isOld s l time))) := by
  rw [pruneEntries_eq h, List.findSome?_eq_none_iff.mpr hfree,
    List.takeWhile_eq_self_iff.mpr fun x hx => by rw [hfree x hx]; rfl]

/-- Where a store's directory is there, pruning goes through its names. -/
theorem prune_eq (hs : s.Sound) (hcheck : checkPath store.dir = .ok ())
    (hr : s.Reaches store.dir l) (keep : ArtifactName) (time : Moment) :
    s.runFiles (store.prune keep time) =
      s.runFiles (store.pruneEntries time ((s.disk.names l).filter (isOther keep))) := by
  unfold prune
  rw [runFiles_then, runFiles_ask]
  dsimp only [answer]
  rw [names_of_reaches hs hcheck hr]

end Store

end TemplateCache
