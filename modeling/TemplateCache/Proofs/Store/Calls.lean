import TemplateCache.Proofs.FileSystem.Entries
import TemplateCache.Proofs.Store.Writing

/-!
# Writing call by call

`Store.write` makes a temporary file with all its bytes and its permissions in one step. A system has
a call for each part: the file is made, empty and private; its bytes are written; they are brought to
the disk; the permissions are set; the file takes the artifact's name. Any of the calls may fail, the
second when some of the bytes are written already, and whoever has a temporary file then discards it.

`Store.writeUnder` goes through the calls, and `Faults` says which of them fail. Without faults it is
`Store.write` (`writeUnder_none`). Under all faults there are three outcomes: nothing was done, a
temporary file was made and discarded, or one took the artifact's name (`writeUnder_cases`).
-/

namespace TemplateCache

/-- Which calls of a write fail, and with which errors. -/
structure Faults where
  make : Option SystemError
  /-- Writing stops after so many bytes. -/
  fill : Option (Nat × SystemError)
  sync : Option SystemError
  protect : Option SystemError
  rename : Option SystemError

def Faults.none : Faults := ⟨.none, .none, .none, .none, .none⟩

namespace FileSystem

/-! ## Calls -/

/-- The permissions of a file that is not finished: nobody but its owner may use it. -/
def privateMode : Nat := 0o600

/-- A system with other bytes and permissions in a file. -/
def amend (s : FileSystem) (p : Path) (data : Bytes) (mode : Nat) : FileSystem :=
  match s.entry p with
  | .ok (.node (name :: dir) _) => s.put dir name (.file data s.now mode)
  | _ => s

/-- Removes a file if it can be removed. -/
def discard (s : FileSystem) (p : Path) : FileSystem := (s.attempt (s.remove p)).2

/-- Makes a temporary file. -/
def makeUnder (faults : Faults) (s : FileSystem) (dir : Path) :
    Except SystemError (Path × FileSystem) :=
  match faults.make with
  | some e => .error e
  | none => (s.temporary dir []).map fun made => (made.1, made.2.amend made.1 [] privateMode)

/-- Writes the bytes of a temporary file, brings them to the disk and opens the file to everyone. The
answer is the error that ended this, if one did. -/
def fillUnder (faults : Faults) (s : FileSystem) (p : Path) (data : Bytes) :
    Option SystemError × FileSystem :=
  match faults.fill with
  | some (written, e) => (some e, s.amend p (data.take written) privateMode)
  | none =>
      match faults.sync.or faults.protect with
      | some e => (some e, s.amend p data privateMode)
      | none => (none, (s.amend p data privateMode).amend p data fileMode)

def renameUnder (faults : Faults) (s : FileSystem) (source target : Path) :
    Except SystemError FileSystem :=
  match faults.rename with
  | some e => .error e
  | none => s.rename source target

end FileSystem

open FileSystem

/-- Writes an artifact call by call under some faults. -/
def Store.writeUnder (faults : Faults) (store : Store) (n : ArtifactName) (data : Bytes)
    (s : FileSystem) : Except CompileError Path × FileSystem :=
  match s.makeUnder faults store.dir with
  | .error e => (.error (.unwritable store.dir e), s)
  | .ok (temporary, s₁) =>
      match s₁.fillUnder faults temporary data with
      | (some e, s₂) => (.error (.unwritable temporary e), s₂.discard temporary)
      | (none, s₂) =>
          match s₂.renameUnder faults temporary (store.artifactPath n) with
          | .error e => (.error (.unwritable (store.artifactPath n) e), s₂.discard temporary)
          | .ok s₃ => (.ok (store.artifactPath n), s₃)

namespace FileSystem

/-! ## A temporary file on its way -/

/-- A system with a node under the temporary name of a number, the last that was tried. -/
def withTemporary (s : FileSystem) (l : Location) (k : Nat) (n : Node) : FileSystem :=
  { s.put l (temporaryName k) n with seed := k + 1 }

/-- A temporary file with a number can be made in a directory. -/
structure Room (s : FileSystem) (dir : Path) (l : Location) (k : Nat) : Prop where
  reaches : s.Reaches dir l
  free : s.disk.get? (temporaryName k :: l) = none
  askable : Askable dir (temporaryName k)

/-- Whether a temporary file is made, and where, does not depend on its bytes. -/
theorem temporary_cases (s : FileSystem) (dir : Path) (data data' : Bytes) :
    (∃ e, s.temporary dir data = .error e ∧ s.temporary dir data' = .error e) ∨
    ∃ l k, s.Room dir l k ∧
      s.temporary dir data = .ok (dir.join ⟨temporaryName k⟩,
        s.withTemporary l k (.file data s.now fileMode)) ∧
      s.temporary dir data' = .ok (dir.join ⟨temporaryName k⟩,
        s.withTemporary l k (.file data' s.now fileMode)) := by
  unfold temporary
  generalize s.disk.nodes.length + 1 = tries
  generalize s.seed = n
  induction tries generalizing n with
  | zero => exact .inl ⟨_, rfl, rfl⟩
  | succ tries ih =>
      unfold temporaryFrom
      dsimp only
      cases hentry : s.entry (dir.join ⟨temporaryName n⟩) with
      | error e => exact .inl ⟨_, rfl, rfl⟩
      | ok spot =>
          obtain ⟨hcheck, hlen, l, hreach, ⟨hnone, rfl⟩ | ⟨node, -, rfl⟩⟩ :=
            (entry_join_eq_ok_iff (isPlain_temporaryName n)).mp hentry
          · exact .inr ⟨l, n, ⟨hreach, hnone, isPlain_temporaryName n, hcheck, hlen⟩, rfl, rfl⟩
          -- the number is in use, so the next one is tried
          · exact ih (n + 1)

namespace Room

variable {s : FileSystem} {dir : Path} {l : Location} {k : Nat} {n : Node}

theorem get?_self : (s.withTemporary l k n).disk.get? (temporaryName k :: l) = some n :=
  get?_put_self

theorem get?_of_ne {l' : Location} (h : l' ≠ temporaryName k :: l) (hdir : l' ≠ l) :
    (s.withTemporary l k n).disk.get? l' = s.disk.get? l' :=
  get?_put_of_ne h hdir

theorem sameAt (hs : s.Sound) (h : s.Room dir l k) {l' : Location}
    (hl' : l' ≠ temporaryName k :: l) : Disk.SameAt s.disk (s.withTemporary l k n).disk l' :=
  sameAt_put (h.reaches.directory hs) hl'

/-- A new file is on no way. -/
theorem reaches_after (hs : s.Sound) (h : s.Room dir l k) :
    (s.withTemporary l k n).Reaches dir l := by
  refine h.reaches.mono (Disk.keepsWays_of_sameAt fun l' m hm _ => h.sameAt hs ?_) rfl
  rintro rfl
  rw [h.free] at hm
  cases hm

theorem entry (hs : s.Sound) (h : s.Room dir l k) :
    (s.withTemporary l k n).entry (dir.join ⟨temporaryName k⟩) =
      .ok (.node (temporaryName k :: l) n) :=
  entry_of_present h.askable (h.reaches_after hs) get?_self

/-- Between the calls there is always some file under the temporary name. -/
theorem amend (hs : s.Sound) (h : s.Room dir l k) (data : Bytes) (mode : Nat) :
    (s.withTemporary l k n).amend (dir.join ⟨temporaryName k⟩) data mode =
      s.withTemporary l k (.file data s.now mode) := by
  unfold FileSystem.amend
  rw [h.entry hs]
  exact congrArg (fun t : FileSystem => { t with seed := k + 1 }) (put_put n)

theorem discard (hs : s.Sound) (h : s.Room dir l k) {data : Bytes} {mode : Nat} :
    (s.withTemporary l k (.file data s.now mode)).discard (dir.join ⟨temporaryName k⟩) =
      (s.withTemporary l k (.file data s.now mode)).drop l (temporaryName k) := by
  unfold FileSystem.discard
  rw [remove_of_entry (h.entry hs)]
  rfl

/-- A discarded file leaves no trace but the time of its directory. -/
theorem get?_discarded (h : s.Room dir l k) (l' : Location) :
    ((s.withTemporary l k n).drop l (temporaryName k)).disk.get? l' =
      if l' = l then (s.disk.get? l).map (Node.withModified s.now) else s.disk.get? l' := by
  by_cases hdir : l' = l
  · subst hdir
    rw [get?_drop_dir, if_pos rfl]
    change ((s.put l' (temporaryName k) n).disk.get? l').map (Node.withModified s.now) = _
    rw [get?_put_dir]
    cases s.disk.get? l' with
    | none => rfl
    | some node => exact congrArg some (node.withModified_withModified _ _)
  · rw [if_neg hdir]
    by_cases hl' : l' = temporaryName k :: l
    · subst hl'
      rw [get?_drop_self, h.free]
    · rw [get?_drop_of_ne hl' hdir, get?_of_ne hl' hdir]

end Room

end FileSystem

namespace Store

variable {s : FileSystem} {store : Store} {n : ArtifactName}

/-! ## Outcomes -/

/-- What comes of the calls on a file that was made: it is amended, and the last time to what it is
meant to be. -/
theorem fillUnder_cases (hs : s.Sound) {l : Location} {k : Nat} (h : s.Room store.dir l k)
    (faults : Faults) (data : Bytes) (node : Node) :
    (∃ e data' mode, (s.withTemporary l k node).fillUnder faults
        (store.dir.join ⟨temporaryName k⟩) data =
        (some e, s.withTemporary l k (.file data' s.now mode))) ∨
      (s.withTemporary l k node).fillUnder faults (store.dir.join ⟨temporaryName k⟩) data =
        (none, s.withTemporary l k (.file data s.now fileMode)) := by
  unfold fillUnder
  rcases faults.fill with _ | ⟨written, e⟩
  · dsimp only
    rcases faults.sync.or faults.protect with _ | e
    · dsimp only
      rw [h.amend hs, h.amend hs]
      exact .inr rfl
    · dsimp only
      rw [h.amend hs]
      exact .inl ⟨e, _, _, rfl⟩
  · dsimp only
    rw [h.amend hs]
    exact .inl ⟨e, _, _, rfl⟩

/-- Nothing was done, a temporary file was made and discarded, or one took the artifact's name. -/
theorem writeUnder_cases (store : Store) (data : Bytes) (hs : s.Sound) (hn : n.IsProper)
    (faults : Faults) :
    (∃ e, store.writeUnder faults n data s = (.error e, s)) ∨
    (∃ e l k node, s.Room store.dir l k ∧ store.writeUnder faults n data s =
      (.error e, (s.withTemporary l k node).drop l (temporaryName k))) ∨
    ∃ l k, s.Room store.dir l k ∧ store.CanAsk n ∧
      (∀ t, s.disk.get? (n.entryName :: l) ≠ some (.directory t)) ∧
      store.writeUnder faults n data s = (.ok (store.artifactPath n),
        ((s.withTemporary l k (.file data s.now fileMode)).drop l (temporaryName k)).put l
          n.entryName (.file data s.now fileMode)) := by
  unfold writeUnder makeUnder
  cases faults.make with
  | some e => exact .inl ⟨_, rfl⟩
  | none =>
      dsimp only
      obtain ⟨e, he, -⟩ | ⟨l, k, hroom, hmade, -⟩ := s.temporary_cases store.dir [] []
      · rw [he]
        exact .inl ⟨_, rfl⟩
      · rw [hmade]
        dsimp only [Except.map]
        rw [hroom.amend hs]
        obtain ⟨e, data', mode, hfill⟩ | hfill :=
          fillUnder_cases hs hroom faults data (.file [] s.now privateMode)
        · rw [hfill]
          dsimp only
          rw [hroom.discard hs]
          exact .inr (.inl ⟨_, l, k, _, hroom, rfl⟩)
        · rw [hfill]
          dsimp only
          cases hrename : (s.withTemporary l k (.file data s.now fileMode)).renameUnder faults
              (store.dir.join ⟨temporaryName k⟩) (store.artifactPath n) with
          | error e =>
              dsimp only
              rw [hroom.discard hs]
              exact .inr (.inl ⟨_, l, k, _, hroom, rfl⟩)
          | ok s₃ =>
              right; right
              refine ⟨l, k, hroom, ?_⟩
              unfold renameUnder at hrename
              split at hrename
              · cases hrename
              · have hasked := canAsk_of_rename hn hrename
                obtain ⟨l', m, hreach, hm, -, hreplaced, rfl⟩ :=
                  rename_join_eq_ok (isPlain_temporaryName k) hn.plain hrename
                -- what is renamed is the file just made, in the directory where it was made
                cases hreach.unique (hroom.reaches_after hs)
                rw [Room.get?_self] at hm
                cases hm
                refine ⟨hasked, fun t ht => ?_, rfl⟩
                have hne : n.entryName :: l ≠ temporaryName k :: l :=
                  fun e => hn.notTemporary k (List.cons.inj e).1.symm
                obtain ⟨t', ht'⟩ := (hroom.sameAt hs hne).directory ht
                exact hreplaced t' ht'

/-- Where no call fails, the calls are what is written in one step. -/
theorem writeUnder_none (store : Store) (n : ArtifactName) (data : Bytes) (hs : s.Sound) :
    store.writeUnder .none n data s = s.runFiles (store.write n data) := by
  unfold writeUnder makeUnder write
  rw [runFiles_then, runFiles_ask]
  dsimp only [answer, Faults.none]
  obtain ⟨e, he, he'⟩ | ⟨l, k, hroom, hempty, hfull⟩ := s.temporary_cases store.dir [] data
  · rw [he, he']
    rfl
  · rw [hempty, hfull]
    dsimp only [Except.map, fillUnder, Option.or]
    rw [hroom.amend hs, hroom.amend hs, hroom.amend hs, runFiles_then, runFiles_ask]
    dsimp only [answer, renameUnder, FileSystem.attempt]
    cases hrename : (s.withTemporary l k (.file data s.now fileMode)).rename
        (store.dir.join ⟨temporaryName k⟩) (store.artifactPath n) with
    | ok s₃ => rfl
    | error e => rfl

end Store

end TemplateCache
