import Mathlib.Data.List.Nodup
import Mathlib.Data.List.Perm.Subperm
import Mathlib.Data.Nat.Find
import TemplateCache.Proofs.FileSystem.Change

/-!
# Entries that can be asked for

What a request on an entry of a directory is answered depends on two things: whether its path can
be asked for at all, and what stands under the name. Where the first is settled, this module says
what each request does for each of the answers to the second.

A temporary file can always be made, for some number is free: `exists_free`.
-/

namespace TemplateCache

namespace FileSystem

/-- A name that can be asked for in a directory by the directory's path. -/
structure Askable (dir : Path) (name : Name) : Prop where
  plain : Name.IsPlain name
  check : checkPath (dir.join ⟨name⟩) = .ok ()
  length : name.length ≤ nameLimit

section

variable {s : FileSystem} {dir : Path} {l : Location} {name : Name}

/-! ## Looking -/

theorem entry_of_present (ha : Askable dir name) (hr : s.Reaches dir l) {n : Node}
    (hn : s.disk.get? (name :: l) = some n) :
    s.entry (dir.join ⟨name⟩) = .ok (.node (name :: l) n) :=
  (entry_join_eq_ok_iff ha.plain).mpr ⟨ha.check, ha.length, l, hr, .inr ⟨n, hn, rfl⟩⟩

theorem entry_of_absent (ha : Askable dir name) (hr : s.Reaches dir l)
    (hnone : s.disk.get? (name :: l) = none) : s.entry (dir.join ⟨name⟩) = .ok (.vacant l name) :=
  (entry_join_eq_ok_iff ha.plain).mpr ⟨ha.check, ha.length, l, hr, .inl ⟨hnone, rfl⟩⟩

/-- Of a name that is too long nothing is said, whatever stands in the directory. -/
theorem entry_of_long (hplain : Name.IsPlain name) (hcheck : checkPath (dir.join ⟨name⟩) = .ok ())
    (hr : s.Reaches dir l) (hlong : nameLimit < name.length) :
    s.entry (dir.join ⟨name⟩) = .error .tooLong := by
  obtain ⟨j, hway⟩ := hr
  unfold FileSystem.entry locate
  rw [hcheck, start_join_name _ dir hplain]
  change s.disk.walk .entry linkLimit _ (dir.join ⟨name⟩).strictSegments = _
  rw [Path.strictSegments_join_name dir hplain, hway.walk_append (by simp) (by simp),
    Disk.walk_of_long hlong]

/-- A directory that is reached is followed to, if its path can be asked for. -/
theorem follow_of_reaches (hs : s.Sound) (hcheck : checkPath dir = .ok ()) (hr : s.Reaches dir l) :
    ∃ t, s.follow dir = .ok (.node l (.directory t)) := by
  obtain ⟨t, ht⟩ := hr.directory hs
  obtain ⟨j, hway⟩ := hr
  have hends := (leads_strictSegments_iff.mpr hway).ends (m := .follow) (by simp) (.inr (by simp))
    (.node ht)
  rw [List.append_nil] at hends
  exact ⟨t, follow_eq_ok_iff.mpr ⟨hcheck, hends⟩⟩

theorem names_of_reaches (hs : s.Sound) (hcheck : checkPath dir = .ok ()) (hr : s.Reaches dir l) :
    s.names dir = .ok (s.disk.names l) := by
  obtain ⟨t, hfollow⟩ := follow_of_reaches hs hcheck hr
  unfold FileSystem.names
  rw [hfollow]
  rfl

theorem entryStatus_of_reaches (hs : s.Sound) (hcheck : checkPath dir = .ok ())
    (hr : s.Reaches dir l) (name : Name) :
    s.entryStatus dir name = match s.disk.get? (name :: l) with
      | some n => .ok n.status
      | none => .error .missing := by
  obtain ⟨t, hfollow⟩ := follow_of_reaches hs hcheck hr
  unfold FileSystem.entryStatus
  rw [hfollow]
  change (match s.disk.get? (name :: l) with
    | some n => Except.ok n.status
    | none => Except.error SystemError.missing) = _
  cases s.disk.get? (name :: l) <;> rfl

/-- Where no link has a name, its path leads to a regular file just if that is its entry. -/
theorem status_isFile_iff (ha : Askable dir name) (hr : s.Reaches dir l)
    (hlink : ∀ target t, s.disk.get? (name :: l) ≠ some (.link target t)) :
    (∃ status, s.status (dir.join ⟨name⟩) = .ok status ∧ status.isFile = true) ↔
      ∃ data t mode, s.disk.get? (name :: l) = some (.file data t mode) := by
  constructor
  · rintro ⟨status, hstatus, hfile⟩
    unfold FileSystem.status at hstatus
    obtain ⟨spot, hfollow, hspot⟩ := bind_eq_ok hstatus
    obtain ⟨-, -, l', hr', ⟨target, t, hl⟩ | hentry⟩ := follow_join ha.plain hfollow
    · cases hr.unique hr'
      exact absurd hl (hlink target t)
    · obtain ⟨-, -, l'', hr'', ⟨-, rfl⟩ | ⟨n, hn, rfl⟩⟩ :=
        (entry_join_eq_ok_iff ha.plain).mp hentry
      · cases hspot
      · cases hr.unique hr''
        cases hspot
        cases n with
        | directory t => cases hfile
        | link target t => cases hfile
        | device t => cases hfile
        | file data t mode => exact ⟨data, t, mode, hn⟩
  · rintro ⟨data, t, mode, hfile⟩
    obtain ⟨j, hway⟩ := hr
    have hlast : s.disk.Ends .follow j (.inside l) [.name name]
        (.node (name :: l) (.file data t mode)) :=
      .leaf (Disk.unspellable_eq_false (by simp) ha.length) hfile rfl
    have hfollow : s.follow (dir.join ⟨name⟩) = .ok (.node (name :: l) (.file data t mode)) := by
      rw [follow_eq_ok_iff, Path.strictSegments_join_name dir ha.plain,
        start_join_name _ dir ha.plain, Disk.ends_append_name (by simp)]
      exact ⟨ha.check, j, _, hway, hlast⟩
    exact ⟨_, status_of_follow hfollow, rfl⟩

/-! ## Removing and renaming -/

theorem remove_of_absent (ha : Askable dir name) (hr : s.Reaches dir l)
    (hnone : s.disk.get? (name :: l) = none) : s.remove (dir.join ⟨name⟩) = .error .missing := by
  unfold FileSystem.remove
  rw [entry_of_absent ha hr hnone]
  rfl

theorem remove_of_file (ha : Askable dir name) (hr : s.Reaches dir l) {data : Bytes} {t : Moment}
    {mode : Nat} (hfile : s.disk.get? (name :: l) = some (.file data t mode)) :
    s.remove (dir.join ⟨name⟩) = .ok (s.drop l name) :=
  remove_of_entry (entry_of_present ha hr hfile)

/-- A file takes the place of another or of nothing. -/
theorem rename_of_file {target : Name} (ha : Askable dir name) (ha' : Askable dir target)
    (hr : s.Reaches dir l) {data : Bytes} {t : Moment} {mode : Nat}
    (hfile : s.disk.get? (name :: l) = some (.file data t mode))
    (htarget : ∀ n, s.disk.get? (target :: l) = some n → n.isDirectory = false) :
    s.rename (dir.join ⟨name⟩) (dir.join ⟨target⟩) =
      .ok ((s.drop l name).put l target (.file data t mode)) := by
  unfold FileSystem.rename
  rw [entry_of_present ha hr hfile]
  cases hn : s.disk.get? (target :: l) with
  | none =>
      rw [entry_of_absent ha' hr hn]
      rfl
  | some n =>
      rw [entry_of_present ha' hr hn]
      cases n with
      | directory t' => cases htarget _ hn
      | file data' t' mode' => rfl
      | link p t' => rfl
      | device t' => rfl

end

/-! ## Temporary files -/

theorem temporaryName_injective {m n : Nat} (h : temporaryName m = temporaryName n) : m = n := by
  unfold temporaryName at h
  exact Decimal.padded_injective (List.append_cancel_left (Utf8.encode_injective h))

theorem ascii_of_mem_temporaryName {k : Nat} {c : Char}
    (h : c ∈ ".tmp".toList ++ Decimal.padded 6 k) : c.toNat < 0x80 ∧ c.toNat ≠ 0 := by
  have hstart : ∀ c ∈ ".tmp".toList, c.toNat < 0x80 ∧ c.toNat ≠ 0 := by simp
  rcases List.mem_append.mp h with h | h
  · exact hstart c h
  · obtain ⟨hlow, hhigh⟩ := Decimal.isDigit_iff.mp (Decimal.allDigits_padded 6 k c h)
    omega

theorem zero_not_mem_temporaryName (k : Nat) : 0 ∉ temporaryName k :=
  Utf8.zero_not_mem_encode fun _ hc => (ascii_of_mem_temporaryName hc).2

/-- How many numbers there are that temporary files with names of at most so many bytes can have:
all but four of the bytes are digits. -/
def temporaryLimit (bytes : Nat) : Nat := 10 ^ (bytes - 4)

/-- The least width of a number is six digits. -/
theorem length_temporaryName_le_iff {bytes k : Nat} (h : 10 ≤ bytes) :
    (temporaryName k).length ≤ bytes ↔ k < temporaryLimit bytes := by
  have hlength : (temporaryName k).length = 4 + (Decimal.padded 6 k).length := by
    unfold temporaryName
    rw [Utf8.length_encode_of_ascii fun c hc => (ascii_of_mem_temporaryName hc).1,
      List.length_append]
    rfl
  unfold temporaryLimit
  rw [hlength, ← Decimal.length_digits_le_iff (n := k) (k := bytes - 4) (by omega)]
  simp only [Decimal.padded, List.length_append, List.length_replicate]
  omega

/-- Numbers that are in use are no more than there are nodes. -/
theorem length_le_of_used {d : Disk} {l : Location} {numbers : List Nat} (hnodup : numbers.Nodup)
    (hused : ∀ k ∈ numbers, d.get? (temporaryName k :: l) ≠ none) :
    numbers.length ≤ d.nodes.length := by
  have hinjective : Function.Injective fun k => temporaryName k :: l := by
    intro m n h
    exact temporaryName_injective (List.cons.inj h).1
  have hsub : numbers.map (fun k => temporaryName k :: l) ⊆ d.nodes.map Prod.fst := by
    intro place hplace
    obtain ⟨k, hk, rfl⟩ := List.mem_map.mp hplace
    obtain ⟨n, hn⟩ := Option.ne_none_iff_exists'.mp (hused k hk)
    exact List.mem_map.mpr ⟨_, (d.get?_eq_some_iff _ _).mp hn, rfl⟩
  have hlen := (List.subperm_of_subset (hnodup.map hinjective) hsub).length_le
  simpa using hlen

/-- A change under one name adds no more than one node. -/
theorem length_put_le (s : FileSystem) (dir : Location) (name : Name) (n : Node) :
    (s.put dir name n).disk.nodes.length ≤ s.disk.nodes.length + 1 := by
  have herase : ∀ (d : Disk) (l : Location), (d.erase l).nodes.length ≤ d.nodes.length :=
    fun d l => List.length_filter_le _ _
  have hset : ∀ (d : Disk) (l : Location) (n : Node),
      (d.set l n).nodes.length = (d.erase l).nodes.length + 1 := fun d l n => by simp [Disk.set]
  have htouch : ∀ (d : Disk) (l : Location) (t : Moment),
      (d.touch l t).nodes.length ≤ d.nodes.length := by
    intro d l t
    unfold Disk.touch
    split
    · rename_i n hn
      rw [hset]
      -- the node that gets the time was counted before
      exact List.length_filter_lt_length_iff_exists.mpr
        ⟨_, (d.get?_eq_some_iff _ _).mp hn, by simp⟩
    · exact le_rfl
  calc (s.put dir name n).disk.nodes.length
      ≤ (s.disk.set (name :: dir) n).nodes.length := htouch _ _ _
    _ = (s.disk.erase (name :: dir)).nodes.length + 1 := hset _ _ _
    _ ≤ s.disk.nodes.length + 1 := Nat.add_le_add_right (herase _ _) 1

/-- The first free number from a given one on, and how far it can be. -/
theorem exists_free (d : Disk) (l : Location) (first : Nat) :
    ∃ k, first ≤ k ∧ k ≤ first + d.nodes.length ∧ d.get? (temporaryName k :: l) = none ∧
      ∀ j, first ≤ j → j < k → d.get? (temporaryName j :: l) ≠ none := by
  have hsome : ∃ k, d.get? (temporaryName (first + k) :: l) = none := by
    by_contra hall
    have hused : ∀ k ∈ List.range' first (d.nodes.length + 1),
        d.get? (temporaryName k :: l) ≠ none := by
      intro k hk hnone
      have hle := (List.mem_range'_1.mp hk).1
      exact hall ⟨k - first, by rwa [Nat.add_sub_cancel' hle]⟩
    have hlen := length_le_of_used List.nodup_range' hused
    rw [List.length_range'] at hlen
    omega
  classical
  have hspec := Nat.find_spec hsome
  have hmin : ∀ j, first ≤ j → j < first + Nat.find hsome →
      d.get? (temporaryName j :: l) ≠ none := by
    intro j hle hlt hnone
    refine Nat.find_min hsome (m := j - first) (by omega) ?_
    rwa [Nat.add_sub_cancel' hle]
  refine ⟨first + Nat.find hsome, by omega, ?_, hspec, hmin⟩
  have hused : ∀ k ∈ List.range' first (Nat.find hsome), d.get? (temporaryName k :: l) ≠ none := by
    intro k hk
    obtain ⟨hle, hlt⟩ := List.mem_range'_1.mp hk
    exact hmin k hle hlt
  have hlen := length_le_of_used List.nodup_range' hused
  rw [List.length_range'] at hlen
  omega

/-- Numbers are tried until one is free. -/
theorem temporaryFrom_of_free {s : FileSystem} {dir : Path} {l : Location} (hr : s.Reaches dir l)
    {data : Bytes} {k : Nat} (hfree : s.disk.get? (temporaryName k :: l) = none) {n tries : Nat}
    (hask : ∀ j, n ≤ j → j ≤ k → Askable dir (temporaryName j))
    (hused : ∀ j, n ≤ j → j < k → s.disk.get? (temporaryName j :: l) ≠ none)
    (hle : n ≤ k) (htries : k < n + tries) :
    s.temporaryFrom dir data tries n =
      .ok (dir.join ⟨temporaryName k⟩,
        { s.put l (temporaryName k) (.file data s.now fileMode) with seed := k + 1 }) := by
  induction tries generalizing n with
  | zero => omega
  | succ tries ih =>
      unfold temporaryFrom
      dsimp only
      by_cases hn : n = k
      · subst hn
        rw [entry_of_absent (hask n (Nat.le_refl n) (Nat.le_refl n)) hr hfree]
      · obtain ⟨node, hnode⟩ :=
          Option.ne_none_iff_exists'.mp (hused n (Nat.le_refl n) (by omega))
        rw [entry_of_present (hask n (Nat.le_refl n) hle) hr hnode]
        exact ih (fun j hj => hask j (by omega)) (fun j hj => hused j (by omega)) (by omega)
          (by omega)

/-- A temporary file is made under the first free number. -/
theorem temporary_of_reaches {s : FileSystem} {dir : Path} {l : Location} (hr : s.Reaches dir l)
    (data : Bytes) (bound : Nat)
    (hbound : ∀ k, (∀ j, s.seed ≤ j → j < k → s.disk.get? (temporaryName j :: l) ≠ none) →
      s.seed ≤ k → k ≤ bound)
    (hask : ∀ j, j ≤ bound → Askable dir (temporaryName j)) :
    ∃ k, s.seed ≤ k ∧ k ≤ bound ∧ s.disk.get? (temporaryName k :: l) = none ∧
      (∀ j, s.seed ≤ j → j < k → s.disk.get? (temporaryName j :: l) ≠ none) ∧
      s.temporary dir data = .ok (dir.join ⟨temporaryName k⟩,
        { s.put l (temporaryName k) (.file data s.now fileMode) with seed := k + 1 }) := by
  obtain ⟨k, hle, htries, hfree, hused⟩ := exists_free s.disk l s.seed
  have hk := hbound k hused hle
  refine ⟨k, hle, hk, hfree, hused, ?_⟩
  exact temporaryFrom_of_free hr hfree (fun j _ hj => hask j (by omega)) hused hle (by omega)

end FileSystem

end TemplateCache
