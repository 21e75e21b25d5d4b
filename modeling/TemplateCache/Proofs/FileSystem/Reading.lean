import TemplateCache.Proofs.Store.Looking

/-!
# Reading while others write

What is read through a path depends on the directories and links on the way and on the node at the
end. As long as these stay, the contents, the canonical path and the status are the same. For the
canonical path itself even less is needed: the way to it is made of directories only, and these are
there as long as the node is.
-/

namespace TemplateCache

namespace Disk

/-- Down a list of names to a node that is no directory or link, only the lengths of the names can
be in the way. -/
theorem IsTree.ends_down_iff {d : Disk} (h : d.IsTree) {k : Nat} {names : List Name}
    {dir : Location} {n : Node} (hn : d.get? (names.reverse ++ dir) = some n)
    (hleaf : n.leadsOn = false) (hne : names ≠ []) :
    d.Ends .follow k (.inside dir) (names.map .name) (.node (names.reverse ++ dir) n) ↔
      ∀ name ∈ names, name.length ≤ nameLimit := by
  induction names generalizing dir with
  | nil => exact absurd rfl hne
  | cons name rest ih =>
      have hwhole : (name :: rest).reverse ++ dir = rest.reverse ++ name :: dir := by simp
      rw [hwhole] at hn ⊢
      cases rest with
      | nil =>
          rw [List.reverse_nil, List.nil_append] at hn ⊢
          simp only [List.map_cons, List.map_nil, List.mem_singleton, forall_eq]
          constructor
          · intro hends
            cases hends with
            | into hlen _ _ => exact length_le_of_unspellable hlen
            | through hlen _ _ _ => exact length_le_of_unspellable hlen
            | leaf hlen _ _ => exact length_le_of_unspellable hlen
            | link _ _ hm => exact absurd hm (by simp)
          · intro hlen
            exact .leaf (unspellable_eq_false (by simp) hlen) hn hleaf
      | cons second more =>
          -- more names follow, so what stands here is a directory
          obtain ⟨t, ht⟩ := h.ancestor hn (by simp)
          have hrest := ih hn (by simp)
          constructor
          · intro hends
            cases hends with
            | into hlen _ hgo =>
                intro other hother
                rcases List.mem_cons.mp hother with rfl | hother
                · exact length_le_of_unspellable hlen
                · exact hrest.mp hgo other hother
            | through _ hlink _ _ => rw [hlink] at ht; cases ht
          · intro hall
            refine .into (unspellable_eq_false (by simp) (hall name List.mem_cons_self)) ht ?_
            exact hrest.mpr fun other hother => hall other (List.mem_cons_of_mem _ hother)

/-- A walk that follows all links does not end at one. -/
theorem Ends.ne_link {d : Disk} (h : d.IsTree) {k : Nat} {place : Place} {segments : List Segment}
    {l : Location} {n : Node} (hends : d.Ends .follow k place segments (.node l n))
    (hp : place.Stands d) (target : Path) (t : Moment) : n ≠ .link target t := by
  generalize hspot : Spot.node l n = spot at hends
  induction hends with
  | node hn =>
      cases hspot
      obtain ⟨t', ht'⟩ := hp
      rintro rfl
      rw [ht'] at hn
      cases hn
  | removed => cases hspot
  | here _ ih => exact ih hp hspot
  | up _ ih => exact ih (hp.above h) hspot
  | vacant _ _ => cases hspot
  | into _ hdir _ ih => exact ih ⟨_, hdir⟩ hspot
  | through _ _ _ _ ih => exact ih (hp.start h _) hspot
  | link _ _ hentry => cases hentry
  | leaf _ _ hleaf =>
      cases hspot
      rintro rfl
      cases hleaf

end Disk

namespace FileSystem

variable {s s' : FileSystem} {p : Path} {l : Location} {n n' : Node}

/-- What a path leads to is no link. -/
theorem ne_link_of_follow (hs : s.Sound) (h : s.follow p = .ok (.node l n)) (target : Path)
    (t : Moment) : n ≠ .link target t :=
  (follow_eq_ok_iff.mp h).2.ne_link hs.tree (hs.working.start hs.tree p) target t

/-- What a path leads to is a directory, or it leads no further. -/
theorem leadsOn_of_follow (hs : s.Sound) (h : s.follow p = .ok (.node l n))
    (hdir : n.isDirectory = false) : n.leadsOn = false := by
  have hlink := ne_link_of_follow hs h
  cases n with
  | directory t => cases hdir
  | link target t => exact absurd rfl (hlink target t)
  | file data t mode => rfl
  | device t => rfl

theorem follow_mono (hk : Disk.KeepsWays s.disk s'.disk) (hworking : s'.workingDir = s.workingDir)
    (h : s.follow p = .ok (.node l n)) (hn' : s'.disk.get? l = some n') (hlike : n.Like n') :
    s'.follow p = .ok (.node l n') := by
  obtain ⟨hcheck, hends⟩ := follow_eq_ok_iff.mp h
  rw [follow_eq_ok_iff, hworking]
  exact ⟨hcheck, hends.mono hk hn' hlike⟩

/-- A file that stays is read the same. -/
theorem contents_mono (hk : Disk.KeepsWays s.disk s'.disk)
    (hworking : s'.workingDir = s.workingDir) (hfollow : s.follow p = .ok (.node l n))
    (hn' : s'.disk.get? l = some n) : s'.contents p = s.contents p := by
  unfold contents
  rw [hfollow, follow_mono hk hworking hfollow hn' (.refl n)]

/-- So is its canonical path. -/
theorem canonical_mono (hk : Disk.KeepsWays s.disk s'.disk)
    (hworking : s'.workingDir = s.workingDir) {c : Path} (h : s.canonical p = .ok c)
    (hfollow : s.follow p = .ok (.node l n)) (hn' : s'.disk.get? l = some n) :
    s'.canonical p = .ok c := by
  have hdir : s'.workingDirectory = s.workingDirectory := by
    unfold FileSystem.workingDirectory
    rw [hworking]
  unfold canonical at h ⊢
  obtain ⟨u, hcheck, hrest⟩ := bind_eq_ok h
  obtain ⟨spot, hloc, hc⟩ := bind_eq_ok (of_ite_bind_eq_ok hrest)
  obtain ⟨-, hends⟩ := locate_eq_ok_iff.mp hloc
  simp only [if_true] at hends
  -- a walk that spells its places ends where the other does
  have hspot := (follow_eq_ok_iff.mpr ⟨hcheck, hends.follow_of_spell⟩).symm.trans hfollow
  cases hspot
  have hloc' : s'.locate .spell true p = .ok (.node l n) := by
    rw [locate_eq_ok_iff, hworking]
    exact ⟨hcheck, by simpa using hends.mono hk hn' (.refl n)⟩
  rw [hloc] at hrest
  rw [hcheck, hloc', hdir]
  exact hrest

/-- The canonical path of a file leads to the file, unless there is too much of it. -/
theorem follow_path_iff (hs : s.Sound) (hn : s.disk.get? l = some n) (hleaf : n.leadsOn = false)
    {spot : Spot} :
    s.follow (Location.path l) = .ok spot ↔ checkPath (Location.path l) = .ok () ∧
      (∀ name ∈ l, name.length ≤ nameLimit) ∧ spot = .node l n := by
  have hlink : ∀ target t, n ≠ .link target t := by
    rintro target t rfl
    cases hleaf
  have hne : l ≠ [] := by
    rintro rfl
    obtain ⟨t, ht⟩ := hs.tree.root
    rw [ht] at hn
    cases hn
    cases hleaf
  have hends : s.follow (Location.path l) = .ok (.node l n) ↔
      checkPath (Location.path l) = .ok () ∧ ∀ name ∈ l, name.length ≤ nameLimit := by
    obtain ⟨name, dir, rfl⟩ := List.exists_cons_of_ne_nil hne
    have hstart : s.workingDir.start (Location.path (name :: dir)) = .inside [] := by
      unfold Place.start
      rw [if_pos (Location.isAbsolute_path _)]
    have hwhole : (name :: dir).reverse.reverse ++ [] = name :: dir := by simp
    have hdown := hs.tree.ends_down_iff (k := linkLimit) (hwhole.symm ▸ hn) hleaf (by simp)
    rw [hwhole] at hdown
    rw [follow_eq_ok_iff, hstart, Location.strictSegments_path (hs.tree.plain_names hn), hdown]
    simp only [List.mem_reverse]
  constructor
  · intro h
    cases follow_path hs hn hlink h
    exact ⟨(hends.mp h).1, (hends.mp h).2, rfl⟩
  · rintro ⟨hcheck, hlen, rfl⟩
    exact hends.mpr ⟨hcheck, hlen⟩

/-- What the canonical path of a file tells is decided by the file. -/
theorem status_path_iff (hs : s.Sound) (hn : s.disk.get? l = some n) (hleaf : n.leadsOn = false)
    {status : Status} :
    s.status (Location.path l) = .ok status ↔ checkPath (Location.path l) = .ok () ∧
      (∀ name ∈ l, name.length ≤ nameLimit) ∧ status = n.status := by
  unfold FileSystem.status
  constructor
  · intro h
    obtain ⟨spot, hfollow, hspot⟩ := bind_eq_ok h
    obtain ⟨hcheck, hlen, rfl⟩ := (follow_path_iff hs hn hleaf).mp hfollow
    cases hspot
    exact ⟨hcheck, hlen, rfl⟩
  · rintro ⟨hcheck, hlen, rfl⟩
    rw [(follow_path_iff hs hn hleaf).mpr ⟨hcheck, hlen, rfl⟩]
    rfl

end FileSystem

end TemplateCache
