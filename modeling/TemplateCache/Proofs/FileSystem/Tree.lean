import TemplateCache.Proofs.FileSystem.Ways
import TemplateCache.FileSystem.Request

/-!
# File systems are trees

A disk is a map from locations to nodes, and nothing in its type says that the way to a node is
there. `Disk.IsTree` says it: the root is a directory, whatever has a node has a directory above
it, and names are plain. `FileSystem.Sound` adds that the working directory stands, or that the one
it was removed from does. Real file systems are like this, and every request keeps them so.

On a tree a walk only ever stands in directories, and the absolute path of a location leads to that
location. The second half turns this into facts about `follow`, `entry` and `canonical`.
-/

namespace TemplateCache

/-- Every node hangs below a directory, under a name that paths can spell. -/
structure Disk.IsTree (d : Disk) : Prop where
  root : ∃ t, d.get? [] = some (.directory t)
  parent : ∀ {name : Name} {dir : Location} {n : Node},
    d.get? (name :: dir) = some n → ∃ t, d.get? dir = some (.directory t)
  plain : ∀ {name : Name} {dir : Location} {n : Node},
    d.get? (name :: dir) = some n → Name.IsPlain name

/-- Whether an entry of a disk may hang where it does. -/
def Disk.hangs (d : Disk) (entry : Location × Node) : Bool :=
  match entry.1 with
  | [] => entry.2.isDirectory
  | name :: dir => decide (Name.IsPlain name) && (d.get? dir).any Node.isDirectory

/-- Being a tree can be checked node by node. -/
theorem Disk.isTree_of_hangs {d : Disk} (hroot : (d.get? []).isSome)
    (h : d.nodes.all d.hangs = true) : d.IsTree := by
  have hall : ∀ {l : Location} {n : Node}, d.get? l = some n → d.hangs (l, n) = true :=
    fun hn => List.all_eq_true.mp h _ ((d.get?_eq_some_iff _ _).mp hn)
  have hcons : ∀ {name : Name} {dir : Location} {n : Node}, d.get? (name :: dir) = some n →
      Name.IsPlain name ∧ ∃ t, d.get? dir = some (.directory t) := by
    intro name dir n hn
    have hhangs := hall hn
    simp only [hangs, Bool.and_eq_true, decide_eq_true_eq, Option.any_eq_true] at hhangs
    obtain ⟨hplain, above, habove, hdir⟩ := hhangs
    obtain ⟨t, rfl⟩ := Node.isDirectory_iff.mp hdir
    exact ⟨hplain, t, habove⟩
  refine ⟨?_, fun hn => (hcons hn).2, fun hn => (hcons hn).1⟩
  obtain ⟨n, hn⟩ := Option.isSome_iff_exists.mp hroot
  obtain ⟨t, rfl⟩ := Node.isDirectory_iff.mp (hall hn)
  exact ⟨t, hn⟩

/-- The directory of a place is there; of a removed one, that from which it was removed. -/
def Place.Stands (d : Disk) : Place → Prop
  | .inside l => ∃ t, d.get? l = some (.directory t)
  | .removed base _ => ∃ t, d.get? base = some (.directory t)

/-- A tree with the working directory in it. -/
structure FileSystem.Sound (s : FileSystem) : Prop where
  tree : s.disk.IsTree
  working : s.workingDir.Stands s.disk

/-! ## Walks on trees -/

theorem Disk.IsTree.ancestor {d : Disk} (h : d.IsTree) {below dir : Location} {n : Node}
    (hn : d.get? (below ++ dir) = some n) (hne : below ≠ []) :
    ∃ t, d.get? dir = some (.directory t) := by
  induction below generalizing n with
  | nil => exact absurd rfl hne
  | cons name rest ih =>
      obtain ⟨t, ht⟩ := h.parent hn
      by_cases hrest : rest = []
      · subst hrest
        exact ⟨t, ht⟩
      · exact ih ht hrest

namespace Place.Stands

theorem above {d : Disk} (h : d.IsTree) {place : Place} (hp : place.Stands d) :
    place.above.Stands d := by
  cases place with
  | inside l =>
      cases l with
      | nil => exact hp
      | cons name dir =>
          obtain ⟨t, ht⟩ := hp
          exact h.parent ht
  | removed base levels =>
      cases levels with
      | zero => exact hp
      | succ levels => exact hp

theorem start {d : Disk} (h : d.IsTree) {place : Place} (hp : place.Stands d) (p : Path) :
    (place.start p).Stands d := by
  unfold Place.start
  split
  · exact h.root
  · exact hp

/-- A place stands where every directory is kept. -/
theorem mono {d d' : Disk} (hkeep : ∀ l, (∃ t, d.get? l = some (.directory t)) →
    ∃ t, d'.get? l = some (.directory t)) {place : Place} (hp : place.Stands d) :
    place.Stands d' := by
  cases place with
  | inside l => exact hkeep l hp
  | removed base levels => exact hkeep base hp

end Place.Stands

namespace Disk

/-- A way that starts in a directory only comes to directories. -/
theorem Leads.stands {d : Disk} (h : d.IsTree) {k j : Nat} {place goal : Place}
    {segments : List Segment} (hway : d.Leads k place segments j goal) (hp : place.Stands d) :
    goal.Stands d := by
  induction hway with
  | stay => exact hp
  | here _ ih => exact ih hp
  | up _ ih => exact ih (hp.above h)
  | into _ hdir _ ih => exact ih ⟨_, hdir⟩
  | through _ _ _ ih => exact ih (hp.start h _)

/-- Where a walk finds nothing, a node could be made. -/
theorem Ends.vacant_spot {d : Disk} (h : d.IsTree) {m : Manner} {k : Nat} {place : Place}
    {segments : List Segment} {dir : Location} {name : Name}
    (hends : d.Ends m k place segments (.vacant dir name)) (hp : place.Stands d)
    (hplain : Segment.AllPlain segments) :
    (∃ t, d.get? dir = some (.directory t)) ∧ Name.IsPlain name
      ∧ d.get? (name :: dir) = none := by
  generalize hspot : Spot.vacant dir name = spot at hends
  induction hends with
  | node _ => cases hspot
  | removed => cases hspot
  | here _ ih => exact ih hp hplain.tail hspot
  | up _ ih => exact ih (hp.above h) hplain.tail hspot
  | vacant _ hnone =>
      cases hspot
      exact ⟨hp, hplain.head, hnone⟩
  | into _ hdir _ ih => exact ih ⟨_, hdir⟩ hplain.tail hspot
  | @through _ _ _ _ _ target _ _ _ _ _ ih =>
      exact ih (hp.start h _) (target.strictSegments_allPlain.append hplain.tail) hspot
  | link _ _ _ => cases hspot
  | leaf _ _ _ => cases hspot

/-- A walk down a list of names, where a node stands below all of them, ends at that node. -/
theorem Ends.down {d : Disk} (h : d.IsTree) {m : Manner} {k : Nat} {names : List Name}
    {dir : Location} {n : Node} {spot : Spot} (hn : d.get? (names.reverse ++ dir) = some n)
    (hlink : ∀ target t, n ≠ .link target t)
    (hends : d.Ends m k (.inside dir) (names.map .name) spot) :
    spot = .node (names.reverse ++ dir) n := by
  induction names generalizing dir with
  | nil =>
      cases hends with
      | node hn' =>
          rw [List.reverse_nil, List.nil_append] at hn ⊢
          rw [hn] at hn'
          cases hn'
          rfl
  | cons name rest ih =>
      have hwhole : (name :: rest).reverse ++ dir = rest.reverse ++ name :: dir := by simp
      rw [hwhole] at hn ⊢
      cases rest with
      | nil =>
          rw [List.reverse_nil, List.nil_append] at hn ⊢
          cases hends with
          | vacant _ hnone => rw [hnone] at hn; cases hn
          | into _ _ hgo => exact ih hn hgo
          | through _ hlink' _ _ => rw [hlink'] at hn; cases hn; exact absurd rfl (hlink _ _)
          | link _ hlink' _ => rw [hlink'] at hn; cases hn; exact absurd rfl (hlink _ _)
          | leaf _ hleaf _ => rw [hleaf] at hn; cases hn; rfl
      | cons second more =>
          -- more names follow, so what stands here has something below it
          obtain ⟨t, ht⟩ := h.ancestor hn (by simp)
          cases hends with
          | into _ _ hgo => exact ih hn hgo
          | through _ hlink' _ _ => rw [hlink'] at ht; cases ht

theorem IsTree.plain_names {d : Disk} (h : d.IsTree) {l : Location} {n : Node}
    (hn : d.get? l = some n) : ∀ name ∈ l, Name.IsPlain name := by
  induction l generalizing n with
  | nil => intro name hname; exact absurd hname (by simp)
  | cons first dir ih =>
      intro name hname
      rcases List.mem_cons.mp hname with rfl | hname
      · exact h.plain hn
      · obtain ⟨t, ht⟩ := h.parent hn
        exact ih ht name hname

end Disk

namespace FileSystem

/-! ## Where paths lead -/

theorem bind_eq_ok {ε α β : Type} {x : Except ε α} {f : α → Except ε β} {b : β}
    (h : x >>= f = .ok b) : ∃ a, x = .ok a ∧ f a = .ok b := by
  cases x with
  | error e => cases h
  | ok a => exact ⟨a, rfl, h⟩

/-- What is done before does not count, be it done or not. -/
theorem of_ite_bind_eq_ok {ε α β : Type} {c : Prop} [Decidable c] {x : Except ε α}
    {y : Except ε β} {b : β} (h : (if c then x >>= fun _ => y else y) = .ok b) : y = .ok b := by
  split at h
  · obtain ⟨_, _, h⟩ := bind_eq_ok h
    exact h
  · exact h

theorem locate_eq_ok_iff {s : FileSystem} {m : Manner} {strict : Bool} {p : Path} {spot : Spot} :
    s.locate m strict p = .ok spot ↔
      checkPath p = .ok () ∧ s.disk.Ends m linkLimit (s.workingDir.start p)
        (if strict then p.strictSegments else p.segments) spot := by
  unfold locate
  cases hcheck : checkPath p with
  | error e => simp [bind, Except.bind]
  | ok u => simp [bind, Except.bind, Disk.walk_eq_ok_iff]

theorem follow_eq_ok_iff {s : FileSystem} {p : Path} {spot : Spot} :
    s.follow p = .ok spot ↔ checkPath p = .ok () ∧
      s.disk.Ends .follow linkLimit (s.workingDir.start p) p.strictSegments spot := by
  rw [follow, locate_eq_ok_iff]
  simp

theorem status_of_follow {s : FileSystem} {p : Path} {l : Location} {n : Node}
    (h : s.follow p = .ok (.node l n)) : s.status p = .ok n.status := by
  unfold status
  rw [h]
  rfl

theorem entry_eq_ok_iff {s : FileSystem} {p : Path} {spot : Spot} :
    s.entry p = .ok spot ↔ checkPath p = .ok () ∧
      s.disk.Ends .entry linkLimit (s.workingDir.start p) p.strictSegments spot := by
  rw [entry, locate_eq_ok_iff]
  simp

/-- A path comes to a location, in which entries can be looked up. -/
def Reaches (s : FileSystem) (p : Path) (l : Location) : Prop :=
  ∃ j, s.disk.Leads linkLimit (s.workingDir.start p) p.segments j (.inside l)

theorem Reaches.unique {s : FileSystem} {p : Path} {l l' : Location} (h : s.Reaches p l)
    (h' : s.Reaches p l') : l = l' := by
  obtain ⟨_, hway⟩ := h
  obtain ⟨_, hway'⟩ := h'
  have heq := (hway.unique hway').2
  injection heq

/-- A path reaches what it reaches as long as the directories and links stay. -/
theorem Reaches.mono {s s' : FileSystem} (hk : Disk.KeepsWays s.disk s'.disk)
    (hw : s'.workingDir = s.workingDir) {p : Path} {l : Location} (h : s.Reaches p l) :
    s'.Reaches p l := by
  obtain ⟨j, hway⟩ := h
  exact ⟨j, hw ▸ hway.mono hk⟩

theorem Reaches.directory {s : FileSystem} (hs : s.Sound) {p : Path} {l : Location}
    (h : s.Reaches p l) : ∃ t, s.disk.get? l = some (.directory t) := by
  obtain ⟨_, hway⟩ := h
  exact hway.stands hs.tree (hs.working.start hs.tree p)

theorem leads_strictSegments_iff {d : Disk} {k j : Nat} {place goal : Place} {p : Path} :
    d.Leads k place p.strictSegments j goal ↔ d.Leads k place p.segments j goal := by
  unfold Path.strictSegments
  split
  · exact Disk.Leads.append_here_iff
  · exact Iff.rfl

/-- A path that is followed to a directory reaches it. -/
theorem reaches_of_follow {s : FileSystem} {p : Path} {l : Location} {t : Moment}
    (h : s.follow p = .ok (.node l (.directory t))) : s.Reaches p l := by
  obtain ⟨_, hends⟩ := follow_eq_ok_iff.mp h
  obtain ⟨j, hway⟩ := hends.leads
  exact ⟨j, leads_strictSegments_iff.mp hway⟩

theorem start_join_name (place : Place) (dir : Path) {name : Name} (h : Name.IsPlain name) :
    place.start (dir.join ⟨name⟩) = place.start dir := by
  unfold Place.start
  rw [Path.isAbsolute_join_name dir h]

/-- The entry under a name in a directory is what stands there, if it can be asked for. -/
theorem entry_join_eq_ok_iff {s : FileSystem} {dir : Path} {name : Name} {spot : Spot}
    (h : Name.IsPlain name) :
    s.entry (dir.join ⟨name⟩) = .ok spot ↔
      checkPath (dir.join ⟨name⟩) = .ok () ∧ name.length ≤ nameLimit ∧
        ∃ l, s.Reaches dir l ∧
          ((s.disk.get? (name :: l) = none ∧ spot = .vacant l name) ∨
            ∃ n, s.disk.get? (name :: l) = some n ∧ spot = .node (name :: l) n) := by
  rw [entry_eq_ok_iff, Path.strictSegments_join_name dir h, start_join_name _ dir h,
    Disk.ends_append_name (by simp)]
  constructor
  · rintro ⟨hcheck, j, goal, hway, hlast⟩
    cases goal with
    | removed base levels => cases hlast
    | inside l =>
        obtain ⟨hlen, hcases⟩ := Disk.ends_entry_name.mp hlast
        exact ⟨hcheck, hlen, l, ⟨j, hway⟩, hcases⟩
  · rintro ⟨hcheck, hlen, l, ⟨j, hway⟩, hcases⟩
    exact ⟨hcheck, j, .inside l, hway, Disk.ends_entry_name.mpr ⟨hlen, hcases⟩⟩

/-- A name in a directory is followed no further than to its entry, unless that is a link. -/
theorem follow_join {s : FileSystem} {dir : Path} {name : Name} {spot : Spot}
    (h : Name.IsPlain name) (hf : s.follow (dir.join ⟨name⟩) = .ok spot) :
    checkPath (dir.join ⟨name⟩) = .ok () ∧ name.length ≤ nameLimit ∧
      ∃ l, s.Reaches dir l ∧
        ((∃ target t, s.disk.get? (name :: l) = some (.link target t)) ∨
          s.entry (dir.join ⟨name⟩) = .ok spot) := by
  obtain ⟨hcheck, hends⟩ := follow_eq_ok_iff.mp hf
  rw [Path.strictSegments_join_name dir h, start_join_name _ dir h,
    Disk.ends_append_name (by simp)] at hends
  obtain ⟨j, goal, hway, hlast⟩ := hends
  have hentry : ∀ {l : Location}, s.disk.Leads linkLimit (s.workingDir.start dir) dir.segments j
      (.inside l) → name.length ≤ nameLimit →
      ((s.disk.get? (name :: l) = none ∧ spot = .vacant l name) ∨
        ∃ n, s.disk.get? (name :: l) = some n ∧ spot = .node (name :: l) n) →
      s.entry (dir.join ⟨name⟩) = .ok spot := fun hway hlen hcases =>
    (entry_join_eq_ok_iff h).mpr ⟨hcheck, hlen, _, ⟨j, hway⟩, hcases⟩
  -- only a link makes the last step differ from a look at the entry
  cases hlast with
  | vacant hspell hnone =>
      have hlen := Disk.length_le_of_unspellable hspell
      exact ⟨hcheck, hlen, _, ⟨j, hway⟩, .inr (hentry hway hlen (.inl ⟨hnone, rfl⟩))⟩
  | into hspell hdir hrest =>
      have hlen := Disk.length_le_of_unspellable hspell
      cases hrest with
      | node hn => exact ⟨hcheck, hlen, _, ⟨j, hway⟩, .inr (hentry hway hlen (.inr ⟨_, hn, rfl⟩))⟩
  | through hspell hlink _ _ =>
      exact ⟨hcheck, Disk.length_le_of_unspellable hspell, _, ⟨_, hway⟩, .inl ⟨_, _, hlink⟩⟩
  | link _ _ hm => exact absurd hm (by simp)
  | leaf hspell hleaf _ =>
      have hlen := Disk.length_le_of_unspellable hspell
      exact ⟨hcheck, hlen, _, ⟨j, hway⟩, .inr (hentry hway hlen (.inr ⟨_, hleaf, rfl⟩))⟩

/-! ## Canonical paths -/

/-- The path of a location is followed to that location, unless a link is there. -/
theorem follow_path {s : FileSystem} (hs : s.Sound) {l : Location} {n : Node} {spot : Spot}
    (hn : s.disk.get? l = some n) (hlink : ∀ target t, n ≠ .link target t)
    (h : s.follow (Location.path l) = .ok spot) : spot = .node l n := by
  obtain ⟨-, hends⟩ := follow_eq_ok_iff.mp h
  have hstart : s.workingDir.start (Location.path l) = .inside [] := by
    unfold Place.start
    rw [if_pos (Location.isAbsolute_path l)]
  rw [hstart] at hends
  cases l with
  | nil =>
      -- the root's path is a slash with no name after it
      have hroot : (Location.path []).strictSegments = [.here] := by decide
      rw [hroot] at hends
      cases hends with
      | here hend =>
          cases hend with
          | node hn' => rw [hn] at hn'; cases hn'; rfl
  | cons name dir =>
      rw [Location.strictSegments_path (hs.tree.plain_names hn)] at hends
      have hwhole : (name :: dir).reverse.reverse ++ [] = name :: dir := by simp
      have hdown := hends.down hs.tree (hwhole.symm ▸ hn) hlink
      rwa [hwhole] at hdown

/-- A canonical path is the path of the location that is followed to. -/
theorem canonical_eq_ok {s : FileSystem} {p c : Path} (h : s.canonical p = .ok c) :
    ∃ l n, s.follow p = .ok (.node l n) ∧ c = Location.path l := by
  unfold canonical at h
  obtain ⟨_, hcheck, h⟩ := bind_eq_ok h
  -- an absolute path or not, the answer is read off the same walk
  obtain ⟨spot, hloc, hc⟩ := bind_eq_ok (of_ite_bind_eq_ok h)
  obtain ⟨-, hends⟩ := locate_eq_ok_iff.mp hloc
  cases spot with
  | node l n =>
      cases hc
      refine ⟨l, n, follow_eq_ok_iff.mpr ⟨hcheck, ?_⟩, rfl⟩
      simpa using hends.follow_of_spell
  | removed base levels => cases hc
  | vacant dir name => cases hc

end FileSystem

end TemplateCache
