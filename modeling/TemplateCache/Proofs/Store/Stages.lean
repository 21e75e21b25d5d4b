import TemplateCache.Proofs.FileSystem.Entries
import TemplateCache.Proofs.Store.Reaching

/-!
# Stages of making directories

Several callers may make the same directories at once. Each of them goes up a ladder of paths until
something is there and comes down again, and any of them may find a rung made by another. What is
on disk is all the same a *stage* of what one caller alone would have made: the rungs from the last
up to some point are directories, the next one is vacant, and nothing above it can be asked for.
Main statement: `Stage.rung`.
-/

namespace TemplateCache

open FileSystem

namespace Disk

/-! ## Walks past a vacancy -/

theorem not_ends_nil_vacant {d : Disk} {m : Manner} {k : Nat} {place : Place} {dir : Location}
    {name : Name} : ¬d.Ends m k place [] (.vacant dir name) := by
  intro h
  cases h

/-- Only a name can be vacant. -/
theorem Ends.name_of_vacant {d : Disk} {m : Manner} {k : Nat} {place : Place} {a : List Segment}
    {part : Segment} {dir : Location} {name : Name}
    (h : d.Ends m k place (a ++ [part]) (.vacant dir name)) : ∃ n, part = .name n := by
  generalize hwhole : a ++ [part] = whole at h
  generalize hspot : Spot.vacant dir name = spot at h
  induction h generalizing a with
  | node _ => cases hspot
  | removed => cases hspot
  | here hrest ih =>
      cases a with
      | nil =>
          -- nothing is left to be vacant
          injection hwhole with _ hnil
          subst hnil hspot
          exact absurd hrest not_ends_nil_vacant
      | cons first more => exact ih (List.cons.inj hwhole).2 hspot
  | up hrest ih =>
      cases a with
      | nil =>
          injection hwhole with _ hnil
          subst hnil hspot
          exact absurd hrest not_ends_nil_vacant
      | cons first more => exact ih (List.cons.inj hwhole).2 hspot
  | vacant _ _ =>
      cases a with
      | nil => exact ⟨_, (List.cons.inj hwhole).1⟩
      | cons first more => exact absurd (List.cons.inj hwhole).2 (by simp)
  | into _ _ _ ih =>
      cases a with
      | nil => exact ⟨_, (List.cons.inj hwhole).1⟩
      | cons first more => exact ih (List.cons.inj hwhole).2 hspot
  | through _ _ _ _ ih =>
      cases a with
      | nil => exact ⟨_, (List.cons.inj hwhole).1⟩
      | cons first more =>
          exact ih ((List.append_assoc _ _ _).trans (congrArg _ (List.cons.inj hwhole).2)) hspot
  | link _ _ _ => cases hspot
  | leaf _ _ _ => cases hspot

theorem Ends.get?_vacant {d : Disk} {m : Manner} {k : Nat} {place : Place}
    {segments : List Segment} {dir : Location} {name : Name}
    (h : d.Ends m k place segments (.vacant dir name)) : d.get? (name :: dir) = none := by
  generalize hspot : Spot.vacant dir name = spot at h
  induction h with
  | node _ => cases hspot
  | removed => cases hspot
  | here _ ih => exact ih hspot
  | up _ ih => exact ih hspot
  | vacant _ hnone => cases hspot; exact hnone
  | into _ _ _ ih => exact ih hspot
  | through _ _ _ _ ih => exact ih hspot
  | link _ _ _ => cases hspot
  | leaf _ _ _ => cases hspot

/-- The way to a vacant entry is one on every disk that has the directories and links of this one,
and it does not matter whether links are followed at its end. -/
theorem Ends.vacant_mono {d d' : Disk} (hk : KeepsWays d d') {m : Manner} (hm : m ≠ .spell)
    {k : Nat} {place : Place} {segments : List Segment} {dir : Location} {name : Name}
    (hnone : d'.get? (name :: dir) = none)
    (h : d.Ends .entry k place segments (.vacant dir name)) :
    d'.Ends m k place segments (.vacant dir name) := by
  have hspell : ∀ {dir : Location} {n : Name} {rest : List Segment},
      d.unspellable .entry dir n rest = false → d'.unspellable m dir n rest = false :=
    fun hspell => unspellable_eq_false hm (length_le_of_unspellable hspell)
  generalize hspot : Spot.vacant dir name = spot at h
  induction h with
  | node _ => cases hspot
  | removed => cases hspot
  | here _ ih => exact .here (ih hspot)
  | up _ ih => exact .up (ih hspot)
  | vacant hlen _ =>
      cases hspot
      exact .vacant (hspell hlen) hnone
  | into hlen hdir _ ih =>
      obtain ⟨t', hdir'⟩ := hk.directory hdir
      exact .into (hspell hlen) hdir' (ih hspot)
  | through hlen hlink hend _ ih =>
      exact .through (hspell hlen) (hk.link hlink) (fun h => hend ⟨h.1, rfl⟩) (ih hspot)
  | link _ _ _ => cases hspot
  | leaf _ _ _ => cases hspot

/-- What is said after a vacant entry cannot be found. -/
theorem Ends.walk_append_of_vacant {d : Disk} {m : Manner} {k : Nat} {place : Place}
    {segments more : List Segment} (hmore : more ≠ []) (hm : m ≠ .spell) {dir : Location}
    {name : Name} (h : d.Ends m k place segments (.vacant dir name)) :
    d.walk m k place (segments ++ more) = .error .missing := by
  have hspell : ∀ {dir : Location} {n : Name} {rest : List Segment} (rest' : List Segment),
      d.unspellable m dir n rest = false → d.unspellable m dir n rest' = false :=
    fun _ hspell => unspellable_eq_false hm (length_le_of_unspellable hspell)
  generalize hspot : Spot.vacant dir name = spot at h
  induction h with
  | node _ => cases hspot
  | removed => cases hspot
  | here _ ih =>
      have hrest := ih hspot
      rw [walk_eq_steps] at hrest ⊢
      exact hrest
  | up _ ih =>
      have hrest := ih hspot
      rw [walk_eq_steps] at hrest ⊢
      exact hrest
  | vacant hlen hnone =>
      rw [walk_eq_steps]
      simp [steps, hspell more hlen, hnone, hmore]
  | @into _ _ _ rest _ _ hlen hdir _ ih =>
      have hrest := ih hspot
      rw [walk_eq_steps] at hrest ⊢
      simpa [steps, hspell (rest ++ more) hlen, hdir] using hrest
  | @through _ _ _ rest _ _ _ hlen hlink _ _ ih =>
      have hrest := ih hspot
      rw [List.append_assoc] at hrest
      rw [walk_eq_steps]
      simp only [List.cons_append, steps, hspell (rest ++ more) hlen, hlink,
        Bool.false_eq_true, if_false]
      rw [if_neg (by simp [hmore])]
      exact hrest
  | link _ _ _ => cases hspot
  | leaf _ _ _ => cases hspot

/-- A way is also a walk to an entry: that of the directory it leads to, or a link to it. -/
theorem Leads.ends_entry {d : Disk} {k j : Nat} {place goal : Place} {segments : List Segment}
    {l : Location} (h : d.Leads k place segments j goal) (hgoal : goal = .inside l)
    (hl : ∃ t, d.get? l = some (.directory t)) :
    ∃ l' n, d.Ends .entry k place segments (.node l' n) := by
  induction h with
  | stay =>
      subst hgoal
      obtain ⟨t, ht⟩ := hl
      exact ⟨l, _, .node ht⟩
  | here _ ih =>
      obtain ⟨l', n, hends⟩ := ih hgoal
      exact ⟨l', n, .here hends⟩
  | up _ ih =>
      obtain ⟨l', n, hends⟩ := ih hgoal
      exact ⟨l', n, .up hends⟩
  | into hlen hdir _ ih =>
      obtain ⟨l', n, hends⟩ := ih hgoal
      exact ⟨l', n, .into (unspellable_eq_false (by simp) hlen) hdir hends⟩
  | @through _ _ dir name rest _ target t hlen hlink _ ih =>
      have hspell : ∀ rest, d.unspellable .entry dir name rest = false := fun rest =>
        unspellable_eq_false (by simp) hlen
      by_cases hrest : rest = []
      · subst hrest
        exact ⟨name :: dir, _, .link (hspell _) hlink rfl⟩
      · obtain ⟨l', n, hends⟩ := ih hgoal
        exact ⟨l', n, .through (hspell _) hlink (fun h => hrest h.1) hends⟩

end Disk

namespace FileSystem

/-! ## Vacant paths -/

/-- A directory could be made at a path. -/
def Vacant (s : FileSystem) (p : Path) (dir : Location) (name : Name) : Prop :=
  s.locate .entry false p = .ok (.vacant dir name)

theorem vacant_iff {s : FileSystem} {p : Path} {dir : Location} {name : Name} :
    s.Vacant p dir name ↔ checkPath p = .ok () ∧
      s.disk.Ends .entry linkLimit (s.workingDir.start p) p.segments (.vacant dir name) := by
  unfold Vacant
  rw [locate_eq_ok_iff]
  simp

theorem Vacant.makeDirectory {s : FileSystem} {p : Path} {dir : Location} {name : Name}
    (h : s.Vacant p dir name) : s.makeDirectory p = .ok (s.put dir name (.directory s.now)) := by
  unfold FileSystem.makeDirectory
  rw [h]
  rfl

/-- Only at a vacant path is one made. -/
theorem vacant_of_makeDirectory {s s' : FileSystem} {p : Path} (h : s.makeDirectory p = .ok s') :
    ∃ dir name, s.Vacant p dir name ∧ s' = s.put dir name (.directory s.now) := by
  obtain ⟨spot, hloc, hspot⟩ := bind_eq_ok h
  cases spot with
  | node l n => cases hspot
  | removed base levels => cases hspot
  | vacant dir name =>
      cases hspot
      exact ⟨dir, name, hloc, rfl⟩

/-- Where a directory is it cannot be made. -/
theorem DirectoryAt.makeDirectory {s : FileSystem} (hs : s.Sound) {p : Path}
    (h : s.DirectoryAt p) : s.makeDirectory p = .error .alreadyThere := by
  obtain ⟨hcheck, l, j, hway⟩ := (directoryAt_iff hs).mp h
  obtain ⟨l', n, hends⟩ := hway.ends_entry rfl (Reaches.directory hs ⟨j, hway⟩)
  have hloc : s.locate .entry false p = .ok (.node l' n) :=
    locate_eq_ok_iff.mpr ⟨hcheck, by simpa using hends⟩
  unfold FileSystem.makeDirectory
  rw [hloc]
  rfl

theorem DirectoryAt.not_vacant {s : FileSystem} (hs : s.Sound) {p : Path} (h : s.DirectoryAt p)
    {dir : Location} {name : Name} : ¬s.Vacant p dir name := by
  intro hvacant
  have hmade := hvacant.makeDirectory
  rw [h.makeDirectory hs] at hmade
  cases hmade

theorem Vacant.locate {s : FileSystem} {p q : Path} {dir : Location} {name : Name}
    (h : s.Vacant p dir name) (hp : p.isAbsolute = true) (hq : q.isAbsolute = true)
    (hcheck : checkPath q = .ok ()) {m : Manner} (hm : m ≠ .spell) (strict : Bool)
    {more : List Segment} (hmore : more ≠ [])
    (hsegments : (if strict then q.strictSegments else q.segments) = p.segments ++ more) :
    s.locate m strict q = .error .missing := by
  obtain ⟨-, hends⟩ := vacant_iff.mp h
  have hwalk := hends.vacant_mono (fun l n hn _ => ⟨n, hn, .refl n⟩) hm hends.get?_vacant
  unfold FileSystem.locate
  rw [hcheck, start_of_isAbsolute _ hq, hsegments, ← start_of_isAbsolute s.workingDir hp]
  exact hwalk.walk_append_of_vacant hmore hm

/-- What lies beyond a vacant path can neither be found nor made. -/
theorem Vacant.beyond {s : FileSystem} {p q : Path} {dir : Location} {name : Name}
    (h : s.Vacant p dir name) (hp : p.isAbsolute = true) (hq : q.isAbsolute = true)
    (hcheck : checkPath q = .ok ()) {more : List Segment} (hmore : more ≠ [])
    (hsegments : q.segments = p.segments ++ more) :
    s.makeDirectory q = .error .missing ∧ s.status q = .error .missing := by
  constructor
  · unfold FileSystem.makeDirectory
    rw [h.locate hp hq hcheck (by simp) false hmore hsegments]
    rfl
  · obtain ⟨more', hmore', hstrict⟩ : ∃ more', more' ≠ [] ∧
        q.strictSegments = p.segments ++ more' := by
      unfold Path.strictSegments
      split
      · exact ⟨more ++ [.here], by simp, by rw [hsegments, List.append_assoc]⟩
      · exact ⟨more, hmore, hsegments⟩
    unfold FileSystem.status FileSystem.follow
    rw [h.locate hp hq hcheck (by simp) true hmore' hstrict]
    rfl

/-- A vacant path leads to nothing. -/
theorem Vacant.status {s : FileSystem} {p : Path} {dir : Location} {name : Name}
    (h : s.Vacant p dir name) (hp : p.isAbsolute = true) : s.status p = .error .missing := by
  obtain ⟨hcheck, hends⟩ := vacant_iff.mp h
  by_cases hlast : p.bytes.getLast? = some Path.slash
  · have hstrict : p.strictSegments = p.segments ++ [.here] := by
      unfold Path.strictSegments
      rw [if_pos hlast]
    unfold FileSystem.status FileSystem.follow
    rw [h.locate hp hp hcheck (by simp) true (by simp) hstrict]
    rfl
  · have hstrict : p.strictSegments = p.segments := by
      unfold Path.strictSegments
      rw [if_neg hlast]
    have hfollow : s.follow p = .ok (.vacant dir name) := by
      rw [follow_eq_ok_iff, hstrict]
      exact ⟨hcheck, hends.vacant_mono (fun l n hn _ => ⟨n, hn, .refl n⟩) (by simp)
        hends.get?_vacant⟩
    unfold FileSystem.status
    rw [hfollow]
    rfl

/-- A path stays vacant on a disk with the same directories and links. -/
theorem Vacant.mono {s s' : FileSystem} {p : Path} {dir : Location} {name : Name}
    (h : s.Vacant p dir name) (hk : Disk.KeepsWays s.disk s'.disk)
    (hworking : s'.workingDir = s.workingDir) (hnone : s'.disk.get? (name :: dir) = none) :
    s'.Vacant p dir name := by
  obtain ⟨hcheck, hends⟩ := vacant_iff.mp h
  exact vacant_iff.mpr ⟨hcheck, hworking ▸ hends.vacant_mono hk (by simp) hnone⟩

/-- A new directory makes the way to it, and changes nothing else. -/
theorem Vacant.made {s : FileSystem} (hs : s.Sound) {p : Path} {dir : Location} {name : Name}
    (h : s.Vacant p dir name) :
    (s.put dir name (.directory s.now)).Sound ∧
    (s.put dir name (.directory s.now)).DirectoryAt p ∧
    (∃ t, s.disk.get? dir = some (.directory t)) ∧ s.disk.get? (name :: dir) = none := by
  obtain ⟨-, hends⟩ := vacant_iff.mp h
  obtain ⟨hdir, hplain, hnone⟩ :=
    hends.vacant_spot hs.tree (hs.working.start hs.tree p) p.segments_allPlain
  exact ⟨hs.of_sameAt hdir hplain (by simp [hnone]) (fun l hl => sameAt_put hdir hl) rfl,
    directoryAt_of_makeDirectory hs h.makeDirectory, hdir, hnone⟩

/-- The directory that a vacant path is to be made in is that of the next rung. -/
theorem Vacant.below {s : FileSystem} (hs : s.Sound) {p q : Path} {part : Segment}
    {dir : Location} {name : Name} (h : s.Vacant p dir name) (hp : p.isAbsolute = true)
    (hq : q.isAbsolute = true) (hcheck : checkPath q = .ok ())
    (hsegments : p.segments = q.segments ++ [part]) : s.DirectoryAt q := by
  obtain ⟨-, hends⟩ := vacant_iff.mp h
  rw [hsegments, start_of_isAbsolute _ hp] at hends
  obtain ⟨n, rfl⟩ := hends.name_of_vacant
  obtain ⟨j, goal, hway, -⟩ := hends.split
  obtain ⟨l, rfl⟩ := hway.inside rfl
  exact (directoryAt_iff hs).mpr ⟨hcheck, l, j, by rwa [start_of_isAbsolute _ hq]⟩

end FileSystem

namespace Store

/-! ## Stages -/

/-- What comes of making some directories, from the last on, as far as they are missing. -/
inductive Raised (s : FileSystem) : List Path → FileSystem → Prop where
  | foot : Raised s [] s
  | there {p : Path} {lower : List Path} {t : FileSystem} :
      Raised s lower t → t.DirectoryAt p → Raised s (p :: lower) t
  | made {p : Path} {lower : List Path} {t : FileSystem} {dir : Location} {name : Name} :
      Raised s lower t → t.Vacant p dir name →
      Raised s (p :: lower) (t.put dir name (.directory t.now))

namespace Raised

variable {s t t' : FileSystem} {paths : List Path}

theorem sound (h : Raised s paths t) (hs : s.Sound) : t.Sound := by
  induction h with
  | foot => exact hs
  | there _ _ ih => exact ih
  | made _ hvacant ih => exact (hvacant.made ih).1

/-- Nothing but new directories is different. -/
theorem fate (h : Raised s paths t) (hs : s.Sound) (l : Location) :
    Disk.SameAt s.disk t.disk l ∨
      (s.disk.get? l = none ∧ ∃ time, t.disk.get? l = some (.directory time)) := by
  induction h with
  | foot => exact .inl (.refl _ l)
  | there _ _ ih => exact ih
  | @made p lower t dir name hlower hvacant ih =>
      obtain ⟨-, -, hdir, hnone⟩ := hvacant.made (hlower.sound hs)
      by_cases hl : l = name :: dir
      · subst hl
        refine .inr ⟨?_, t.now, get?_put_self⟩
        rcases ih with hsame | ⟨hbefore, -⟩
        · exact hsame.none_iff.mpr hnone
        · exact hbefore
      · have hput := sameAt_put (n := .directory t.now) hdir hl
        rcases ih with hsame | ⟨hbefore, time, htime⟩
        · exact .inl (hsame.trans hput)
        · exact .inr ⟨hbefore, hput.directory htime⟩

theorem setting (h : Raised s paths t) : SameSetting s t ∧ t.seed = s.seed := by
  induction h with
  | foot => exact ⟨.refl s, rfl⟩
  | there _ _ ih => exact ih
  | made _ _ ih => exact ⟨ih.1.trans ⟨rfl, rfl, rfl⟩, ih.2⟩

/-- There is at most one more node for each of the paths. -/
theorem length_le (h : Raised s paths t) :
    t.disk.nodes.length ≤ s.disk.nodes.length + paths.length := by
  induction h with
  | foot => exact Nat.le_refl _
  | there _ _ ih => exact Nat.le_succ_of_le ih
  | @made p lower t dir name _ _ ih =>
      have hput := length_put_le t dir name (.directory t.now)
      rw [List.length_cons]
      omega

theorem kept (h : Raised s paths t) (hs : s.Sound) {l : Location} {n : Node}
    (hn : s.disk.get? l = some n) : ∃ n', t.disk.get? l = some n' ∧ n.Like n' := by
  rcases h.fate hs l with hsame | ⟨hnone, -⟩
  · exact hsame.some hn
  · rw [hn] at hnone
    cases hnone

theorem keepsWays (h : Raised s paths t) (hs : s.Sound) : Disk.KeepsWays s.disk t.disk :=
  fun _ _ hn _ => h.kept hs hn

/-- All of the paths are directories in the end. -/
theorem directoryAt (h : Raised s paths t) (hs : s.Sound) : ∀ p ∈ paths, t.DirectoryAt p := by
  induction h with
  | foot => intro p hp; cases hp
  | there _ hthere ih =>
      intro p hp
      rcases List.mem_cons.mp hp with rfl | hp
      · exact hthere
      · exact ih p hp
  | @made p lower t dir name hlower hvacant ih =>
      have hsound := hlower.sound hs
      obtain ⟨hmade, hthere, hdir, hnone⟩ := hvacant.made hsound
      intro q hq
      rcases List.mem_cons.mp hq with rfl | hq
      · exact hthere
      -- nothing stood where the directory was made, so no way was cut
      · have hkeep : Disk.KeepsWays t.disk (t.put dir name (.directory t.now)).disk := by
          refine Disk.keepsWays_of_sameAt fun l n hn _ => sameAt_put hdir ?_
          rintro rfl
          rw [hnone] at hn
          cases hn
        exact (ih q hq).mono hsound hmade hkeep rfl

theorem unique (h : Raised s paths t) (h' : Raised s paths t') (hs : s.Sound) : t = t' := by
  induction h generalizing t' with
  | foot => cases h'; rfl
  | there hlower hthere ih =>
      cases h' with
      | there hlower' _ => exact ih hlower'
      | made hlower' hvacant =>
          cases ih hlower'
          exact absurd hvacant (hthere.not_vacant (hlower.sound hs))
  | made hlower hvacant ih =>
      cases h' with
      | there hlower' hthere =>
          cases ih hlower'
          exact absurd hvacant (hthere.not_vacant (hlower.sound hs))
      | made hlower' hvacant' =>
          cases ih hlower'
          unfold Vacant at hvacant hvacant'
          rw [hvacant] at hvacant'
          cases hvacant'
          rfl

/-- On the way to all of the paths there is a stage for every part of them from below. -/
theorem suffix {lower : List Path} (h : Raised s paths t) (hsuffix : lower <:+ paths) :
    ∃ t', Raised s lower t' := by
  induction h with
  | foot =>
      rw [List.suffix_nil.mp hsuffix]
      exact ⟨s, .foot⟩
  | there hlower hthere ih =>
      rcases List.suffix_cons_iff.mp hsuffix with rfl | hsuffix
      · exact ⟨_, .there hlower hthere⟩
      · exact ih hsuffix
  | made hlower hvacant ih =>
      rcases List.suffix_cons_iff.mp hsuffix with rfl | hsuffix
      · exact ⟨_, .made hlower hvacant⟩
      · exact ih hsuffix

/-- Where the upper ones are directories already they need not be made. -/
theorem extend {upper lower : List Path} (h : Raised s lower t)
    (hthere : ∀ p ∈ upper, t.DirectoryAt p) : Raised s (upper ++ lower) t := by
  induction upper with
  | nil => exact h
  | cons p more ih =>
      exact .there (ih fun q hq => hthere q (List.mem_cons_of_mem _ hq))
        (hthere p List.mem_cons_self)

theorem of_directoryAt (h : ∀ p ∈ paths, s.DirectoryAt p) : Raised s paths s := by
  rw [← List.append_nil paths]
  exact Raised.foot.extend h

/-- Where every path that goes up is there, the first is there already, or a new and empty
directory. -/
theorem eq_or_empty (h : Raised s paths t) (hs : s.Sound) {p : Path} {lower : List Path}
    (hpaths : paths = p :: lower) (hladder : Path.Ladder paths)
    (hup : ∀ q ∈ paths, q.segments.getLast? = some .up → s.DirectoryAt q) :
    t = s ∨ ∃ l, t.Reaches p l ∧ ∀ x, t.disk.get? (x :: l) = none := by
  induction h generalizing p lower with
  | foot => cases hpaths
  | @there first _ t hlower hthere ih =>
      have hraised := hlower.there hthere
      cases hpaths
      obtain ⟨-, l', i, hway⟩ := (directoryAt_iff (hlower.sound hs)).mp hthere
      rw [start_of_isAbsolute _ (hladder.isAbsolute List.mem_cons_self)] at hway
      cases hladder with
      | foot _ _ =>
          cases hlower
          exact .inl rfl
      | @rung _ q rest part habs hsegments hrest =>
          rcases ih rfl hrest fun r hr => hup r (List.mem_cons_of_mem _ hr) with
            hsame | ⟨l, hreach, hempty⟩
          · exact .inl hsame
          · rw [hsegments] at hway
            obtain ⟨j, mid, hfirst, hlast⟩ := hway.split
            obtain ⟨_, hfirst'⟩ := hreach
            rw [start_of_isAbsolute _ (hrest.isAbsolute List.mem_cons_self)] at hfirst'
            obtain ⟨-, rfl⟩ := hfirst.unique hfirst'
            cases part with
            -- all of them were there before, so that nothing was made
            | up =>
                have hbefore : s.DirectoryAt first :=
                  hup first List.mem_cons_self (by simp [hsegments])
                refine .inl (hraised.unique (.of_directoryAt ?_) hs)
                exact hbefore.of_ladder hs (.rung habs hsegments hrest) fun r hr =>
                  ((directoryAt_iff (hlower.sound hs)).mp (hraised.directoryAt hs r hr)).1
            -- the last step from an empty directory can only stay in it
            | here =>
                cases hlast with
                | here hstay =>
                    cases hstay
                    refine .inr ⟨_, ⟨i, ?_⟩, hempty⟩
                    rw [start_of_isAbsolute _ habs, hsegments]
                    exact hway
            | name n =>
                cases hlast with
                | into _ hdir _ => cases hdir.symm.trans (hempty n)
                | through _ hlink _ => cases hlink.symm.trans (hempty n)
  | @made _ _ t dir name hlower hvacant _ =>
      cases hpaths
      have hsound := hlower.sound hs
      obtain ⟨dir', name', hdir, -, hnone, hmade, hreach⟩ :=
        makeDirectory_eq_ok hsound hvacant.makeDirectory
      rw [hmade] at hreach ⊢
      refine .inr ⟨_, hreach, fun x => (sameAt_put hdir ?_).none_iff.mp ?_⟩
      · exact (Disk.ne_cons _ _).symm
      · cases hx : t.disk.get? (x :: name' :: dir') with
        | none => rfl
        | some n =>
            obtain ⟨time, htime⟩ := hsound.tree.parent hx
            cases htime.symm.trans hnone

end Raised

/-! ## Making directories alone -/

/-- A rung that is vacant has a directory below it, and so on down to the root. -/
theorem directoryAt_below {s : FileSystem} (hs : s.Sound) {p : Path} {lower : List Path}
    (hladder : Path.Ladder (p :: lower)) (hcheck : ∀ q ∈ p :: lower, checkPath q = .ok ())
    {dir : Location} {name : Name} (h : s.Vacant p dir name) :
    ∀ q ∈ lower, s.DirectoryAt q := by
  cases hladder with
  | foot _ _ => intro q hq; cases hq
  | @rung _ q more part habs hsegments hrest =>
      have hbelow : s.DirectoryAt q := h.below hs habs (hrest.isAbsolute List.mem_cons_self)
        (hcheck q (by simp)) hsegments
      exact hbelow.of_ladder hs hrest fun r hr => hcheck r (List.mem_cons_of_mem _ hr)

/-- What a caller does who succeeds in making directories. -/
theorem raised_of_makeAll {s : FileSystem} (hs : s.Sound) {paths : List Path}
    (hladder : Path.Ladder paths) (hcheck : ∀ q ∈ paths, checkPath q = .ok ())
    (h : (s.runFiles (FileProgram.makeAll paths)).1 = .ok ()) :
    Raised s paths (s.runFiles (FileProgram.makeAll paths)).2 := by
  induction paths with
  | nil => cases hladder
  | cons p above ih =>
      have habs := hladder.isAbsolute (p := p) List.mem_cons_self
      have hthere : ∀ {t : FileSystem}, t.Sound → t.DirectoryAt p → Raised t (p :: above) t :=
        fun ht hp => .of_directoryAt (hp.of_ladder ht hladder hcheck)
      have hlook : ∀ {t : FileSystem} {e : SystemError},
          (t.runFiles (FileProgram.unlessThere p e)).1 = .ok () → t.DirectoryAt p :=
        fun h => (FileProgram.unlessThere_eq_ok_iff habs _).mp h
      have hlower : ∀ {t : FileSystem}, s.runFiles (FileProgram.makeAll above) = (.ok (), t) →
          Raised s above t := by
        intro t habove
        cases hladder with
        | foot _ _ =>
            cases habove
            exact .foot
        | rung _ _ hrest =>
            rw [habove] at ih
            exact ih hrest (fun q hq => hcheck q (List.mem_cons_of_mem _ hq)) rfl
      cases hrun : s.runFiles (FileProgram.makeAll (p :: above)) with
      | mk result after =>
          rw [hrun] at h
          cases h
          dsimp only
          cases FileProgram.makeAll_course hrun with
          | made hmade =>
              obtain ⟨dir, name, hp, rfl⟩ := vacant_of_makeDirectory hmade
              exact .made (.of_directoryAt (directoryAt_below hs hladder hcheck hp)) hp
          | looked _ _ hlooked => exact hthere hs (hlook hlooked)
          | madeAfter _ habove hmade =>
              obtain ⟨dir, name, hp, rfl⟩ := vacant_of_makeDirectory hmade
              exact .made (hlower habove) hp
          | lookedAfter _ habove _ hlooked => exact .there (hlower habove) (hlook hlooked)

theorem raised_of_ensure {s opened : FileSystem} (hs : s.Sound) {full : Path}
    (habs : full.isAbsolute = true) (hhere : .here ∉ full.segments)
    (h : s.runFiles (ensure full) = (.ok (), opened)) :
    Raised s (FileProgram.ancestors full) opened := by
  have hopened : opened.DirectoryAt full := by
    have hiff := ensure_eq_ok_iff hs habs hhere
    rw [h] at hiff
    exact hiff.mp rfl
  have hgrows := ensure_grows hs full
  rw [h] at hgrows
  have hladder := FileProgram.ancestors_ladder habs hhere
  have hcheck : ∀ q ∈ FileProgram.ancestors full, checkPath q = .ok () := fun q hq =>
    FileProgram.checkPath_of_mem_ancestors habs hq ((directoryAt_iff hgrows.sound).mp hopened).1
  cases ensure_course h with
  | there _ _ =>
      -- nothing was made, so it was a directory from the beginning
      rw [FileProgram.ancestors_eq habs] at hladder hcheck ⊢
      exact .of_directoryAt (hopened.of_ladder hs hladder hcheck)
  | made _ hmade =>
      unfold FileProgram.makeDirectories at hmade
      have hraised := raised_of_makeAll hs hladder hcheck (congrArg Prod.fst hmade)
      rwa [hmade] at hraised

/-- Opening a store succeeds by way of making what is missing. -/
theorem raised_of_openAt {s opened : FileSystem} (hs : s.Sound) {dir : Path} {store : Store}
    (h : s.runFiles (openAt dir) = (.ok store, opened)) :
    Raised s (FileProgram.ancestors store.dir) opened := by
  have hdir := openAt_eq_ok (congrArg Prod.fst h)
  obtain ⟨habs, hhere⟩ := absolute_eq_ok hs hdir
  rw [runFiles_openAt_of_ok hdir] at h
  cases hmade : s.runFiles (ensure store.dir) with
  | mk result after =>
      rw [hmade] at h
      cases result with
      | error e => cases h
      | ok u =>
          cases h
          exact raised_of_ensure hs habs hhere hmade

/-- A path goes up from no directory that is missing: each of its rungs that ends in going up leads
to a directory already. -/
def Straight (s : FileSystem) (full : Path) : Prop :=
  ∀ p ∈ FileProgram.ancestors full, p.segments.getLast? = some .up → s.DirectoryAt p

/-- Opening a store finds its directory, or makes it new and empty, unless its path goes up from a
directory that was missing. -/
theorem Raised.opened_or_empty {s opened : FileSystem} (hs : s.Sound) {dir full : Path}
    (hfull : (s.runFiles (absolute dir)).1 = .ok full)
    (h : Raised s (FileProgram.ancestors full) opened) (hstraight : Straight s full) :
    opened = s ∨ ∃ l, opened.Reaches full l ∧ ∀ x, opened.disk.get? (x :: l) = none := by
  obtain ⟨habs, hhere⟩ := absolute_eq_ok hs hfull
  exact h.eq_or_empty hs (FileProgram.ancestors_eq habs)
    (FileProgram.ancestors_ladder habs hhere) hstraight

/-! ## Stages -/

/-- A state on the way to having all of some directories. -/
structure Stage (start : FileSystem) (ladder : List Path) (s : FileSystem) : Prop where
  sound : s.Sound
  working : s.workingDir = start.workingDir
  reached : ∃ lower t, lower <:+ ladder ∧ Raised start lower t ∧
    ∀ l, Disk.SameAt t.disk s.disk l

namespace Stage

variable {start opened s : FileSystem} {ladder : List Path}

theorem start_stage (hs : start.Sound) : Stage start ladder start :=
  ⟨hs, rfl, [], start, List.nil_suffix, .foot, fun l => .refl _ l⟩

/-- With all of them there, everything is as in the end. -/
theorem done (h : Stage start ladder s) (hs : start.Sound) (hall : Raised start ladder opened)
    (hthere : ∀ p ∈ ladder, s.DirectoryAt p) (l : Location) :
    Disk.SameAt opened.disk s.disk l := by
  obtain ⟨lower, t, ⟨upper, rfl⟩, hlower, hsame⟩ := h.reached
  have hback : Disk.KeepsWays s.disk t.disk :=
    Disk.keepsWays_of_sameAt fun l _ _ _ => (hsame l).symm
  have hworking : t.workingDir = s.workingDir :=
    hlower.setting.1.workingDir.trans h.working.symm
  have hupper : Raised start (upper ++ lower) t := hlower.extend fun p hp =>
    (hthere p (List.mem_append_left _ hp)).mono h.sound (hlower.sound hs) hback hworking
  cases hupper.unique hall hs
  exact hsame l

/-- A rung of the ladder is there, or it is the one to be made next, or one below it is. -/
theorem rung (h : Stage start ladder s) (hs : start.Sound) (hall : Raised start ladder opened)
    {p : Path} {lower : List Path} (hp : p :: lower <:+ ladder) :
    s.DirectoryAt p ∨
    (∃ dir name, s.Vacant p dir name ∧
      Stage start ladder (s.put dir name (.directory s.now))) ∨
    ∃ q ∈ lower, ∃ dir name, s.Vacant q dir name := by
  obtain ⟨sound, working, reached, t, hreached, hraised, hsame⟩ := h
  have hworking : ∀ {lower : List Path}, Raised start lower t → s.workingDir = t.workingDir :=
    fun hraised => working.trans hraised.setting.1.workingDir.symm
  have hkeep : Disk.KeepsWays t.disk s.disk := Disk.keepsWays_of_sameAt fun l _ _ _ => hsame l
  have hthere : ∀ {lower : List Path}, Raised start lower t → ∀ q ∈ lower, s.DirectoryAt q :=
    fun hraised q hq => (hraised.directoryAt hs q hq).mono (hraised.sound hs) sound hkeep
      (hworking hraised)
  -- the one list is the end of the other; in the second case the gap is closed from below
  rcases List.suffix_or_suffix_of_suffix hp hreached with hbelow | ⟨gap, hgap⟩
  · exact .inl (hthere hraised p (hbelow.subset List.mem_cons_self))
  · induction gap using List.reverseRecOn generalizing reached with
    | nil =>
        rw [List.nil_append] at hgap
        exact .inl (hthere hraised p (hgap ▸ List.mem_cons_self))
    | append_singleton gap next ih =>
        rw [List.append_assoc] at hgap
        have hnext : next :: reached <:+ ladder := .trans ⟨gap, hgap⟩ hp
        obtain ⟨t', ht'⟩ := hall.suffix hnext
        cases ht' with
        | there hlower hthere' =>
            cases hlower.unique hraised hs
            exact ih _ hnext (.there hraised hthere') hgap
        | @made _ _ _ dir name hlower hvacant =>
            cases hlower.unique hraised hs
            have hmade := hvacant.made (hraised.sound hs)
            have hvacant' : s.Vacant next dir name :=
              hvacant.mono hkeep (hworking hraised) ((hsame _).none_iff.mp hmade.2.2.2)
            obtain ⟨hsound, -, hdir, -⟩ := hvacant'.made sound
            cases gap with
            | nil =>
                -- the next rung is the one asked for
                cases hgap
                refine .inr (.inl ⟨dir, name, hvacant', hsound, working, _, _, hnext,
                  .made hraised hvacant, fun l => ?_⟩)
                by_cases hl : l = name :: dir
                · subst hl
                  unfold Disk.SameAt
                  rw [get?_put_self, get?_put_self]
                  exact .some (.inr ⟨rfl, rfl⟩)
                · exact ((sameAt_put hmade.2.2.1 hl).symm.trans (hsame l)).trans
                    (sameAt_put hdir hl)
            | cons first rest =>
                have hmem : next ∈ lower := by
                  have htail := (List.cons.inj hgap).2
                  rw [← htail]
                  simp
                exact .inr (.inr ⟨next, hmem, dir, name, hvacant'⟩)

end Stage

end Store

end TemplateCache
