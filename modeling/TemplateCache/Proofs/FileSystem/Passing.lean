import TemplateCache.Proofs.FileSystem.Change

/-!
# Links on the way

A path may lead through a link that is itself an entry of the directory it leads to: `/d/in/..` with
a link `in` to some directory below `/d`. Who replaces or removes that entry cuts the way behind
itself. `FileSystem.Clear` excludes this. A path reaches what it reaches whatever becomes of links
that it does not come to (`Reaches.of_uncrossed`, `follow_of_uncrossed`), and it comes to no others
as long as no new way is opened (`Crosses.mono_back`).

Whoever works in a directory gives it a new time. `FileSystem.Untouched` says that nothing else is
different.
-/

namespace TemplateCache

namespace Disk

/-- A walk from a place comes to a link at a location, however many links it has to follow. -/
inductive Crosses (d : Disk) (l : Location) : Place → List Segment → Prop where
  | link {dir : Location} {n : Name} {rest : List Segment} {target : Path} {t : Moment} :
      l = n :: dir → d.get? l = some (.link target t) →
      Crosses d l (.inside dir) (.name n :: rest)
  | here {place : Place} {rest : List Segment} :
      Crosses d l place rest → Crosses d l place (.here :: rest)
  | up {place : Place} {rest : List Segment} :
      Crosses d l place.above rest → Crosses d l place (.up :: rest)
  | into {dir : Location} {n : Name} {rest : List Segment} {t : Moment} :
      d.get? (n :: dir) = some (.directory t) → Crosses d l (.inside (n :: dir)) rest →
      Crosses d l (.inside dir) (.name n :: rest)
  | through {dir : Location} {n : Name} {rest : List Segment} {target : Path} {t : Moment} :
      d.get? (n :: dir) = some (.link target t) →
      Crosses d l (Place.start (.inside dir) target) (target.strictSegments ++ rest) →
      Crosses d l (.inside dir) (.name n :: rest)

/-- A walk comes to its links on every disk that has the directories and links of this one. -/
theorem Crosses.mono {d d' : Disk} (hk : KeepsWays d d') {l : Location} {place : Place}
    {segments : List Segment} (h : d.Crosses l place segments) : d'.Crosses l place segments := by
  induction h with
  | link hl hlink => exact .link hl (hk.link hlink)
  | here _ ih => exact .here ih
  | up _ ih => exact .up ih
  | into hdir _ ih =>
      obtain ⟨t', hdir'⟩ := hk.directory hdir
      exact .into hdir' ih
  | through hlink _ ih => exact .through (hk.link hlink) ih

theorem Crosses.get? {d : Disk} {l : Location} {place : Place} {segments : List Segment}
    (h : d.Crosses l place segments) : ∃ target t, d.get? l = some (.link target t) := by
  induction h with
  | link _ hlink => exact ⟨_, _, hlink⟩
  | here _ ih => exact ih
  | up _ ih => exact ih
  | into _ _ ih => exact ih
  | through _ _ ih => exact ih

/-- To stay at the end is to come to no more links. -/
theorem Crosses.of_append_here {d : Disk} {l : Location} {place : Place} {segments : List Segment}
    (h : d.Crosses l place (segments ++ [.here])) : d.Crosses l place segments := by
  generalize hwhole : segments ++ [.here] = whole at h
  induction h generalizing segments with
  | link hl hlink =>
      obtain ⟨rfl, -⟩ | ⟨more, rfl, -⟩ := List.append_eq_cons_iff.mp hwhole
      · simp at hwhole
      · exact .link hl hlink
  | here hrest ih =>
      obtain ⟨rfl, hnil⟩ | ⟨more, rfl, rfl⟩ := List.append_eq_cons_iff.mp hwhole
      · cases hnil
        cases hrest
      · exact .here (ih rfl)
  | up _ ih =>
      obtain ⟨rfl, hnil⟩ | ⟨more, rfl, rfl⟩ := List.append_eq_cons_iff.mp hwhole
      · simp at hnil
      · exact .up (ih rfl)
  | into hdir _ ih =>
      obtain ⟨rfl, hnil⟩ | ⟨more, rfl, rfl⟩ := List.append_eq_cons_iff.mp hwhole
      · simp at hnil
      · exact .into hdir (ih rfl)
  | through hlink _ ih =>
      obtain ⟨rfl, hnil⟩ | ⟨more, rfl, rfl⟩ := List.append_eq_cons_iff.mp hwhole
      · simp at hnil
      · exact .through hlink (ih (List.append_assoc ..))

theorem Crosses.of_strictSegments {d : Disk} {l : Location} {place : Place} {p : Path}
    (h : d.Crosses l place p.strictSegments) : d.Crosses l place p.segments := by
  unfold Path.strictSegments at h
  split at h
  · exact h.of_append_here
  · exact h

/-- Of the links only those count that the way comes to. -/
theorem Leads.of_crossed {d d' : Disk} {k j : Nat} {place goal : Place} {segments : List Segment}
    (h : d.Leads k place segments j goal)
    (hdirs : ∀ l t, d.get? l = some (.directory t) → ∃ t', d'.get? l = some (.directory t'))
    (hlinks : ∀ l target t, d.Crosses l place segments → d.get? l = some (.link target t) →
      d'.get? l = some (.link target t)) : d'.Leads k place segments j goal := by
  induction h with
  | stay => exact .stay
  | here _ ih => exact .here (ih fun l target t hl => hlinks l target t (.here hl))
  | up _ ih => exact .up (ih fun l target t hl => hlinks l target t (.up hl))
  | into hlen hdir _ ih =>
      obtain ⟨t', hdir'⟩ := hdirs _ _ hdir
      exact .into hlen hdir' (ih fun l target t hl => hlinks l target t (.into hdir hl))
  | through hlen hlink _ ih =>
      refine .through hlen (hlinks _ _ _ (.link rfl hlink) hlink) (ih fun l target t hl => ?_)
      exact hlinks l target t (.through hlink hl)

/-- A walk to a node ends at whatever replaces it that cannot be passed. -/
theorem Ends.replaced {d d' : Disk} {k : Nat} {place : Place} {segments : List Segment}
    {l : Location} {n n' : Node} (h : d.Ends .follow k place segments (.node l n))
    (hdirs : ∀ l t, d.get? l = some (.directory t) → ∃ t', d'.get? l = some (.directory t'))
    (hlinks : ∀ l target t, d.Crosses l place segments → d.get? l = some (.link target t) →
      d'.get? l = some (.link target t))
    (hn' : d'.get? l = some n') (hleaf' : n'.leadsOn = false) :
    d'.Ends .follow k place segments (.node l n') := by
  have hspell : ∀ {dir : Location} {name : Name} {rest : List Segment},
      d.unspellable .follow dir name rest = false → d'.unspellable .follow dir name rest = false :=
    fun h => unspellable_eq_false (by simp) (length_le_of_unspellable h)
  generalize hspot : Spot.node l n = spot at h
  induction h with
  | node _ => cases hspot; exact .node hn'
  | removed => cases hspot
  | here _ ih => exact .here (ih (fun l target t hl => hlinks l target t (.here hl)) hspot)
  | up _ ih => exact .up (ih (fun l target t hl => hlinks l target t (.up hl)) hspot)
  | vacant _ _ => cases hspot
  | into hlen hdir _ ih =>
      obtain ⟨t', hdir'⟩ := hdirs _ _ hdir
      exact .into (hspell hlen) hdir'
        (ih (fun l target t hl => hlinks l target t (.into hdir hl)) hspot)
  | through hlen hlink hend _ ih =>
      refine .through (hspell hlen) (hlinks _ _ _ (.link rfl hlink) hlink) hend
        (ih (fun l target t hl => hlinks l target t (.through hlink hl)) hspot)
  | link _ _ hentry => cases hentry
  | leaf hlen _ _ => cases hspot; exact .leaf (hspell hlen) hn' hleaf'

/-- The links that may still be followed become fewer. -/
theorem Leads.le {d : Disk} {k j : Nat} {place goal : Place} {segments : List Segment}
    (h : d.Leads k place segments j goal) : j ≤ k := by
  induction h with
  | stay => exact Nat.le_refl _
  | here _ ih => exact ih
  | up _ ih => exact ih
  | into _ _ _ ih => exact ih
  | through _ _ _ ih => exact Nat.le_succ_of_le ih

/-- A way on which no link is followed comes to none. -/
theorem Leads.not_crosses {d : Disk} {k j : Nat} {place goal : Place} {segments : List Segment}
    (h : d.Leads k place segments j goal) (hj : j = k) (l : Location) :
    ¬d.Crosses l place segments := by
  induction h with
  | stay => exact fun hcrosses => by cases hcrosses
  | here _ ih =>
      rintro ⟨⟩
      exact ih hj ‹_›
  | up _ ih =>
      rintro ⟨⟩
      exact ih hj ‹_›
  | into _ hdir _ ih =>
      intro hcrosses
      cases hcrosses with
      | link hl hlink =>
          rw [hl, hdir] at hlink
          cases hlink
      | into _ hrest => exact ih hj hrest
      | through hlink _ =>
          rw [hdir] at hlink
          cases hlink
  | through _ _ hrest _ =>
      have hle := hrest.le
      omega

end Disk

namespace FileSystem

variable {s s' : FileSystem} {p : Path} {l : Location}

/-- The way of a path comes to a link at a location. -/
def Crosses (s : FileSystem) (p : Path) (l : Location) : Prop :=
  s.disk.Crosses l (s.workingDir.start p) p.segments

/-- No entry of the directory that a path reaches is a link on the way there. -/
def Clear (s : FileSystem) (p : Path) : Prop :=
  ∀ l, s.Reaches p l → ∀ name, ¬s.Crosses p (name :: l)

/-- A path reaches its directory also where something is different that is no directory and no link
on the way. -/
theorem Reaches.of_uncrossed (hr : s.Reaches p l) (hworking : s'.workingDir = s.workingDir)
    (h : ∀ l', Disk.SameAt s.disk s'.disk l' ∨
      (∀ t, s.disk.get? l' ≠ some (.directory t)) ∧ ¬s.Crosses p l') : s'.Reaches p l := by
  obtain ⟨j, hway⟩ := hr
  refine ⟨j, hworking ▸ hway.of_crossed ?_ ?_⟩
  · intro l' t ht
    rcases h l' with hsame | ⟨hnot, -⟩
    · exact hsame.directory ht
    · exact absurd ht (hnot t)
  · intro l' target t hcrosses hlink
    rcases h l' with hsame | ⟨-, hnot⟩
    · exact hsame.eq_some hlink rfl
    · exact absurd hcrosses hnot

/-- So does a path to a node, whatever node that no way leads on from replaces it. -/
theorem follow_of_uncrossed {n n' : Node} (h : s.follow p = .ok (.node l n))
    (hworking : s'.workingDir = s.workingDir) (hn' : s'.disk.get? l = some n')
    (hleaf' : n'.leadsOn = false)
    (hways : ∀ l', Disk.SameAt s.disk s'.disk l' ∨
      (∀ t, s.disk.get? l' ≠ some (.directory t)) ∧ ¬s.Crosses p l') :
    s'.follow p = .ok (.node l n') := by
  obtain ⟨hcheck, hends⟩ := follow_eq_ok_iff.mp h
  refine follow_eq_ok_iff.mpr ⟨hcheck, hworking ▸ hends.replaced ?_ ?_ hn' hleaf'⟩
  · intro l' t ht
    rcases hways l' with hsame | ⟨hnot, -⟩
    · exact hsame.directory ht
    · exact absurd ht (hnot t)
  · intro l' target t hcrosses hlink
    rcases hways l' with hsame | ⟨-, hnot⟩
    · exact hsame.eq_some hlink rfl
    · exact absurd hcrosses.of_strictSegments hnot

/-- Where no way was opened, none comes to a link that it did not come to. -/
theorem Crosses.mono_back (hk : Disk.KeepsWays s'.disk s.disk)
    (hworking : s'.workingDir = s.workingDir) (h : s'.Crosses p l) : s.Crosses p l := by
  have hback := Disk.Crosses.mono hk h
  rw [hworking] at hback
  exact hback

theorem Crosses.link (h : s.Crosses p l) : ∃ target t, s.disk.get? l = some (.link target t) :=
  Disk.Crosses.get? h

/-- Where the way to the directory goes through directories only, no entry is on it. -/
theorem clear_of_leads {k : Nat} {goal : Place}
    (h : s.disk.Leads k (s.workingDir.start p) p.segments k goal) : s.Clear p :=
  fun _ _ name => h.not_crosses rfl (name :: _)

/-! ## Directories that were worked in -/

/-- What stood at a location is there still, to the last byte, or it is the directory that a path
reaches and has the time of now. -/
def Untouched (p : Path) (s s' : FileSystem) (l : Location) : Prop :=
  s'.disk.get? l = s.disk.get? l ∨
    s.Reaches p l ∧ s'.disk.get? l = some (.directory s.now)

theorem Untouched.sameAt (hs : s.Sound) (h : Untouched p s s' l) :
    Disk.SameAt s.disk s'.disk l := by
  rcases h with hsame | ⟨hr, hdir⟩
  · exact .of_eq hsame
  · obtain ⟨t, ht⟩ := hr.directory hs
    unfold Disk.SameAt
    rw [ht, hdir]
    exact .some (.inr ⟨rfl, rfl⟩)

/-- The entries of the directory are the same to the last byte. -/
theorem Untouched.entry {name : Name} (hr : s.Reaches p l) (h : Untouched p s s' (name :: l)) :
    s'.disk.get? (name :: l) = s.disk.get? (name :: l) := by
  rcases h with hsame | ⟨hr', -⟩
  · exact hsame
  · exact absurd (hr.unique hr') (Disk.ne_cons name l)

theorem untouched_of_directory (hs : s.Sound) (hr : s.Reaches p l)
    (h : s'.disk.get? l = (s.disk.get? l).map (Node.withModified s.now)) : Untouched p s s' l := by
  obtain ⟨t, ht⟩ := hr.directory hs
  refine .inr ⟨hr, ?_⟩
  rw [h, ht]
  rfl

end FileSystem

end TemplateCache
