import TemplateCache.Proofs.Path.Segments

/-!
# The ways that walks take

`Disk.walk` computes where a path ends. Here its successful walks are described by two relations
that say which nodes they used, so that facts about paths become inductions on the way taken.

* `Disk.Ends` is a whole walk, with the node, vacancy or removed directory at its end.
* `Disk.Leads` is the part of a walk that is not its last step: every segment leads on, to a
  directory or through a link.

A walk depends on nothing but the directories and links that it passes. Hence the two main
statements: `Leads.mono` (what passed on one disk passes on every disk that has these directories
and links) and `ends_append_name` (a walk to a name is a way to its directory and one last step).
-/

namespace TemplateCache

namespace Node

/-- A node that a walk can pass. -/
def leadsOn : Node → Bool
  | .directory _ => true
  | .link _ _ => true
  | _ => false

/-- The same node, the time of a directory aside. -/
def Like (n m : Node) : Prop := n = m ∨ (n.isDirectory = true ∧ m.isDirectory = true)

theorem Like.refl (n : Node) : Like n n := .inl rfl

theorem Like.symm {n m : Node} (h : Like n m) : Like m n := by
  rcases h with h | ⟨hn, hm⟩
  · exact .inl h.symm
  · exact .inr ⟨hm, hn⟩

theorem Like.trans {n m o : Node} (h : Like n m) (h' : Like m o) : Like n o := by
  rcases h with rfl | ⟨hn, hm⟩
  · exact h'
  · rcases h' with rfl | ⟨_, ho⟩
    · exact .inr ⟨hn, hm⟩
    · exact .inr ⟨hn, ho⟩

theorem isDirectory_iff {n : Node} : n.isDirectory = true ↔ ∃ t, n = .directory t := by
  cases n <;> simp [isDirectory]

theorem isDirectory_eq_false {n : Node} (h : n.leadsOn = false) : n.isDirectory = false := by
  cases n with
  | directory t => cases h
  | file data t mode => rfl
  | link target t => rfl
  | device t => rfl

theorem Like.isDirectory_eq {n m : Node} (h : Like n m) : n.isDirectory = m.isDirectory := by
  rcases h with rfl | ⟨hn, hm⟩
  · rfl
  · rw [hn, hm]

theorem Like.directory {t : Moment} {m : Node} (h : Like (.directory t) m) :
    ∃ t', m = .directory t' := by
  rw [← isDirectory_iff, ← h.isDirectory_eq]
  rfl

theorem Like.eq_of_not_directory {n m : Node} (h : Like n m) (hn : n.isDirectory = false) :
    n = m := by
  rcases h with h | ⟨h, _⟩
  · exact h
  · rw [hn] at h
    exact absurd h (by simp)

end Node

namespace Disk

/-! ## Whole walks -/

/-- A walk from a place, with so many links left to follow, ends at a spot. -/
inductive Ends (d : Disk) (m : Manner) : Nat → Place → List Segment → Spot → Prop where
  | node {k : Nat} {l : Location} {n : Node} :
      d.get? l = some n → Ends d m k (.inside l) [] (.node l n)
  | removed {k : Nat} {base : Location} {levels : Nat} :
      Ends d m k (.removed base levels) [] (.removed base levels)
  | here {k : Nat} {place : Place} {rest : List Segment} {spot : Spot} :
      Ends d m k place rest spot → Ends d m k place (.here :: rest) spot
  | up {k : Nat} {place : Place} {rest : List Segment} {spot : Spot} :
      Ends d m k place.above rest spot → Ends d m k place (.up :: rest) spot
  | vacant {k : Nat} {dir : Location} {n : Name} :
      d.unspellable m dir n [] = false → d.get? (n :: dir) = none →
      Ends d m k (.inside dir) [.name n] (.vacant dir n)
  | into {k : Nat} {dir : Location} {n : Name} {rest : List Segment} {spot : Spot} {t : Moment} :
      d.unspellable m dir n rest = false → d.get? (n :: dir) = some (.directory t) →
      Ends d m k (.inside (n :: dir)) rest spot →
      Ends d m k (.inside dir) (.name n :: rest) spot
  | through {k : Nat} {dir : Location} {n : Name} {rest : List Segment} {spot : Spot}
      {target : Path} {t : Moment} :
      d.unspellable m dir n rest = false → d.get? (n :: dir) = some (.link target t) →
      ¬(rest = [] ∧ m = .entry) →
      Ends d m k (Place.start (.inside dir) target) (target.strictSegments ++ rest) spot →
      Ends d m (k + 1) (.inside dir) (.name n :: rest) spot
  | link {k : Nat} {dir : Location} {n : Name} {target : Path} {t : Moment} :
      d.unspellable m dir n [] = false → d.get? (n :: dir) = some (.link target t) →
      m = .entry → Ends d m k (.inside dir) [.name n] (.node (n :: dir) (.link target t))
  | leaf {k : Nat} {dir : Location} {n : Name} {node : Node} :
      d.unspellable m dir n [] = false → d.get? (n :: dir) = some node → node.leadsOn = false →
      Ends d m k (.inside dir) [.name n] (.node (n :: dir) node)

/-- What goes on after a link, with so many links left. -/
def onward (d : Disk) (m : Manner) : Nat → Place → List Segment → Except SystemError Spot
  | 0, _, _ => .error .tooManyLinks
  | k + 1, place, segments => d.walk m k place segments

theorem walk_eq_steps (d : Disk) (m : Manner) (k : Nat) (place : Place)
    (segments : List Segment) :
    d.walk m k place segments = d.steps m (d.onward m k) place segments := by
  cases k with
  | zero => rfl
  | succ k => rfl

theorem ends_of_spot {d : Disk} {m : Manner} {k : Nat} {place : Place} {spot : Spot}
    (h : d.spot place = .ok spot) : d.Ends m k place [] spot := by
  cases place with
  | removed base levels => cases h; exact .removed
  | inside l =>
      simp only [Disk.spot] at h
      split at h
      · rename_i n hn
        cases h
        exact .node hn
      · exact absurd h (by simp)

/-- A step to a name that succeeds is one that the relation describes, if what comes after it is,
be it on the way or behind a link. -/
theorem ends_of_steps_name {d : Disk} {m : Manner} {k : Nat} {dir : Location} {n : Name}
    {rest : List Segment} {spot : Spot}
    (honward : ∀ place segments, d.onward m k place segments = .ok spot →
      ∃ j, k = j + 1 ∧ d.Ends m j place segments spot)
    (hrest : ∀ place, d.steps m (d.onward m k) place rest = .ok spot → d.Ends m k place rest spot)
    (h : d.steps m (d.onward m k) (.inside dir) (.name n :: rest) = .ok spot) :
    d.Ends m k (.inside dir) (.name n :: rest) spot := by
  rw [steps] at h
  split at h
  · exact absurd h (by simp)
  · rename_i hspell
    have hspell : d.unspellable m dir n rest = false := by simpa using hspell
    split at h
    · rename_i hnone
      split at h
      · rename_i hlast
        cases h
        subst hlast
        exact .vacant hspell hnone
      · exact absurd h (by simp)
    · rename_i t hdir
      exact .into hspell hdir (hrest _ h)
    · rename_i target t hlink
      split at h
      · rename_i hend
        cases h
        obtain ⟨hlast, hm⟩ := hend
        subst hlast
        exact .link hspell hlink hm
      · rename_i hend
        -- a link costs one of the links left, so `honward` and not `hrest` speaks of it
        obtain ⟨j, hj, hends⟩ := honward _ _ h
        subst hj
        exact .through hspell hlink hend hends
    · rename_i node hdir hlink hnode
      split at h
      · rename_i hlast
        cases h
        subst hlast
        refine .leaf hspell hnode ?_
        cases node with
        | directory t => exact absurd rfl (hdir t)
        | link target t => exact absurd rfl (hlink target t)
        | file data t mode => rfl
        | device t => rfl
      · exact absurd h (by simp)

theorem ends_of_steps {d : Disk} {m : Manner} {k : Nat}
    (honward : ∀ place segments spot, d.onward m k place segments = .ok spot →
      ∃ j, k = j + 1 ∧ d.Ends m j place segments spot) :
    ∀ (segments : List Segment) {place : Place} {spot : Spot},
      d.steps m (d.onward m k) place segments = .ok spot → d.Ends m k place segments spot := by
  intro segments
  induction segments with
  | nil => exact fun h => ends_of_spot (by simpa only [steps] using h)
  | cons part rest ih =>
      intro place spot h
      cases part with
      | here => exact .here (ih (by simpa [steps] using h))
      | up => exact .up (ih (by simpa [steps] using h))
      | name n =>
          cases place with
          | removed base levels => exact absurd h (by simp [steps])
          | inside dir =>
              exact ends_of_steps_name (fun _ _ => honward _ _ _) (fun _ => ih) h

/-- The walks that succeed are those that the relation describes. -/
theorem walk_eq_ok_iff {d : Disk} {m : Manner} {k : Nat} {place : Place}
    {segments : List Segment} {spot : Spot} :
    d.walk m k place segments = .ok spot ↔ d.Ends m k place segments spot := by
  constructor
  · intro h
    -- the segments are an induction inside this one, which is on the links left
    induction k generalizing place segments spot with
    | zero =>
        rw [walk_eq_steps] at h
        refine ends_of_steps ?_ _ h
        intro _ _ _ honward
        exact absurd honward (by simp [onward])
    | succ k ih =>
        rw [walk_eq_steps] at h
        refine ends_of_steps ?_ _ h
        intro _ _ _ honward
        exact ⟨k, rfl, ih honward⟩
  · intro h
    induction h with
    | node hn => rw [walk_eq_steps]; simp [steps, Disk.spot, hn]
    | removed => rw [walk_eq_steps]; simp [steps, Disk.spot]
    | here _ ih => rw [walk_eq_steps] at ih ⊢; simpa [steps] using ih
    | up _ ih => rw [walk_eq_steps] at ih ⊢; simpa [steps] using ih
    | vacant hspell hnone => rw [walk_eq_steps]; simp [steps, hspell, hnone]
    | into hspell hdir _ ih => rw [walk_eq_steps] at ih ⊢; simpa [steps, hspell, hdir] using ih
    | through hspell hlink hend _ ih =>
        rw [walk_eq_steps]
        simp only [steps, hspell, hlink, if_neg hend, Bool.false_eq_true, if_false]
        exact ih
    | link hspell hlink hm =>
        subst hm
        rw [walk_eq_steps]
        simp [steps, hspell, hlink]
    | @leaf _ dir n node hspell hnode hleaf =>
        rw [walk_eq_steps]
        cases node with
        | directory t => exact absurd hleaf (by simp [Node.leadsOn])
        | link target t => exact absurd hleaf (by simp [Node.leadsOn])
        | file data t mode => simp [steps, hspell, hnode]
        | device t => simp [steps, hspell, hnode]

/-! ## The way to a place -/

/-- A walk from a place with so many links left, all of whose segments lead on, comes to another
place with so many links left. -/
inductive Leads (d : Disk) : Nat → Place → List Segment → Nat → Place → Prop where
  | stay {k : Nat} {place : Place} : Leads d k place [] k place
  | here {k j : Nat} {place goal : Place} {rest : List Segment} :
      Leads d k place rest j goal → Leads d k place (.here :: rest) j goal
  | up {k j : Nat} {place goal : Place} {rest : List Segment} :
      Leads d k place.above rest j goal → Leads d k place (.up :: rest) j goal
  | into {k j : Nat} {dir : Location} {n : Name} {rest : List Segment} {goal : Place}
      {t : Moment} :
      n.length ≤ nameLimit → d.get? (n :: dir) = some (.directory t) →
      Leads d k (.inside (n :: dir)) rest j goal →
      Leads d k (.inside dir) (.name n :: rest) j goal
  | through {k j : Nat} {dir : Location} {n : Name} {rest : List Segment} {goal : Place}
      {target : Path} {t : Moment} :
      n.length ≤ nameLimit → d.get? (n :: dir) = some (.link target t) →
      Leads d k (Place.start (.inside dir) target) (target.strictSegments ++ rest) j goal →
      Leads d (k + 1) (.inside dir) (.name n :: rest) j goal

theorem length_le_of_unspellable {d : Disk} {m : Manner} {dir : Location} {n : Name}
    {rest : List Segment} (h : d.unspellable m dir n rest = false) : n.length ≤ nameLimit := by
  simp only [unspellable, Bool.or_eq_false_iff, decide_eq_false_iff_not] at h
  exact Nat.le_of_not_lt h.1

/-- Unless everything is spelled from the root, only the length of a name counts. -/
theorem unspellable_eq {d : Disk} {m : Manner} (hm : m ≠ .spell) (dir : Location) (n : Name)
    (rest : List Segment) : d.unspellable m dir n rest = decide (nameLimit < n.length) := by
  simp [unspellable, hm]

theorem unspellable_eq_false {d : Disk} {m : Manner} (hm : m ≠ .spell) {dir : Location}
    {n : Name} {rest : List Segment} (h : n.length ≤ nameLimit) :
    d.unspellable m dir n rest = false := by
  rw [unspellable_eq hm]
  exact decide_eq_false (Nat.not_lt.mpr h)

namespace Leads

/-- There is no choice on a way. -/
theorem unique {d : Disk} {k j j' : Nat} {place goal goal' : Place} {segments : List Segment}
    (h : d.Leads k place segments j goal) (h' : d.Leads k place segments j' goal') :
    j = j' ∧ goal = goal' := by
  induction h with
  | stay => cases h'; exact ⟨rfl, rfl⟩
  | here _ ih => cases h' with | here h' => exact ih h'
  | up _ ih => cases h' with | up h' => exact ih h'
  | into _ hdir _ ih =>
      cases h' with
      | into _ hdir' h' => exact ih h'
      | through _ hlink _ => rw [hdir] at hlink; exact absurd hlink (by simp)
  | through _ hlink _ ih =>
      cases h' with
      | into _ hdir _ => rw [hdir] at hlink; exact absurd hlink (by simp)
      | through _ hlink' h' =>
          rw [hlink] at hlink'
          injection hlink' with hlink'
          injection hlink' with htarget _
          subst htarget
          exact ih h'

theorem trans {d : Disk} {k j i : Nat} {place mid goal : Place} {a b : List Segment}
    (h : d.Leads k place a j mid) (h' : d.Leads j mid b i goal) :
    d.Leads k place (a ++ b) i goal := by
  induction h with
  | stay => exact h'
  | here _ ih => exact .here (ih h')
  | up _ ih => exact .up (ih h')
  | into hlen hdir _ ih => exact .into hlen hdir (ih h')
  | through hlen hlink _ ih =>
      have hrest := ih h'
      rw [List.append_assoc] at hrest
      exact .through hlen hlink hrest

/-- A way along two lists of segments passes the place between them. -/
theorem split {d : Disk} {k i : Nat} {place goal : Place} {a b : List Segment}
    (h : d.Leads k place (a ++ b) i goal) :
    ∃ j mid, d.Leads k place a j mid ∧ d.Leads j mid b i goal := by
  -- at a link its target comes in front of what is left, so the list alone is nothing to go by
  generalize hwhole : a ++ b = whole at h
  induction h generalizing a with
  | stay =>
      obtain ⟨rfl, rfl⟩ := List.append_eq_nil_iff.mp hwhole
      exact ⟨_, _, .stay, .stay⟩
  | here hrest ih =>
      obtain ⟨rfl, rfl⟩ | ⟨more, rfl, hmore⟩ := List.append_eq_cons_iff.mp hwhole
      · exact ⟨_, _, .stay, .here hrest⟩
      · obtain ⟨j, mid, hbefore, hafter⟩ := ih hmore.symm
        exact ⟨j, mid, .here hbefore, hafter⟩
  | up hrest ih =>
      obtain ⟨rfl, rfl⟩ | ⟨more, rfl, hmore⟩ := List.append_eq_cons_iff.mp hwhole
      · exact ⟨_, _, .stay, .up hrest⟩
      · obtain ⟨j, mid, hbefore, hafter⟩ := ih hmore.symm
        exact ⟨j, mid, .up hbefore, hafter⟩
  | into hlen hdir hrest ih =>
      obtain ⟨rfl, rfl⟩ | ⟨more, rfl, hmore⟩ := List.append_eq_cons_iff.mp hwhole
      · exact ⟨_, _, .stay, .into hlen hdir hrest⟩
      · obtain ⟨j, mid, hbefore, hafter⟩ := ih hmore.symm
        exact ⟨j, mid, .into hlen hdir hbefore, hafter⟩
  | through hlen hlink hrest ih =>
      obtain ⟨rfl, rfl⟩ | ⟨more, rfl, rfl⟩ := List.append_eq_cons_iff.mp hwhole
      · exact ⟨_, _, .stay, .through hlen hlink hrest⟩
      · obtain ⟨j, mid, hbefore, hafter⟩ := ih (List.append_assoc _ _ _)
        exact ⟨j, mid, .through hlen hlink hbefore, hafter⟩

/-- Staying where one is adds nothing to a way. -/
theorem append_here_iff {d : Disk} {k j : Nat} {place goal : Place} {segments : List Segment} :
    d.Leads k place (segments ++ [.here]) j goal ↔ d.Leads k place segments j goal := by
  constructor
  · intro h
    obtain ⟨_, _, hway, hlast⟩ := h.split
    cases hlast with
    | here hstay => cases hstay; exact hway
  · intro h
    exact h.trans (.here .stay)

end Leads

/-! ## The last step -/

/-- What a walk answers stands where it says. -/
theorem Ends.get? {d : Disk} {m : Manner} {k : Nat} {place : Place} {segments : List Segment}
    {l : Location} {n : Node} (h : d.Ends m k place segments (.node l n)) :
    d.get? l = some n := by
  generalize hspot : Spot.node l n = spot at h
  induction h with
  | node hn => cases hspot; exact hn
  | removed => cases hspot
  | here _ ih => exact ih hspot
  | up _ ih => exact ih hspot
  | vacant _ _ => cases hspot
  | into _ _ _ ih => exact ih hspot
  | through _ _ _ _ ih => exact ih hspot
  | link _ hlink _ => cases hspot; exact hlink
  | leaf _ hleaf _ => cases hspot; exact hleaf

theorem Leads.ends {d : Disk} {m : Manner} (hm : m ≠ .spell) {k j : Nat} {place goal : Place}
    {a b : List Segment} {spot : Spot} (hb : b ≠ [] ∨ m ≠ .entry)
    (h : d.Leads k place a j goal) (h' : d.Ends m j goal b spot) :
    d.Ends m k place (a ++ b) spot := by
  induction h with
  | stay => exact h'
  | here _ ih => exact .here (ih h')
  | up _ ih => exact .up (ih h')
  | into hlen hdir _ ih => exact .into (unspellable_eq_false hm hlen) hdir (ih h')
  | through hlen hlink _ ih =>
      have hrest := ih h'
      rw [List.append_assoc] at hrest
      refine .through (unspellable_eq_false hm hlen) hlink ?_ hrest
      -- an entry that is asked for last would not be followed
      rintro ⟨hnil, hentry⟩
      rcases hb with hb | hb
      · exact hb (List.append_eq_nil_iff.mp hnil).2
      · exact hb hentry

/-- What a walk finds after a way is what it finds from where that leads. -/
theorem Leads.walk_append {d : Disk} {m : Manner} (hm : m ≠ .spell) {k j : Nat}
    {place goal : Place} {a b : List Segment} (hb : b ≠ []) (h : d.Leads k place a j goal) :
    d.walk m k place (a ++ b) = d.walk m j goal b := by
  induction h with
  | stay => rfl
  | here _ ih =>
      rw [← ih, walk_eq_steps, walk_eq_steps]
      rfl
  | up _ ih =>
      rw [← ih, walk_eq_steps, walk_eq_steps]
      rfl
  | into hlen hdir _ ih =>
      rw [← ih, walk_eq_steps, walk_eq_steps]
      simp [steps, unspellable_eq_false hm hlen, hdir]
  | through hlen hlink _ ih =>
      rw [← ih, List.append_assoc, walk_eq_steps]
      simp [steps, unspellable_eq_false hm hlen, hlink, hb, onward]

/-- A name that is too long cannot be looked up. -/
theorem walk_of_long {d : Disk} {m : Manner} {k : Nat} {dir : Location} {n : Name}
    {rest : List Segment} (h : nameLimit < n.length) :
    d.walk m k (.inside dir) (.name n :: rest) = .error .tooLong := by
  rw [walk_eq_steps]
  simp [steps, unspellable, h]

/-- A walk that does not stop at a name before the end leads to the last part of it. -/
theorem Ends.split {d : Disk} {m : Manner} {k : Nat} {place : Place} {a : List Segment}
    {n : Name} {spot : Spot} (h : d.Ends m k place (a ++ [.name n]) spot) :
    ∃ j goal, d.Leads k place a j goal ∧ d.Ends m j goal [.name n] spot := by
  generalize hwhole : a ++ [.name n] = whole at h
  -- the name at the end is the only segment of a walk that has just one
  have hstop : ∀ {front : List Segment} {part : Segment}, front ++ [.name n] = [part] →
      front = [] ∧ Segment.name n = part := by
    intro front part hpart
    obtain ⟨hfront, hname⟩ | ⟨-, hnone⟩ := List.append_eq_singleton_iff.mp hpart
    · exact ⟨hfront, (List.cons.inj hname).1⟩
    · cases hnone
  induction h generalizing a with
  | node _ => exact absurd hwhole (by simp)
  | removed => exact absurd hwhole (by simp)
  | here _ ih =>
      obtain ⟨-, hpart⟩ | ⟨more, rfl, hmore⟩ := List.append_eq_cons_iff.mp hwhole
      · cases hpart
      · obtain ⟨j, goal, hway, hlast⟩ := ih hmore.symm
        exact ⟨j, goal, .here hway, hlast⟩
  | up _ ih =>
      obtain ⟨-, hpart⟩ | ⟨more, rfl, hmore⟩ := List.append_eq_cons_iff.mp hwhole
      · cases hpart
      · obtain ⟨j, goal, hway, hlast⟩ := ih hmore.symm
        exact ⟨j, goal, .up hway, hlast⟩
  | vacant hspell hnone =>
      obtain ⟨rfl, hpart⟩ := hstop hwhole
      cases hpart
      exact ⟨_, _, .stay, .vacant hspell hnone⟩
  | into hspell hdir hrest ih =>
      obtain ⟨rfl, hpart⟩ | ⟨more, rfl, hmore⟩ := List.append_eq_cons_iff.mp hwhole
      · cases hpart
        exact ⟨_, _, .stay, .into hspell hdir hrest⟩
      · obtain ⟨j, goal, hway, hlast⟩ := ih hmore.symm
        exact ⟨j, goal, .into (length_le_of_unspellable hspell) hdir hway, hlast⟩
  | through hspell hlink hend hrest ih =>
      obtain ⟨rfl, hpart⟩ | ⟨more, rfl, rfl⟩ := List.append_eq_cons_iff.mp hwhole
      · cases hpart
        exact ⟨_, _, .stay, .through hspell hlink hend hrest⟩
      · obtain ⟨j, goal, hway, hlast⟩ := ih (List.append_assoc _ _ _)
        exact ⟨j, goal, .through (length_le_of_unspellable hspell) hlink hway, hlast⟩
  | link hspell hlink hm =>
      obtain ⟨rfl, hpart⟩ := hstop hwhole
      cases hpart
      exact ⟨_, _, .stay, .link hspell hlink hm⟩
  | leaf hspell hnode hleaf =>
      obtain ⟨rfl, hpart⟩ := hstop hwhole
      cases hpart
      exact ⟨_, _, .stay, .leaf hspell hnode hleaf⟩

/-- A walk to a name is a way to its directory and one last step. -/
theorem ends_append_name {d : Disk} {m : Manner} (hm : m ≠ .spell) {k : Nat} {place : Place}
    {a : List Segment} {n : Name} {spot : Spot} :
    d.Ends m k place (a ++ [.name n]) spot ↔
      ∃ j goal, d.Leads k place a j goal ∧ d.Ends m j goal [.name n] spot := by
  constructor
  · exact Ends.split
  · rintro ⟨j, goal, hway, hlast⟩
    exact hway.ends hm (.inl (by simp)) hlast

/-- A walk that ends at a directory has come to it. -/
theorem Ends.leads {d : Disk} {m : Manner} {k : Nat} {place : Place} {segments : List Segment}
    {l : Location} {t : Moment} (h : d.Ends m k place segments (.node l (.directory t))) :
    ∃ j, d.Leads k place segments j (.inside l) := by
  generalize hspot : Spot.node l (.directory t) = spot at h
  induction h with
  | node _ => cases hspot; exact ⟨_, .stay⟩
  | removed => cases hspot
  | here _ ih => obtain ⟨j, hj⟩ := ih hspot; exact ⟨j, .here hj⟩
  | up _ ih => obtain ⟨j, hj⟩ := ih hspot; exact ⟨j, .up hj⟩
  | vacant _ _ => cases hspot
  | into hspell hdir _ ih =>
      obtain ⟨j, hj⟩ := ih hspot
      exact ⟨j, .into (length_le_of_unspellable hspell) hdir hj⟩
  | through hspell hlink _ _ ih =>
      obtain ⟨j, hj⟩ := ih hspot
      exact ⟨j, .through (length_le_of_unspellable hspell) hlink hj⟩
  | link _ _ _ => cases hspot
  | leaf _ _ hleaf => cases hspot; exact absurd hleaf (by simp [Node.leadsOn])

/-- The entry under a name in a directory is what stands there, be it nothing. -/
theorem ends_entry_name {d : Disk} {k : Nat} {dir : Location} {n : Name} {spot : Spot} :
    d.Ends .entry k (.inside dir) [.name n] spot ↔
      n.length ≤ nameLimit ∧
        ((d.get? (n :: dir) = none ∧ spot = .vacant dir n) ∨
          ∃ node, d.get? (n :: dir) = some node ∧ spot = .node (n :: dir) node) := by
  constructor
  · intro h
    cases h with
    | vacant hspell hnone => exact ⟨length_le_of_unspellable hspell, .inl ⟨hnone, rfl⟩⟩
    | into hspell hdir hrest =>
        cases hrest with
        | node hn => exact ⟨length_le_of_unspellable hspell, .inr ⟨_, hn, rfl⟩⟩
    | through _ _ hend _ => exact absurd ⟨rfl, rfl⟩ hend
    | link hspell hlink _ => exact ⟨length_le_of_unspellable hspell, .inr ⟨_, hlink, rfl⟩⟩
    | leaf hspell hnode _ => exact ⟨length_le_of_unspellable hspell, .inr ⟨_, hnode, rfl⟩⟩
  · rintro ⟨hlen, ⟨hnone, hspot⟩ | ⟨node, hnode, hspot⟩⟩
    · subst hspot
      exact .vacant (unspellable_eq_false (by simp) hlen) hnone
    · subst hspot
      have hspell : d.unspellable .entry dir n [] = false :=
        unspellable_eq_false (by simp) hlen
      cases node with
      | directory t => exact .into hspell hnode (.node hnode)
      | link target t => exact .link hspell hnode rfl
      | file data t mode => exact .leaf hspell hnode rfl
      | device t => exact .leaf hspell hnode rfl

/-- Spelling everything from the root only makes a walk fail more often. -/
theorem Ends.follow_of_spell {d : Disk} {k : Nat} {place : Place} {segments : List Segment}
    {spot : Spot} (h : d.Ends .spell k place segments spot) :
    d.Ends .follow k place segments spot := by
  have hlen : ∀ {dir : Location} {n : Name} {rest : List Segment},
      d.unspellable .spell dir n rest = false → d.unspellable .follow dir n rest = false :=
    fun hspell => unspellable_eq_false (by simp) (length_le_of_unspellable hspell)
  induction h with
  | node hn => exact .node hn
  | removed => exact .removed
  | here _ ih => exact .here ih
  | up _ ih => exact .up ih
  | vacant hspell hnone => exact .vacant (hlen hspell) hnone
  | into hspell hdir _ ih => exact .into (hlen hspell) hdir ih
  | through hspell hlink _ _ ih => exact .through (hlen hspell) hlink (by simp) ih
  | link _ _ hm => exact absurd hm (by simp)
  | leaf hspell hnode hleaf => exact .leaf (hlen hspell) hnode hleaf

/-! ## Ways on other disks -/

/-- Every directory and link of a disk is on the other as well. -/
def KeepsWays (d d' : Disk) : Prop :=
  ∀ l n, d.get? l = some n → n.leadsOn = true → ∃ n', d'.get? l = some n' ∧ n.Like n'

theorem leadsOn_of_like {n n' : Node} (h : n.Like n') : n.leadsOn = n'.leadsOn := by
  rcases h with rfl | ⟨hn, hn'⟩
  · rfl
  · obtain ⟨t, rfl⟩ := Node.isDirectory_iff.mp hn
    obtain ⟨t', rfl⟩ := Node.isDirectory_iff.mp hn'
    rfl

theorem KeepsWays.trans {d d' d'' : Disk} (h : KeepsWays d d') (h' : KeepsWays d' d'') :
    KeepsWays d d'' := by
  intro l n hn hleads
  obtain ⟨n', hn', hlike⟩ := h l n hn hleads
  obtain ⟨n'', hn'', hlike'⟩ := h' l n' hn' (leadsOn_of_like hlike ▸ hleads)
  exact ⟨n'', hn'', hlike.trans hlike'⟩

theorem KeepsWays.directory {d d' : Disk} (h : KeepsWays d d') {l : Location} {t : Moment}
    (hl : d.get? l = some (.directory t)) : ∃ t', d'.get? l = some (.directory t') := by
  obtain ⟨n', hn', hlike⟩ := h l _ hl rfl
  obtain ⟨t', rfl⟩ := hlike.directory
  exact ⟨t', hn'⟩

theorem KeepsWays.link {d d' : Disk} (h : KeepsWays d d') {l : Location} {target : Path}
    {t : Moment} (hl : d.get? l = some (.link target t)) :
    d'.get? l = some (.link target t) := by
  obtain ⟨n', hn', hlike⟩ := h l _ hl rfl
  rw [hn', ← hlike.eq_of_not_directory rfl]

/-- A way is one on every disk that has the directories and links of this one. -/
theorem Leads.mono {d d' : Disk} (hk : KeepsWays d d') {k j : Nat} {place goal : Place}
    {segments : List Segment} (h : d.Leads k place segments j goal) :
    d'.Leads k place segments j goal := by
  induction h with
  | stay => exact .stay
  | here _ ih => exact .here ih
  | up _ ih => exact .up ih
  | into hlen hdir _ ih =>
      obtain ⟨t', hdir'⟩ := hk.directory hdir
      exact .into hlen hdir' ih
  | through hlen hlink _ ih => exact .through hlen (hk.link hlink) ih

/-- Whether a name can be looked up does not depend on the time of a directory. -/
theorem unspellable_of_like {d d' : Disk} {m : Manner} {dir : Location} {name : Name}
    {rest : List Segment} {n n' : Node} (hn : d.get? (name :: dir) = some n)
    (hn' : d'.get? (name :: dir) = some n') (hlike : n.Like n') :
    d'.unspellable m dir name rest = d.unspellable m dir name rest := by
  have hspelling : d'.spelling (name :: dir) rest = d.spelling (name :: dir) rest := by
    unfold spelling
    rw [hn, hn']
    rcases hlike with rfl | ⟨hdir, hdir'⟩
    · rfl
    · obtain ⟨t, rfl⟩ := Node.isDirectory_iff.mp hdir
      obtain ⟨t', rfl⟩ := Node.isDirectory_iff.mp hdir'
      rfl
  unfold unspellable
  rw [hspelling]

/-- The same for a walk that ends at a node which is still there. -/
theorem Ends.mono {d d' : Disk} (hk : KeepsWays d d') {m : Manner} {k : Nat}
    {place : Place} {segments : List Segment} {l : Location} {n n' : Node}
    (h : d.Ends m k place segments (.node l n)) (hn' : d'.get? l = some n') (hlike : n.Like n') :
    d'.Ends m k place segments (.node l n') := by
  generalize hspot : Spot.node l n = spot at h
  induction h with
  | node _ => cases hspot; exact .node hn'
  | removed => cases hspot
  | here _ ih => exact .here (ih hspot)
  | up _ ih => exact .up (ih hspot)
  | vacant _ _ => cases hspot
  | into hlen hdir _ ih =>
      obtain ⟨t', hdir'⟩ := hk.directory hdir
      rw [← unspellable_of_like hdir hdir' (.inr ⟨rfl, rfl⟩)] at hlen
      exact .into hlen hdir' (ih hspot)
  | through hlen hlink hend _ ih =>
      rw [← unspellable_of_like hlink (hk.link hlink) (.refl _)] at hlen
      exact .through hlen (hk.link hlink) hend (ih hspot)
  | link hlen hlink hentry =>
      cases hspot
      rw [← unspellable_of_like hlink hn' hlike] at hlen
      rw [← hlike.eq_of_not_directory rfl] at hn' ⊢
      exact .link hlen hn' hentry
  | leaf hlen hnode hleaf =>
      cases hspot
      rw [← unspellable_of_like hnode hn' hlike] at hlen
      exact .leaf hlen hn' (leadsOn_of_like hlike ▸ hleaf)

end Disk

end TemplateCache
