import TemplateCache.Proofs.Path.Components

/-!
# Paths read without a look at files

Read by its text alone, a path is what its components come to one after another: a name goes down,
and `..` takes back the last name. A relative path without `..` only goes down, so set after a path
it stays below what that one comes to, however the two are spelled. Main statement: `below_join`.
-/

namespace TemplateCache.Path

/-! ## Setting a path after another -/

theorem isAbsolute_join {p : Path} (h : p.isAbsolute = true) (q : Path) :
    (p.join q).isAbsolute = true := by
  obtain ⟨bytes⟩ := p
  cases bytes with
  | nil => cases h
  | cons b rest =>
      unfold join
      split
      · assumption
      · split
        · exact h
        · exact h

theorem isEmpty_join (p : Path) {q : Path} (h : q.isEmpty = false) :
    (p.join q).isEmpty = false := by
  unfold isEmpty at h ⊢
  rw [List.isEmpty_eq_false_iff] at h ⊢
  unfold join
  split
  · exact h
  · split <;> simp [h]

/-- What a relative path says after another: all that it says by itself, but for a leading `.` that
says nothing there. -/
theorem components_join_relative (p : Path) {q : Path} (h : q.isAbsolute = false) :
    ∃ below, (p.join q).components = p.components ++ below ∧ below.Sublist q.components ∧
      below.filter (· ≠ .here) = q.components.filter (· ≠ .here) := by
  by_cases hp : p.bytes = []
  · have hjoin : p.join q = q := by
      unfold join
      rw [if_neg (by simp [h]), if_pos (by simp [isEmpty, hp]), hp, List.nil_append]
    have hempty : p.components = [] := by
      obtain ⟨bytes⟩ := p
      cases hp
      decide
    exact ⟨q.components, by rw [hjoin, hempty, List.nil_append], List.Sublist.refl _, rfl⟩
  · refine ⟨_, components_join hp h, List.filter_sublist, ?_⟩
    rw [List.filter_filter]
    simp

/-- A relative path set after another begins with it. -/
theorem startsWith_join (p : Path) {q : Path} (h : q.isAbsolute = false) :
    (p.join q).startsWith p = true := by
  obtain ⟨below, hjoin, -⟩ := components_join_relative p h
  exact startsWith_of_eq_append hjoin

/-! ## Going down and up -/

/-- Where a component leads from what was read so far. The root is its own parent, and a relative
path that goes up from where it starts keeps its `..`. -/
def Component.lead (place : List Component) : Component → List Component
  | .root => [.root]
  | .here => place
  | .up =>
      match place.getLast? with
      | some (.name _) => place.dropLast
      | some .root => place
      | _ => place ++ [.up]
  | .name n => place ++ [.name n]

/-- What some components come to. -/
def descend (parts : List Component) : List Component := parts.foldl Component.lead []

/-- Without a root or `..` it only goes down. -/
theorem descend_isPrefix (front : List Component) {below : List Component}
    (hroot : .root ∉ below) (hup : .up ∉ below) : descend front <+: descend (front ++ below) := by
  unfold descend
  rw [List.foldl_append]
  generalize front.foldl Component.lead [] = place
  induction below generalizing place with
  | nil => exact List.prefix_rfl
  | cons part rest ih =>
      rw [List.mem_cons, not_or] at hroot hup
      rw [List.foldl_cons]
      cases part with
      | root => exact absurd rfl hroot.1
      | up => exact absurd rfl hup.1
      | here => exact ih hroot.2 hup.2 place
      | name n => exact (List.prefix_append place [.name n]).trans (ih hroot.2 hup.2 _)

/-! ## Staying below -/

/-- A path says what another says and then only what a third one adds, and none of this leads
anywhere but down. -/
structure Below (base more p : Path) : Prop where
  added : ∃ below, p.components = base.components ++ below ∧ below.Sublist more.components ∧
    below.filter (· ≠ .here) = more.components.filter (· ≠ .here) ∧ .root ∉ below ∧ .up ∉ below
  startsWith : p.startsWith base = true
  /-- On the way from the base to its end a path is never above the base. -/
  descends : ∀ front, base.components <+: front → front <+: p.components →
    descend base.components <+: descend front

/-- A relative path without `..` stays below whatever it is set after. -/
theorem below_join (base : Path) {more : Path} (hrel : more.isAbsolute = false)
    (hup : .up ∉ more.components) : Below base more (base.join more) := by
  obtain ⟨below, hjoin, hsub, hsame⟩ := components_join_relative base hrel
  have hroot' : .root ∉ below := fun h => root_not_mem_components hrel (hsub.subset h)
  have hup' : .up ∉ below := fun h => hup (hsub.subset h)
  refine ⟨⟨below, hjoin, hsub, hsame, hroot', hup'⟩, startsWith_join base hrel, ?_⟩
  rintro front ⟨down, rfl⟩ hfront
  rw [hjoin] at hfront
  have hdown := ((List.prefix_append_right_inj _).mp hfront).subset
  exact descend_isPrefix _ (fun h => hroot' (hdown h)) fun h => hup' (hdown h)

end TemplateCache.Path
