import TemplateCache.Proofs.Path.Ancestors

/-!
# Components of paths that are put together

What a path says is its list of components. Here it is read off for the paths that the library puts
together: a name set after a directory, its parent, the absolute form of a path, and the path of a
location. A name adds one component and the parent takes it away again, so whatever is in a
directory's path, an entry's path says the same up to its last component. Main statements:
`parent?_join_name` and `components_absolute`.
-/

namespace TemplateCache

namespace Path

/-! ## Single steps -/

namespace Component

theorem IsStep.moves_eq {part : Component} (h : part.IsStep) : part.moves = true := by
  rcases h with rfl | ⟨n, rfl, -⟩
  · rfl
  · rfl

/-- A walk sees the difference between steps. -/
theorem IsStep.segment_inj {part other : Component} (h : part.IsStep) (h' : other.IsStep)
    (hsegment : part.segment = other.segment) : part = other := by
  rcases h with rfl | ⟨n, rfl, -⟩
  · rcases h' with rfl | ⟨m, rfl, -⟩
    · rfl
    · cases hsegment
  · rcases h' with rfl | ⟨m, rfl, -⟩
    · cases hsegment
    · cases hsegment
      rfl

/-- A step alone is a path that says just this. -/
theorem IsStep.components_eq {part : Component} (h : part.IsStep) :
    components ⟨part.bytes⟩ = [part] := by
  rcases h with rfl | ⟨n, rfl, hn⟩
  · decide
  · have hcomponent : component? n = some (.name n) := by
      unfold component?
      rw [if_neg hn.nonempty, if_neg hn.notHere, if_neg hn.notUp]
    have hsplit : split slash n = [n] := split_of_not_mem hn.noSlash
    have hrel : isAbsolute ⟨n⟩ = false := IsStep.isAbsolute_eq (.inr ⟨n, rfl, hn⟩)
    simp [components, beginning, inner, Component.bytes, hrel, hsplit, hn.notHere, hcomponent]

end Component

theorem components_name {n : Name} (h : Name.IsPlain n) : components ⟨n⟩ = [.name n] :=
  Component.IsStep.components_eq (.inr ⟨n, rfl, h⟩)

/-- Steps that a walk sees alike are the same. -/
theorem steps_inj {steps others : List Component} (h : ∀ part ∈ steps, part.IsStep)
    (h' : ∀ part ∈ others, part.IsStep)
    (hsegments : steps.map Component.segment = others.map Component.segment) : steps = others := by
  induction steps generalizing others with
  | nil => exact (List.map_eq_nil_iff.mp hsegments.symm).symm
  | cons part rest ih =>
      cases others with
      | nil => cases hsegments
      | cons other others =>
          obtain ⟨hhead, htail⟩ := List.cons.inj hsegments
          rw [(h part List.mem_cons_self).segment_inj (h' other List.mem_cons_self) hhead,
            ih (fun part hpart => h part (List.mem_cons_of_mem _ hpart))
              (fun part hpart => h' part (List.mem_cons_of_mem _ hpart)) htail]

theorem components_of_isAbsolute {p : Path} (h : p.isAbsolute = true) :
    p.components = .root :: p.inner := by
  unfold components beginning
  rw [if_pos h]
  rfl

theorem bytes_ne_nil_of_isAbsolute {p : Path} (h : p.isAbsolute = true) : p.bytes ≠ [] := by
  intro hnil
  rw [isAbsolute, hnil] at h
  cases h

/-- A relative path has no root anywhere. -/
theorem root_not_mem_components {p : Path} (h : p.isAbsolute = false) : .root ∉ p.components := by
  intro hroot
  rw [components, beginning, if_neg (by simp [h])] at hroot
  rcases List.mem_append.mp hroot with hbegin | hinner
  · split at hbegin
    · simp at hbegin
    · cases hbegin
  · rcases isStep_of_mem_inner hinner with hup | ⟨n, hname, -⟩
    · cases hup
    · cases hname

/-- An absolute path is told by its first component. -/
theorem isAbsolute_iff {p : Path} : p.isAbsolute = true ↔ p.components.head? = some .root := by
  constructor
  · intro h
    rw [components_of_isAbsolute h]
    rfl
  · intro h
    by_contra hrel
    exact root_not_mem_components (eq_false_of_ne_true hrel) (List.mem_of_mem_head? h)

/-- A path that says more than another begins with it. -/
theorem startsWith_of_eq_append {p q : Path} {more : List Component}
    (h : p.components = q.components ++ more) : p.startsWith q = true := by
  rw [startsWith, h, List.isPrefixOf_iff_prefix]
  exact List.prefix_append ..

/-- A path that is not empty says something. -/
theorem components_ne_nil {p : Path} (h : p.bytes ≠ []) : p.components ≠ [] := by
  by_cases habs : p.isAbsolute
  · rw [components_of_isAbsolute habs]
    exact List.cons_ne_nil _ _
  · obtain ⟨bytes⟩ := p
    obtain ⟨b, rest, rfl⟩ := List.exists_cons_of_ne_nil h
    have hb : b ≠ slash := by simpa [isAbsolute] using habs
    -- the first segment is not empty, so it says something, if only `.`
    obtain ⟨segment, segments, hsplit⟩ : ∃ segment segments,
        split slash (b :: rest) = (b :: segment) :: segments := by
      unfold split
      rw [if_neg hb]
      split
      · exact ⟨[], [], rfl⟩
      · exact ⟨_, _, rfl⟩
    intro hnil
    rw [components, List.append_eq_nil_iff] at hnil
    obtain ⟨hbegin, hinner⟩ := hnil
    by_cases hhere : b :: segment = [dot]
    · simp [beginning, habs, hsplit, hhere] at hbegin
    · have hparts : ∃ part, component? (b :: segment) = some part := by
        unfold component?
        rw [if_neg (List.cons_ne_nil _ _), if_neg hhere]
        split <;> exact ⟨_, rfl⟩
      obtain ⟨part, hpart⟩ := hparts
      rw [inner, hsplit, List.filterMap_cons_some hpart] at hinner
      cases hinner

/-! ## Names set after a directory -/

theorem components_join_name {p : Path} (hp : p.bytes ≠ []) {n : Name} (h : Name.IsPlain n) :
    (p.join ⟨n⟩).components = p.components ++ [.name n] := by
  have hrel : isAbsolute ⟨n⟩ = false := Component.IsStep.isAbsolute_eq (.inr ⟨n, rfl, h⟩)
  rw [components_join hp hrel, components_name h]
  rfl

/-- The empty path is no exception: it says nothing, and the name stands alone. -/
theorem components_entry (p : Path) {n : Name} (h : Name.IsPlain n) :
    (p.join ⟨n⟩).components = p.components ++ [.name n] := by
  by_cases hp : p.bytes = []
  · have hrel : isAbsolute ⟨n⟩ = false := Component.IsStep.isAbsolute_eq (.inr ⟨n, rfl, h⟩)
    have hnothing : components ⟨[]⟩ = [] := by decide
    obtain ⟨bytes⟩ := p
    cases hp
    rw [hnothing, List.nil_append, ← components_name h]
    unfold join
    rw [if_neg (by simp [hrel])]
    rfl
  · exact components_join_name hp h

/-- Steps from the root are read back from their spelling. -/
theorem components_ofComponents {steps : List Component} (hsteps : ∀ part ∈ steps, part.IsStep) :
    (ofComponents (.root :: steps)).components = .root :: steps := by
  have hinner : (ofComponents (.root :: steps)).inner = steps := by
    refine steps_inj (fun part => isStep_of_mem_inner) hsteps ?_
    rw [segment_inner, segments_ofComponents hsteps]
    refine List.filter_eq_self.mpr fun part hpart => ?_
    obtain ⟨step, hstep, rfl⟩ := List.mem_map.mp hpart
    simpa using (hsteps step hstep).segment_ne_here
  rw [components_of_isAbsolute (isAbsolute_ofComponents hsteps), hinner]

theorem mem_components_of_fileName? {p : Path} {name : Name} (h : p.fileName? = some name) :
    .name name ∈ p.components := by
  unfold fileName? at h
  split at h
  · rename_i bytes hlast
    cases h
    exact List.mem_of_getLast? hlast
  · cases h

/-- The parent of a path from the root says what comes before the last component. -/
theorem components_parent? {p parent : Path} (habs : p.isAbsolute = true)
    (h : p.parent? = some parent) : parent.components = p.components.dropLast := by
  have hparts := components_of_isAbsolute habs
  unfold parent? at h
  rw [hparts] at h ⊢
  rcases List.eq_nil_or_concat p.inner with hinner | ⟨front, last, hinner⟩
  · rw [hinner] at h
    cases h
  · have hsteps : ∀ part ∈ front, part.IsStep := fun part hpart =>
      isStep_of_mem_inner (by rw [hinner]; simp [hpart])
    have hdrop : (Component.root :: p.inner).dropLast = .root :: front := by
      rw [hinner, List.concat_eq_append, ← List.cons_append, List.dropLast_concat]
    rw [hdrop] at h ⊢
    split at h
    · cases h
    · cases h
    · cases h
      exact components_ofComponents hsteps

/-- The parent of an entry says what the path of its directory says. -/
theorem parent?_join_name {dir : Path} (habs : dir.isAbsolute = true) {n : Name}
    (h : Name.IsPlain n) :
    ∃ parent, (dir.join ⟨n⟩).parent? = some parent ∧ parent.components = dir.components := by
  have hjoin := components_join_name (bytes_ne_nil_of_isAbsolute habs) h
  refine ⟨ofComponents dir.components, ?_, ?_⟩
  · unfold parent?
    rw [hjoin, List.getLast?_append, List.dropLast_concat]
    rfl
  · rw [components_of_isAbsolute habs]
    exact components_ofComponents fun part => isStep_of_mem_inner

/-- Paths that say the same lead to entries that say the same. -/
theorem same_join_name {dir dir' : Path} (habs : dir.isAbsolute = true)
    (habs' : dir'.isAbsolute = true) (hsame : dir.same dir' = true) {n : Name}
    (h : Name.IsPlain n) : (dir.join ⟨n⟩).same (dir'.join ⟨n⟩) = true := by
  unfold same at hsame ⊢
  rw [beq_iff_eq] at hsame ⊢
  rw [components_join_name (bytes_ne_nil_of_isAbsolute habs) h,
    components_join_name (bytes_ne_nil_of_isAbsolute habs') h, hsame]

/-! ## Absolute forms -/

theorem components_steps {start : Path} (hstart : start.bytes ≠ []) {steps : List Component}
    (hsteps : ∀ part ∈ steps, part.IsStep) :
    (steps.foldl (fun q step => q.join ⟨step.bytes⟩) start).bytes ≠ [] ∧
      (steps.foldl (fun q step => q.join ⟨step.bytes⟩) start).components =
        start.components ++ steps := by
  induction steps generalizing start with
  | nil => exact ⟨hstart, by simp⟩
  | cons step rest ih =>
      have hstep := hsteps step List.mem_cons_self
      have hnext := components_join hstart hstep.isAbsolute_eq
      have hkept : [step].filter (· ≠ .here) = [step] := by
        rcases hstep with rfl | ⟨n, rfl, -⟩
        · rfl
        · rfl
      rw [hstep.components_eq, hkept] at hnext
      have hne : (start.join ⟨step.bytes⟩).bytes ≠ [] := by
        unfold join
        rw [if_neg (by simp [hstep.isAbsolute_eq])]
        split <;> simp [hstart]
      obtain ⟨hbytes, hcomponents⟩ :=
        ih hne fun part hpart => hsteps part (List.mem_cons_of_mem _ hpart)
      refine ⟨hbytes, ?_⟩
      rw [List.foldl_cons, hcomponents, hnext, List.append_assoc]
      rfl

/-- The absolute form of a path says where it starts and then what moves in the path. -/
theorem components_absolute {workingDir p : Path} (hwd : workingDir.bytes ≠ []) :
    (absolute workingDir p).components =
      (if p.isAbsolute then [.root] else workingDir.components) ++
        p.components.filter Component.moves := by
  have hstart : (absoluteStart workingDir p).bytes ≠ [] ∧
      (absoluteStart workingDir p).components =
        if p.isAbsolute then [.root] else workingDir.components := by
    unfold absoluteStart
    split
    · split
      · exact ⟨by simp, by decide⟩
      · exact ⟨by simp, by decide⟩
    · exact ⟨hwd, rfl⟩
  obtain ⟨hbytes, hcomponents⟩ := components_steps hstart.1 fun part =>
    isStep_of_mem_moves (p := p)
  rw [hstart.2] at hcomponents
  have hempty : components ⟨[]⟩ = [] := by decide
  unfold absolute
  dsimp only
  split
  · rw [components_join hbytes (by rfl), hempty, hcomponents]
    simp
  · exact hcomponents

/-- An absolute path says what its absolute form says. -/
theorem components_absolute_of_isAbsolute {workingDir p : Path} (hwd : workingDir.bytes ≠ [])
    (h : p.isAbsolute = true) : (absolute workingDir p).components = p.components := by
  have hinner : p.inner.filter Component.moves = p.inner :=
    List.filter_eq_self.mpr fun part hpart => (isStep_of_mem_inner hpart).moves_eq
  rw [components_absolute hwd, if_pos h, components_of_isAbsolute h,
    List.filter_cons_of_neg (by decide), hinner]
  rfl

end Path

/-! ## Locations -/

/-- Locations are told apart by what their paths say. -/
theorem Location.eq_of_same {l l' : Location} (h : ∀ n ∈ l, Name.IsPlain n)
    (h' : ∀ n ∈ l', Name.IsPlain n)
    (hsame : (Location.path l).same (Location.path l') = true) : l = l' := by
  have hinner : (Location.path l).inner = (Location.path l').inner := by
    unfold Path.same at hsame
    rw [beq_iff_eq, Path.components_of_isAbsolute (isAbsolute_path l),
      Path.components_of_isAbsolute (isAbsolute_path l')] at hsame
    exact (List.cons.inj hsame).2
  have hmapped := congrArg (List.map Path.Component.segment) hinner
  have hall : ∀ names : List Name,
      (names.map Segment.name).filter (· ≠ .here) = names.map .name := fun names =>
    List.filter_eq_self.mpr fun part hpart => by
      obtain ⟨n, -, rfl⟩ := List.mem_map.mp hpart
      simp
  rw [Path.segment_inner, Path.segment_inner, segments_path h, segments_path h', hall, hall]
    at hmapped
  have hnames := List.map_injective_iff.mpr (fun _ _ => Segment.name.inj) hmapped
  exact List.reverse_injective hnames

end TemplateCache
