import TemplateCache.Path.Basic

/-!
# What a joined path says

Joining works on bytes. On components it is concatenation: a relative path set after another adds
its own components, less a leading `.`, which says nothing there. Main statement:
`components_join`.
-/

namespace TemplateCache.Path

/-! ## Splitting -/

theorem split_ne_nil (separator : UInt8) (bytes : Bytes) : split separator bytes ≠ [] := by
  cases bytes with
  | nil => simp [split]
  | cons b rest =>
      simp only [split]
      split
      · simp
      · split <;> simp

/-- A separator between two byte strings separates their segments. -/
theorem split_append (separator : UInt8) (a b : Bytes) :
    split separator (a ++ separator :: b) = split separator a ++ split separator b := by
  induction a with
  | nil => simp [split]
  | cons c a ih =>
      by_cases h : c = separator
      · simp [split, h, ih]
      · obtain ⟨segment, segments, hs⟩ := List.exists_cons_of_ne_nil (split_ne_nil separator a)
        simp [split, h, ih, hs]

/-! ## Components after the first -/

theorem component?_ne_here (segment : Bytes) : component? segment ≠ some .here := by
  unfold component?
  repeat' split
  all_goals simp

/-- The beginning of a relative path is at most a leading `.`. -/
theorem filter_components {p : Path} (h : p.isAbsolute = false) :
    p.components.filter (· ≠ .here) = p.inner := by
  have hinner : p.inner.filter (· ≠ .here) = p.inner := by
    refine List.filter_eq_self.mpr fun part hpart => ?_
    obtain ⟨segment, _, hsegment⟩ := List.mem_filterMap.mp hpart
    have hne : part ≠ .here := fun e => component?_ne_here segment (e ▸ hsegment)
    simpa using hne
  rw [components, List.filter_append, hinner]
  unfold beginning
  simp only [h, Bool.false_eq_true, if_false]
  split <;> simp

/-! ## Joining -/

theorem beginning_append {p : Path} (h : p.bytes ≠ []) (more : Bytes) :
    beginning ⟨p.bytes ++ slash :: more⟩ = p.beginning := by
  obtain ⟨bytes⟩ := p
  obtain ⟨b, rest, rfl⟩ := List.exists_cons_of_ne_nil h
  obtain ⟨segment, segments, hs⟩ :=
    List.exists_cons_of_ne_nil (split_ne_nil slash (b :: rest))
  have hsplit := split_append slash (b :: rest) more
  simp only [List.cons_append] at hsplit
  simp [beginning, isAbsolute, hsplit, hs]

theorem inner_append (p : Path) (more : Bytes) :
    inner ⟨p.bytes ++ slash :: more⟩ = p.inner ++ inner ⟨more⟩ := by
  simp [inner, split_append]

/-- A slash at the end of a path says nothing. -/
theorem components_slash {p : Path} (h : p.bytes ≠ []) :
    components ⟨p.bytes ++ [slash]⟩ = p.components := by
  rw [components, components, beginning_append h [], inner_append p []]
  simp [inner, split, component?]

/-- A relative path set after another adds its components; a leading `.` of it says nothing. -/
theorem components_join {p q : Path} (hp : p.bytes ≠ []) (hq : q.isAbsolute = false) :
    (p.join q).components = p.components ++ q.components.filter (· ≠ .here) := by
  rw [filter_components hq]
  unfold join
  simp only [hq, Bool.false_eq_true, if_false]
  by_cases hlast : p.bytes.getLast? = some slash
  · obtain ⟨front, hfront⟩ := List.getLast?_eq_some_iff.mp hlast
    simp only [hlast, beq_self_eq_true, Bool.or_true, if_true]
    cases front with
    | nil =>
        simp [components, beginning, inner, isAbsolute, hfront, split, component?]
    | cons b rest =>
        have hne : (⟨b :: rest⟩ : Path).bytes ≠ [] := by simp
        have hp' : p = ⟨(b :: rest) ++ [slash]⟩ := by cases p; simp_all
        have happ : p.bytes ++ q.bytes = (b :: rest) ++ slash :: q.bytes := by
          simp [hfront]
        rw [happ, hp', components_slash hne, components, components]
        rw [beginning_append hne q.bytes, inner_append ⟨b :: rest⟩ q.bytes]
        simp
  · have hempty : p.isEmpty = false := by simpa [isEmpty] using hp
    simp only [hempty, Bool.false_or, beq_iff_eq, hlast, if_false]
    rw [components, components, beginning_append hp, inner_append]
    simp

end TemplateCache.Path
