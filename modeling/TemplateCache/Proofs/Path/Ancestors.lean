import Mathlib.Data.List.Induction
import TemplateCache.FileSystem.Directories
import TemplateCache.Proofs.Path.Segments

/-!
# The directories above a path

Before a directory is made, those above it may have to be made, and `FileProgram.ancestors` lists
their paths. For an absolute path without `.` they form a *ladder*: each has one segment more than
the next, and the last is the root, which has none. Main statement: `ancestors_ladder`. None of
them is harder to ask for than the path itself: `checkPath_of_mem_ancestors`.

The paths that are opened are of this kind, whatever was asked for: `segments_absolute`.
-/

namespace TemplateCache

/-- The paths that can be asked for. -/
theorem FileSystem.checkPath_eq_ok_iff {p : Path} :
    checkPath p = .ok () ↔ 0 ∉ p.bytes ∧ p.bytes ≠ [] ∧ p.bytes.length < pathLimit := by
  unfold checkPath
  by_cases hzero : 0 ∈ p.bytes
  · simp [hzero]
  by_cases hempty : p.bytes = []
  · simp [hempty, Path.isEmpty]
  by_cases hlen : pathLimit ≤ p.bytes.length
  · simp [hzero, hempty, hlen, Path.isEmpty]
  · have hlt : p.bytes.length < pathLimit := by omega
    simp [hzero, hempty, hlen, hlt, Path.isEmpty]

namespace Path

/-! ## Components and segments -/

/-- What a walk sees of a component. -/
def Component.segment : Component → Segment
  | .up => .up
  | .name n => .name n
  | _ => .here

/-- The components of a path after its beginning are its segments, less those that stay. -/
theorem segment_inner (p : Path) :
    p.inner.map Component.segment = p.segments.filter (· ≠ .here) := by
  unfold inner segments
  induction split slash p.bytes with
  | nil => rfl
  | cons part rest ih =>
      by_cases hempty : part = []
      · simpa [component?, hempty] using ih
      by_cases hhere : part = [dot]
      · simpa [component?, Segment.ofBytes, hhere] using ih
      by_cases hup : part = [dot, dot]
      · simpa [component?, Segment.ofBytes, hup, Component.segment] using ih
      · simpa [component?, Segment.ofBytes, hempty, hhere, hup, Component.segment] using ih

/-- A relative path set after another adds its segments. -/
theorem segments_join (p : Path) {q : Path} (h : q.isAbsolute = false) :
    (p.join q).segments = p.segments ++ q.segments := by
  obtain ⟨bytes⟩ := p
  unfold join
  rw [if_neg (by simp [h])]
  by_cases hempty : bytes = []
  · simp [isEmpty, hempty, segments_empty]
  by_cases hlast : bytes.getLast? = some slash
  · obtain ⟨front, rfl⟩ := List.getLast?_eq_some_iff.mp hlast
    have hfront := segments_append front []
    have hwhole := segments_append front q.bytes
    rw [segments_empty, List.append_nil] at hfront
    simpa [hfront] using hwhole
  · simpa [isEmpty, hempty, hlast] using segments_append bytes q.bytes

/-! ## Spelling components -/

/-- A component that leads from one directory to another and can be read back. -/
def Component.IsStep (part : Component) : Prop :=
  part = .up ∨ ∃ n, part = .name n ∧ Name.IsPlain n

/-- What is said after the beginning of a path are such steps. -/
theorem isStep_of_mem_inner {p : Path} {part : Component} (h : part ∈ p.inner) :
    part.IsStep := by
  obtain ⟨segment, hsegment, hpart⟩ := List.mem_filterMap.mp h
  unfold component? at hpart
  split at hpart
  · cases hpart
  · rename_i hempty
    split at hpart
    · cases hpart
    · rename_i hhere
      split at hpart
      · exact .inl (Option.some.inj hpart).symm
      · rename_i hup
        exact .inr ⟨segment, (Option.some.inj hpart).symm,
          ⟨hempty, not_mem_of_mem_split hsegment, hhere, hup⟩⟩

/-- So are those of its components that move. -/
theorem isStep_of_mem_moves {p : Path} {part : Component}
    (h : part ∈ p.components.filter Component.moves) : part.IsStep := by
  obtain ⟨hmem, hmove⟩ := List.mem_filter.mp h
  rcases List.mem_append.mp hmem with hbegin | hinner
  · unfold beginning at hbegin
    split at hbegin
    · rw [List.mem_singleton.mp hbegin] at hmove
      cases hmove
    · split at hbegin
      · rw [List.mem_singleton.mp hbegin] at hmove
        cases hmove
      · cases hbegin
  · exact isStep_of_mem_inner hinner

namespace Component.IsStep

variable {part : Component}

theorem slash_not_mem (h : part.IsStep) : slash ∉ part.bytes := by
  rcases h with rfl | ⟨n, rfl, hn⟩
  · decide
  · exact hn.noSlash

theorem bytes_ne_nil (h : part.IsStep) : part.bytes ≠ [] := by
  rcases h with rfl | ⟨n, rfl, hn⟩
  · decide
  · exact hn.nonempty

theorem isAbsolute_eq (h : part.IsStep) : isAbsolute ⟨part.bytes⟩ = false := by
  have hhead : part.bytes.head? ≠ some slash := fun e => h.slash_not_mem (List.mem_of_mem_head? e)
  simpa [isAbsolute] using hhead

theorem segments_eq (h : part.IsStep) : segments ⟨part.bytes⟩ = [part.segment] := by
  rcases h with rfl | ⟨n, rfl, hn⟩
  · decide
  · exact segments_name hn

theorem segment_ne_here (h : part.IsStep) : part.segment ≠ .here := by
  rcases h with rfl | ⟨n, rfl, -⟩
  · simp [Component.segment]
  · simp [Component.segment]

end Component.IsStep

theorem ofComponents_append_singleton (parts : List Component) (part : Component) :
    ofComponents (parts ++ [part]) = (ofComponents parts).join ⟨part.bytes⟩ := by
  simp [ofComponents]

/-- Steps from the root are spelled one after another, each behind a slash. -/
theorem bytes_ofComponents {steps : List Component} (hsteps : ∀ part ∈ steps, part.IsStep)
    (hne : steps ≠ []) :
    (ofComponents (.root :: steps)).bytes = steps.flatMap fun part => slash :: part.bytes := by
  -- the last step is joined last
  induction steps using List.reverseRecOn with
  | nil => exact absurd rfl hne
  | append_singleton front part ih =>
      have hpart := hsteps part (by simp)
      rw [← List.cons_append, ofComponents_append_singleton]
      unfold join
      rw [if_neg (by simp [hpart.isAbsolute_eq])]
      by_cases hfront : front = []
      · subst hfront
        simp [ofComponents, join, Component.bytes, isAbsolute]
      · have hbytes := ih (fun part hmem => hsteps part (by simp [hmem])) hfront
        -- what is spelled so far ends in a step, hence in no slash
        have hlast : (ofComponents (.root :: front)).bytes.getLast? ≠ some slash := by
          obtain ⟨before, last, rfl⟩ := List.eq_nil_or_concat front |>.resolve_left hfront
          have hstep := hsteps last (by simp)
          rw [hbytes]
          intro e
          obtain ⟨b, hb⟩ := Option.isSome_iff_exists.mp
            (List.getLast?_isSome.mpr hstep.bytes_ne_nil)
          rw [List.concat_eq_append, List.flatMap_append, List.flatMap_singleton,
            List.getLast?_append, List.getLast?_cons, hb] at e
          injection e with e
          exact hstep.slash_not_mem (e ▸ List.mem_of_getLast? hb)
        have hfull : (ofComponents (.root :: front)).bytes ≠ [] := by
          obtain ⟨first, rest, rfl⟩ := List.exists_cons_of_ne_nil hfront
          rw [hbytes]
          simp
        rw [if_neg (by simp [isEmpty, hlast, hfull])]
        simp [hbytes]

theorem isAbsolute_ofComponents {steps : List Component}
    (hsteps : ∀ part ∈ steps, part.IsStep) :
    (ofComponents (.root :: steps)).isAbsolute = true := by
  cases steps with
  | nil => rfl
  | cons first rest => simp [isAbsolute, bytes_ofComponents hsteps]

theorem segments_ofComponents {steps : List Component}
    (hsteps : ∀ part ∈ steps, part.IsStep) :
    (ofComponents (.root :: steps)).segments = steps.map Component.segment := by
  induction steps using List.reverseRecOn with
  | nil => decide
  | append_singleton front part ih =>
      have hpart := hsteps part (by simp)
      rw [← List.cons_append, ofComponents_append_singleton,
        segments_join _ hpart.isAbsolute_eq, ih fun part hmem => hsteps part (by simp [hmem]),
        hpart.segments_eq, List.map_append]
      rfl

/-! ## How long they are -/

theorem flatMap_split (separator : UInt8) (bytes : Bytes) :
    (split separator bytes).flatMap (separator :: ·) = separator :: bytes := by
  induction bytes with
  | nil => rfl
  | cons b rest ih =>
      obtain ⟨first, others, hs⟩ := List.exists_cons_of_ne_nil (split_ne_nil separator rest)
      by_cases hb : b = separator
      · simp [split, hb, ih]
      · rw [hs, List.flatMap_cons, List.cons_append] at ih
        simpa [split, hb, hs] using ih

/-- Spelling what a path says takes nothing that the path does not hold, in its order. -/
theorem flatMap_inner_sublist {p : Path} (h : p.isAbsolute = true) :
    (p.inner.flatMap fun part => slash :: part.bytes).Sublist p.bytes := by
  have hparts : ∀ parts : List Bytes,
      ((parts.filterMap component?).flatMap fun part => slash :: part.bytes).Sublist
        (parts.flatMap (slash :: ·)) := by
    intro parts
    induction parts with
    | nil => exact .slnil
    | cons part rest ih =>
        rw [List.flatMap_cons]
        cases hpart : component? part with
        | none =>
            rw [List.filterMap_cons_none hpart]
            exact ih.trans (List.sublist_append_right _ _)
        | some c =>
            have hbytes : c.bytes = part := by
              unfold component? at hpart
              split at hpart
              · cases hpart
              · split at hpart
                · cases hpart
                · split at hpart
                  · rename_i hup
                    cases hpart
                    exact hup.symm
                  · cases hpart
                    rfl
            rw [List.filterMap_cons_some hpart, List.flatMap_cons, hbytes]
            exact (List.Sublist.refl _).append ih
  obtain ⟨bytes⟩ := p
  obtain ⟨rest, rfl⟩ : ∃ rest, bytes = slash :: rest := by
    cases bytes with
    | nil => cases h
    | cons b rest => exact ⟨rest, by simpa [isAbsolute] using h⟩
  have hwhole := hparts (split slash rest)
  rw [flatMap_split] at hwhole
  simpa [inner, split, component?] using hwhole

/-- A path that is spelled with fewer of the same bytes can be asked for as well. -/
theorem checkPath_of_sublist {p q : Path} (hsub : q.bytes.Sublist p.bytes) (hne : q.bytes ≠ [])
    (h : FileSystem.checkPath p = .ok ()) : FileSystem.checkPath q = .ok () := by
  obtain ⟨hzero, -, hlen⟩ := FileSystem.checkPath_eq_ok_iff.mp h
  exact FileSystem.checkPath_eq_ok_iff.mpr
    ⟨fun hmem => hzero (hsub.subset hmem), hne, Nat.lt_of_le_of_lt hsub.length_le hlen⟩

/-- A directory can be asked for when an entry of it can. -/
theorem checkPath_of_join {dir : Path} {name : Name} (hdir : dir.bytes ≠ [])
    (hplain : Name.IsPlain name) (h : FileSystem.checkPath (dir.join ⟨name⟩) = .ok ()) :
    FileSystem.checkPath dir = .ok () := by
  refine checkPath_of_sublist ?_ hdir h
  rcases join_name_cases dir hplain with ⟨hempty, -⟩ | ⟨front, hfront, hjoin⟩ | ⟨-, hjoin⟩
  · exact absurd hempty hdir
  · rw [hjoin, hfront]
    exact (List.Sublist.refl front).append (List.singleton_sublist.mpr List.mem_cons_self)
  · rw [hjoin]
    exact List.sublist_append_left _ _

/-! ## Ladders -/

/-- Absolute paths, each with one segment more than the next, down to the root. -/
inductive Ladder : List Path → Prop where
  | foot {p : Path} : p.isAbsolute = true → p.segments = [] → Ladder [p]
  | rung {p q : Path} {lower : List Path} {part : Segment} : p.isAbsolute = true →
      p.segments = q.segments ++ [part] → Ladder (q :: lower) → Ladder (p :: q :: lower)

namespace Ladder

theorem isAbsolute {paths : List Path} (h : Ladder paths) {p : Path} (hp : p ∈ paths) :
    p.isAbsolute = true := by
  induction h with
  | foot habs _ => rwa [List.mem_singleton.mp hp]
  | rung habs _ _ ih =>
      rcases List.mem_cons.mp hp with rfl | hp
      · exact habs
      · exact ih hp

/-- Every path on a ladder is the beginning of the first. -/
theorem segments_isPrefix {top : Path} {paths : List Path} (h : Ladder (top :: paths)) {p : Path}
    (hp : p ∈ top :: paths) : p.segments <+: top.segments := by
  generalize hwhole : top :: paths = whole at h
  induction h generalizing top paths with
  | foot _ _ =>
      cases hwhole
      obtain rfl := List.mem_singleton.mp hp
      exact List.prefix_rfl
  | rung _ hsegments _ ih =>
      cases hwhole
      rcases List.mem_cons.mp hp with rfl | hp
      · exact List.prefix_rfl
      · rw [hsegments]
        exact (ih hp rfl).trans (List.prefix_append _ _)

/-- The upper rungs of a ladder may be left out. -/
theorem of_suffix {paths lower : List Path} (h : Ladder paths) (hsuffix : lower <:+ paths)
    (hne : lower ≠ []) : Ladder lower := by
  induction h with
  | foot habs hsegments =>
      rcases List.suffix_cons_iff.mp hsuffix with rfl | hnil
      · exact .foot habs hsegments
      · exact absurd (List.suffix_nil.mp hnil) hne
  | rung habs hsegments hrest ih =>
      rcases List.suffix_cons_iff.mp hsuffix with rfl | hsuffix
      · exact .rung habs hsegments hrest
      · exact ih hsuffix

/-- The first goes on after every other. -/
theorem segments_beyond {top q : Path} {lower : List Path} (h : Ladder (top :: lower))
    (hq : q ∈ lower) : ∃ more, more ≠ [] ∧ top.segments = q.segments ++ more := by
  cases h with
  | foot _ _ => cases hq
  | @rung _ next lower part _ hsegments hrest =>
      obtain ⟨more, hmore⟩ := hrest.segments_isPrefix hq
      exact ⟨more ++ [part], by simp, by rw [hsegments, ← hmore, List.append_assoc]⟩

end Ladder

end Path

namespace FileProgram

open TemplateCache.Path

/-- The paths above some steps from the root lead down to the root, a step at a time. -/
theorem above_ladder {steps : List Component} (hsteps : ∀ part ∈ steps, part.IsStep) {top : Path}
    (habs : top.isAbsolute = true) (hsegments : top.segments = steps.map Component.segment) :
    Ladder (top :: above (.root :: steps).reverse) := by
  induction steps using List.reverseRecOn generalizing top with
  | nil => exact .foot habs hsegments
  | append_singleton front part ih =>
      have hfront : ∀ part ∈ front, part.IsStep := fun part hmem => hsteps part (by simp [hmem])
      obtain ⟨last, before, hlast⟩ :=
        List.exists_cons_of_ne_nil (l := (Component.root :: front).reverse) (by simp)
      have hfold : (last :: before).reverse = Component.root :: front := by rw [← hlast]; simp
      have habove : above (.root :: (front ++ [part])).reverse =
          ofComponents (.root :: front) :: above (.root :: front).reverse := by
        rw [← List.cons_append, List.reverse_append, hlast, ← hfold]
        rfl
      have hnext := segments_ofComponents hfront
      rw [habove]
      have hlonger : top.segments = (ofComponents (.root :: front)).segments ++ [part.segment] := by
        rw [hsegments, hnext, List.map_append, List.map_singleton]
      exact .rung habs hlonger (ih hfront (isAbsolute_ofComponents hfront) hnext)

theorem ancestors_eq {p : Path} (habs : p.isAbsolute = true) :
    ancestors p = p :: above (.root :: p.inner).reverse := by
  have hne : p.isEmpty = false := by
    obtain ⟨bytes⟩ := p
    cases bytes with
    | nil => cases habs
    | cons b rest => rfl
  simp [ancestors, hne, components, beginning, habs]

/-- The directories above an absolute path lead down to the root, a segment at a time. -/
theorem ancestors_ladder {p : Path} (habs : p.isAbsolute = true) (hhere : .here ∉ p.segments) :
    Ladder (ancestors p) := by
  have hsegments : p.segments = p.inner.map Component.segment := by
    rw [segment_inner]
    refine (List.filter_eq_self.mpr fun part hpart => ?_).symm
    have hne : part ≠ .here := fun e => hhere (e ▸ hpart)
    simpa using hne
  rw [ancestors_eq habs]
  exact above_ladder (fun part => isStep_of_mem_inner) habs hsegments

theorem mem_above {steps : List Component} {q : Path} (h : q ∈ above (.root :: steps).reverse) :
    ∃ front, front <+: steps ∧ q = ofComponents (.root :: front) := by
  induction steps using List.reverseRecOn with
  | nil => cases h
  | append_singleton front part ih =>
      obtain ⟨last, before, hlast⟩ :=
        List.exists_cons_of_ne_nil (l := (Component.root :: front).reverse) (by simp)
      have hfold : (last :: before).reverse = Component.root :: front := by rw [← hlast]; simp
      rw [← List.cons_append, List.reverse_append, hlast] at h
      rcases List.mem_cons.mp h with rfl | h
      · exact ⟨front, List.prefix_append _ _, by rw [hfold]⟩
      · rw [← hlast] at h
        obtain ⟨shorter, hprefix, hq⟩ := ih h
        exact ⟨shorter, hprefix.trans (List.prefix_append _ _), hq⟩

/-- The directories above a path can be asked for when the path can. -/
theorem checkPath_of_mem_ancestors {p q : Path} (habs : p.isAbsolute = true)
    (hq : q ∈ ancestors p) (h : FileSystem.checkPath p = .ok ()) :
    FileSystem.checkPath q = .ok () := by
  have hhead : p.bytes.head? = some slash := by simpa [isAbsolute] using habs
  rw [ancestors_eq habs] at hq
  rcases List.mem_cons.mp hq with rfl | hq
  · exact h
  obtain ⟨front, hfront, rfl⟩ := mem_above hq
  by_cases hnil : front = []
  · subst hnil
    exact checkPath_of_sublist (List.singleton_sublist.mpr (List.mem_of_mem_head? hhead))
      (by decide) h
  · have hsteps : ∀ part ∈ front, part.IsStep := fun part hpart =>
      isStep_of_mem_inner (hfront.subset hpart)
    obtain ⟨first, rest, rfl⟩ := List.exists_cons_of_ne_nil hnil
    obtain ⟨after, hafter⟩ := hfront
    refine checkPath_of_sublist ?_ (by simp [bytes_ofComponents hsteps hnil]) h
    rw [bytes_ofComponents hsteps hnil]
    refine .trans ?_ (flatMap_inner_sublist habs)
    rw [← hafter, List.flatMap_append]
    exact List.sublist_append_left _ _

theorem length_above (parts : List Component) : (above parts).length = parts.length - 1 := by
  induction parts using above.induct with
  | case1 => rfl
  | case2 _ => rfl
  | case3 _ part rest ih => simpa [above] using ih

/-- A path that can be asked for has no more directories above it than its bytes have room for. -/
theorem length_ancestors_le {p : Path} (habs : p.isAbsolute = true)
    (h : FileSystem.checkPath p = .ok ()) : (ancestors p).length ≤ pathLimit := by
  have hparts : ∀ parts : List Component,
      parts.length ≤ (parts.flatMap fun part => slash :: part.bytes).length := by
    intro parts
    induction parts with
    | nil => exact Nat.le_refl _
    | cons part rest ih =>
        rw [List.flatMap_cons, List.length_append, List.length_cons, List.length_cons]
        omega
  have hinner := Nat.le_trans (hparts p.inner) (flatMap_inner_sublist habs).length_le
  have hlen := (FileSystem.checkPath_eq_ok_iff.mp h).2.2
  rw [ancestors_eq habs, List.length_cons, length_above, List.length_reverse, List.length_cons]
  omega

end FileProgram

namespace Path

/-! ## Absolute forms -/

/-- For an absolute path the working directory plays no part. -/
theorem absolute_of_isAbsolute {p : Path} (h : p.isAbsolute = true)
    (workingDir workingDir' : Path) : absolute workingDir p = absolute workingDir' p := by
  unfold absolute absoluteStart
  rw [if_pos h, if_pos h]

/-- The absolute form of a path is absolute and has no `.` in it, if the working directory's
path is like that. -/
theorem segments_absolute {workingDir p : Path} (hwd : workingDir.isAbsolute = true)
    (hhere : .here ∉ workingDir.segments) :
    (absolute workingDir p).isAbsolute = true ∧ .here ∉ (absolute workingDir p).segments := by
  have hstart : (absoluteStart workingDir p).isAbsolute = true ∧
      .here ∉ (absoluteStart workingDir p).segments := by
    unfold absoluteStart
    split
    · split
      · exact ⟨rfl, by decide⟩
      · exact ⟨rfl, by decide⟩
    · exact ⟨hwd, hhere⟩
  -- joining a step, or a slash at the end, keeps both
  have hjoin : ∀ {q r : Path}, r.isAbsolute = false → .here ∉ r.segments →
      q.isAbsolute = true ∧ .here ∉ q.segments →
      (q.join r).isAbsolute = true ∧ .here ∉ (q.join r).segments := by
    intro q r hrel hr ⟨hq, hsegments⟩
    refine ⟨?_, by rw [segments_join q hrel]; simp [hsegments, hr]⟩
    obtain ⟨bytes⟩ := q
    cases bytes with
    | nil => cases hq
    | cons b rest =>
        have hb : b = slash := by simpa [isAbsolute] using hq
        subst hb
        unfold join
        rw [if_neg (by simp [hrel])]
        split <;> simp [isAbsolute]
  have hsteps : ∀ (steps : List Component) (q : Path), (∀ part ∈ steps, part.IsStep) →
      q.isAbsolute = true ∧ .here ∉ q.segments →
      (steps.foldl (fun q step => q.join ⟨step.bytes⟩) q).isAbsolute = true ∧
        .here ∉ (steps.foldl (fun q step => q.join ⟨step.bytes⟩) q).segments := by
    intro steps
    induction steps with
    | nil => intro q _ hq; exact hq
    | cons step rest ih =>
        intro q hall hq
        have hstep := hall step List.mem_cons_self
        refine ih _ (fun part hpart => hall part (List.mem_cons_of_mem _ hpart)) ?_
        refine hjoin hstep.isAbsolute_eq ?_ hq
        rw [hstep.segments_eq]
        simpa using hstep.segment_ne_here.symm
  have hbody := hsteps _ _ (fun part => isStep_of_mem_moves (p := p)) hstart
  unfold absolute
  dsimp only
  split
  · exact hjoin rfl (by decide) hbody
  · exact hbody

end Path

end TemplateCache
