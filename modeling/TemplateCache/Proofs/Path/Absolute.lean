import TemplateCache.Proofs.Path.Components

/-!
# Absolute forms stay as they are

The absolute form of a path is spelled in one way: a slash or two, then steps with a slash between
them, and perhaps a slash at the end. A path that is spelled like this is its own absolute form, to
the byte and in every working directory. Main statements: `Normal.absolute_eq` and
`normal_absolute`.
-/

namespace TemplateCache

namespace Path

/-! ## Steps from a start -/

/-- Steps set after a path, one after another. -/
def along (start : Path) (steps : List Component) : Path :=
  steps.foldl (fun q step => q.join ⟨step.bytes⟩) start

theorem along_append (start : Path) (steps more : List Component) :
    start.along (steps ++ more) = (start.along steps).along more := List.foldl_append

theorem Component.IsStep.getLast?_ne {part : Component} (h : part.IsStep) (front : Bytes) :
    (front ++ part.bytes).getLast? ≠ some slash := by
  obtain ⟨b, hb⟩ := Option.isSome_iff_exists.mp (List.getLast?_isSome.mpr h.bytes_ne_nil)
  rw [List.getLast?_append, hb]
  intro e
  injection e with e
  exact h.slash_not_mem (e ▸ List.mem_of_getLast? hb)

/-- After a path that ends in no slash every step comes behind one. -/
theorem bytes_along {p : Path} (hne : p.bytes ≠ []) (hlast : p.bytes.getLast? ≠ some slash)
    {steps : List Component} (hsteps : ∀ part ∈ steps, part.IsStep) :
    (p.along steps).bytes = p.bytes ++ steps.flatMap fun part => slash :: part.bytes := by
  induction steps generalizing p with
  | nil => simp [along]
  | cons step rest ih =>
      have hstep := hsteps step List.mem_cons_self
      have hjoin : (p.join ⟨step.bytes⟩).bytes = p.bytes ++ [slash] ++ step.bytes := by
        unfold join
        rw [if_neg (by simp [hstep.isAbsolute_eq]), if_neg (by simp [isEmpty, hne, hlast])]
        simp
      have hrest := ih (p := p.join ⟨step.bytes⟩) (by rw [hjoin]; simp)
        (by rw [hjoin]; exact hstep.getLast?_ne _)
        fun part hpart => hsteps part (List.mem_cons_of_mem _ hpart)
      change ((p.join ⟨step.bytes⟩).along rest).bytes = _
      rw [hrest, hjoin, List.flatMap_cons]
      simp

/-! ## A slash at the end -/

theorem join_nil_of_slash {p : Path} (h : p.bytes.getLast? = some slash) : p.join ⟨[]⟩ = p := by
  have hrel : isAbsolute ⟨[]⟩ = false := rfl
  unfold join
  rw [if_neg (by simp [hrel]), if_pos (by simp [h])]
  simp

theorem bytes_join_nil {p : Path} (hne : p.bytes ≠ []) (h : p.bytes.getLast? ≠ some slash) :
    (p.join ⟨[]⟩).bytes = p.bytes ++ [slash] := by
  have hrel : isAbsolute ⟨[]⟩ = false := rfl
  unfold join
  rw [if_neg (by simp [hrel]), if_neg (by simp [isEmpty, hne, h])]

theorem getLast?_join_nil {p : Path} (hne : p.bytes ≠ []) :
    (p.join ⟨[]⟩).bytes.getLast? = some slash := by
  by_cases hlast : p.bytes.getLast? = some slash
  · rw [join_nil_of_slash hlast, hlast]
  · rw [bytes_join_nil hne hlast, List.getLast?_concat]

/-! ## Normal spellings -/

/-- The beginnings of absolute forms. -/
def IsStart (p : Path) : Prop := p = ⟨[slash]⟩ ∨ p = ⟨[slash, slash]⟩

/-- A path that is spelled as absolute forms are. -/
inductive Normal : Path → Prop where
  | bare {start : Path} {steps : List Component} : start.IsStart →
      (∀ part ∈ steps, part.IsStep) → Normal (start.along steps)
  | closed {start : Path} {steps : List Component} : start.IsStart →
      (∀ part ∈ steps, part.IsStep) → Normal ((start.along steps).join ⟨[]⟩)

section

variable {start : Path} {steps : List Component}

theorem IsStart.getLast?_eq (hstart : start.IsStart) : start.bytes.getLast? = some slash := by
  rcases hstart with rfl | rfl
  · rfl
  · rfl

theorem components_along (hstart : start.IsStart) (hsteps : ∀ part ∈ steps, part.IsStep) :
    (start.along steps).bytes ≠ [] ∧ (start.along steps).components = .root :: steps := by
  have hroot : start.bytes ≠ [] ∧ start.components = [.root] := by
    rcases hstart with rfl | rfl
    · exact ⟨by simp, by decide⟩
    · exact ⟨by simp, by decide⟩
  obtain ⟨hbytes, hcomponents⟩ := components_steps hroot.1 hsteps
  rw [hroot.2] at hcomponents
  exact ⟨hbytes, hcomponents⟩

/-- A path goes on after the beginning with no further slash. -/
def Begins (start p : Path) : Prop :=
  ∃ more, more.head? ≠ some slash ∧ p.bytes = start.bytes ++ more

theorem begins_along (hstart : start.IsStart) (hsteps : ∀ part ∈ steps, part.IsStep) :
    start.Begins (start.along steps) := by
  cases steps with
  | nil => exact ⟨[], by simp, by simp [along]⟩
  | cons step rest =>
      have hstep := hsteps step List.mem_cons_self
      have hjoin : (start.join ⟨step.bytes⟩).bytes = start.bytes ++ step.bytes := by
        unfold join
        rw [if_neg (by simp [hstep.isAbsolute_eq]), if_pos (by simp [hstart.getLast?_eq])]
      have hrest := bytes_along (p := start.join ⟨step.bytes⟩)
        (by rw [hjoin]; simp [hstep.bytes_ne_nil]) (by rw [hjoin]; exact hstep.getLast?_ne _)
        fun part hpart => hsteps part (List.mem_cons_of_mem _ hpart)
      rw [hjoin, List.append_assoc] at hrest
      refine ⟨_, fun e => ?_, hrest⟩
      obtain ⟨b, tail, hb⟩ := List.exists_cons_of_ne_nil hstep.bytes_ne_nil
      rw [hb] at e
      injection e with e
      exact hstep.slash_not_mem (by rw [hb, e]; exact List.mem_cons_self)

theorem Begins.join_nil (hstart : start.IsStart) {p : Path} (h : start.Begins p) :
    start.Begins (p.join ⟨[]⟩) := by
  obtain ⟨more, hhead, hbytes⟩ := h
  by_cases hslash : p.bytes.getLast? = some slash
  · rw [join_nil_of_slash hslash]
    exact ⟨more, hhead, hbytes⟩
  · -- it does not end with the beginning, so something comes after it
    have hne : more ≠ [] := by
      rintro rfl
      rw [hbytes, List.append_nil] at hslash
      exact hslash hstart.getLast?_eq
    have hfull : p.bytes ≠ [] := by simp [hbytes, hne]
    refine ⟨more ++ [slash], ?_, by rw [bytes_join_nil hfull hslash, hbytes, List.append_assoc]⟩
    obtain ⟨b, rest, rfl⟩ := List.exists_cons_of_ne_nil hne
    exact hhead

/-- The beginning of an absolute form is found again. -/
theorem Begins.absoluteStart_eq (hstart : start.IsStart) {p : Path} (h : start.Begins p)
    (workingDir : Path) : absoluteStart workingDir p = start := by
  obtain ⟨more, hhead, hbytes⟩ := h
  have hslashes : ∀ b ∈ start.bytes, (b == slash) = true := by
    rcases hstart with rfl | rfl <;> simp
  have hmore : more.takeWhile (· == slash) = [] := by
    cases more with
    | nil => rfl
    | cons b rest =>
        refine List.takeWhile_cons_of_neg fun hb => hhead ?_
        rw [List.head?_cons, beq_iff_eq.mp hb]
  have htake : p.bytes.takeWhile (· == slash) = start.bytes := by
    rw [hbytes, List.takeWhile_append_of_pos hslashes, hmore, List.append_nil]
  have habs : p.isAbsolute = true := by
    rcases hstart with rfl | rfl <;> simp [isAbsolute, hbytes]
  unfold absoluteStart
  rw [if_pos habs, htake]
  rcases hstart with rfl | rfl <;> rfl

/-! ## Absolute forms -/

/-- What begins and goes on like an absolute form is made of the same steps by it. -/
theorem Begins.absolute_eq (hstart : start.IsStart) (hsteps : ∀ part ∈ steps, part.IsStep)
    {p : Path} (h : start.Begins p) (hcomponents : p.components = .root :: steps)
    (workingDir : Path) : absolute workingDir p = if p.bytes.getLast? = some slash
      then (start.along steps).join ⟨[]⟩ else start.along steps := by
  have hmoves : p.components.filter Component.moves = steps := by
    rw [hcomponents, List.filter_cons_of_neg (by decide)]
    exact List.filter_eq_self.mpr fun part hpart => (hsteps part hpart).moves_eq
  unfold absolute
  rw [hmoves, h.absoluteStart_eq hstart]
  rfl

end

/-- A normal spelling is its own absolute form, wherever one is. -/
theorem Normal.absolute_eq {p : Path} (h : p.Normal) (workingDir : Path) :
    absolute workingDir p = p := by
  cases h with
  | @bare start steps hstart hsteps =>
      rw [(begins_along hstart hsteps).absolute_eq hstart hsteps (components_along hstart hsteps).2]
      split
      · rename_i hlast
        exact join_nil_of_slash hlast
      · rfl
  | @closed start steps hstart hsteps =>
      obtain ⟨hne, hcomponents⟩ := components_along hstart hsteps
      have hclosed : ((start.along steps).join ⟨[]⟩).components = .root :: steps := by
        rw [components_join hne rfl, hcomponents]
        simp [components, beginning, inner, isAbsolute, split, component?]
      rw [((begins_along hstart hsteps).join_nil hstart).absolute_eq hstart hsteps hclosed,
        if_pos (getLast?_join_nil hne)]

/-- The absolute form of a path is spelled normally, if the working directory's path is, without a
slash at its end. -/
theorem normal_absolute {base : Path} {names : List Component} (hbase : base.IsStart)
    (hnames : ∀ part ∈ names, part.IsStep) (p : Path) : (absolute (base.along names) p).Normal := by
  have hmoves : ∀ part ∈ p.components.filter Component.moves, part.IsStep := fun part =>
    isStep_of_mem_moves
  obtain ⟨start, steps, hstart, hsteps, hbody⟩ : ∃ start steps, IsStart start ∧
      (∀ part ∈ steps, Component.IsStep part) ∧ start.along steps =
        (absoluteStart (base.along names) p).along (p.components.filter Component.moves) := by
    unfold absoluteStart
    split
    · split
      · exact ⟨_, _, .inr rfl, hmoves, rfl⟩
      · exact ⟨_, _, .inl rfl, hmoves, rfl⟩
    · refine ⟨base, names ++ p.components.filter Component.moves, hbase, fun part hpart => ?_,
        along_append ..⟩
      exact (List.mem_append.mp hpart).elim (hnames part) (hmoves part)
  have habsolute : absolute (base.along names) p = if p.bytes.getLast? = some slash
      then (start.along steps).join ⟨[]⟩ else start.along steps := by
    rw [hbody]
    rfl
  rw [habsolute]
  split
  · exact .closed hstart hsteps
  · exact .bare hstart hsteps

end Path

/-- The path of a location is spelled normally. -/
theorem Location.path_eq_along {l : Location} (h : ∀ n ∈ l, Name.IsPlain n) :
    Location.path l = Path.along ⟨[Path.slash]⟩ (l.reverse.map .name) := by
  have hroot : Path.along ⟨[Path.slash]⟩ (l.reverse.map .name) =
      Path.ofComponents (.root :: l.reverse.map .name) := rfl
  have hsteps : ∀ part ∈ l.reverse.map Path.Component.name, part.IsStep := by
    intro part hpart
    obtain ⟨n, hn, rfl⟩ := List.mem_map.mp hpart
    exact .inr ⟨n, rfl, h n (List.mem_reverse.mp hn)⟩
  cases l with
  | nil => rfl
  | cons n dir =>
      have hbytes := Path.bytes_ofComponents hsteps (by simp)
      rw [List.flatMap_map, ← hroot] at hbytes
      cases hpath : Path.along ⟨[Path.slash]⟩ ((n :: dir).reverse.map .name) with
      | mk bytes =>
          rw [hpath] at hbytes
          exact congrArg Path.mk hbytes.symm

end TemplateCache
