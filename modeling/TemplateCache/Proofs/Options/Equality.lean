import TemplateCache.Proofs.Options.TransformKey

/-!
# Equal options

Two numbers are equal without being the same when they are the two zeros, and only then. So equal
values differ at most in the signs of the zeros inside them, at any depth, and the signs are all
that has to be known to tell them apart (`Value.toldBySigns`).

A zero is written with its sign. Equal values whose texts are the same are therefore the same
(`Value.text_inj_of_equal`), and equal options have the same key exactly when their zeros have the
same signs: `transformKey_eq_iff_zeroSigns`. That equal options may have different keys is a defect,
for keys are compared where options are meant.
-/

namespace TemplateCache

open Toml

namespace Binary64

/-! ## Zeros -/

def positiveZero : Binary64 := ⟨0⟩

def negativeZero : Binary64 := ⟨0x8000000000000000⟩

/-- A zero is told by its sign. -/
theorem eq_of_isZero {f g : Binary64} (hf : f.isZero = true) (hg : g.isZero = true)
    (hsign : f.negative = g.negative) : f = g := by
  simp only [isZero, exponentField_eq, fraction_eq, Bool.and_eq_true, beq_iff_eq] at hf hg
  exact eq_of_rank (by omega) hsign

theorem zero_cases {f : Binary64} (h : f.isZero = true) :
    f = positiveZero ∨ f = negativeZero := by
  cases hsign : f.negative
  · exact .inl (eq_of_isZero h (by decide) (hsign.trans (by decide)))
  · exact .inr (eq_of_isZero h (by decide) (hsign.trans (by decide)))

/-- Equal numbers are the same, or they are zeros. -/
theorem equal_cases {f g : Binary64} (h : f.equal g = true) :
    f = g ∨ f.isZero = true ∧ g.isZero = true := by
  simp only [equal, Bool.and_eq_true, Bool.or_eq_true, beq_iff_eq] at h
  obtain ⟨-, hbits | hzeros⟩ := h
  · exact .inl (congrArg mk hbits)
  · exact .inr hzeros

end Binary64

namespace Toml

/-- Equal scalars are the same, or they are zeros. -/
theorem Scalar.equal_cases {s t : Scalar} (h : s.equal t = true) :
    s = t ∨ ∃ f g, s = .float f ∧ t = .float g ∧ f.isZero = true ∧ g.isZero = true := by
  have hsame : (s == t) = true → s = t := fun h => beq_iff_eq.mp h
  cases s with
  | float f =>
      cases t with
      | float g =>
          obtain rfl | ⟨hf, hg⟩ := Binary64.equal_cases h
          · exact .inl rfl
          · exact .inr ⟨f, g, rfl, rfl, hf, hg⟩
      | _ => exact .inl (hsame h)
  | _ => exact .inl (hsame h)

/-! ## Signs of zeros -/

/-- The sign of a zero. -/
def Scalar.zeroSigns : Scalar → List Bool
  | .float f => if f.isZero then [f.negative] else []
  | _ => []

mutual

/-- The signs of the zeros inside a value, from the first to the last. -/
def Value.zeroSigns : Value → List Bool
  | .scalar s => s.zeroSigns
  | .array items => itemsZeroSigns items
  | .table entries => entriesZeroSigns entries

def itemsZeroSigns : List Value → List Bool
  | [] => []
  | item :: items => item.zeroSigns ++ itemsZeroSigns items

def entriesZeroSigns : List (String × Value) → List Bool
  | [] => []
  | (_, value) :: entries => value.zeroSigns ++ entriesZeroSigns entries

end

/-- Values with as many zeros are told apart by the signs of these. -/
def ToldBySigns {α : Type} (a b : α) (signs signs' : List Bool) : Prop :=
  signs.length = signs'.length ∧ (signs = signs' → a = b)

theorem ToldBySigns.append {α β γ : Type} {a b : α} {c d : β} {i j k l : List Bool} (f : α → β → γ)
    (h : ToldBySigns a b i j) (h' : ToldBySigns c d k l) :
    ToldBySigns (f a c) (f b d) (i ++ k) (j ++ l) := by
  refine ⟨by rw [List.length_append, List.length_append, h.1, h'.1], fun hsigns => ?_⟩
  obtain ⟨hfirst, hsecond⟩ := List.append_inj hsigns h.1
  rw [h.2 hfirst, h'.2 hsecond]

theorem ToldBySigns.map {α β : Type} {a b : α} {i j : List Bool} (f : α → β)
    (h : ToldBySigns a b i j) : ToldBySigns (f a) (f b) i j :=
  ⟨h.1, fun hsigns => congrArg f (h.2 hsigns)⟩

theorem Scalar.toldBySigns {s t : Scalar} (h : s.equal t = true) :
    ToldBySigns s t s.zeroSigns t.zeroSigns := by
  obtain rfl | ⟨f, g, rfl, rfl, hf, hg⟩ := Scalar.equal_cases h
  · exact ⟨rfl, fun _ => rfl⟩
  · rw [zeroSigns, zeroSigns, if_pos hf, if_pos hg]
    refine ⟨rfl, fun hsigns => ?_⟩
    rw [Binary64.eq_of_isZero hf hg (List.cons.inj hsigns).1]

mutual

/-- Equal values are told apart by the signs of their zeros. -/
theorem Value.toldBySigns : ∀ {v w : Value}, v.equal w = true →
    ToldBySigns v w v.zeroSigns w.zeroSigns
  | .scalar s, .scalar t, h => by
      rw [Value.equal] at h
      rw [Value.zeroSigns, Value.zeroSigns]
      exact (Scalar.toldBySigns h).map Value.scalar
  | .array items, .array items', h => by
      rw [Value.equal] at h
      rw [Value.zeroSigns, Value.zeroSigns]
      exact (itemsToldBySigns h).map Value.array
  | .table entries, .table entries', h => by
      rw [Value.equal] at h
      rw [Value.zeroSigns, Value.zeroSigns]
      exact (entriesToldBySigns h).map Value.table

theorem itemsToldBySigns : ∀ {items items' : List Value}, Value.itemsEqual items items' = true →
    ToldBySigns items items' (itemsZeroSigns items) (itemsZeroSigns items')
  | [], [], _ => ⟨rfl, fun _ => rfl⟩
  | item :: items, item' :: items', h => by
      rw [Value.itemsEqual, Bool.and_eq_true] at h
      rw [itemsZeroSigns, itemsZeroSigns]
      exact (Value.toldBySigns h.1).append List.cons (itemsToldBySigns h.2)

theorem entriesToldBySigns : ∀ {entries entries' : List (String × Value)},
    Value.entriesEqual entries entries' = true →
    ToldBySigns entries entries' (entriesZeroSigns entries) (entriesZeroSigns entries')
  | [], [], _ => ⟨rfl, fun _ => rfl⟩
  | (key, value) :: entries, (key', value') :: entries', h => by
      rw [Value.entriesEqual, Bool.and_eq_true, Bool.and_eq_true, beq_iff_eq] at h
      obtain ⟨⟨rfl, hvalue⟩, hentries⟩ := h
      rw [entriesZeroSigns, entriesZeroSigns]
      exact (Value.toldBySigns hvalue).append (fun v rest => (key, v) :: rest)
        (entriesToldBySigns hentries)

end

/-! ## Texts of equal values -/

theorem Scalar.text_inj_of_equal {s t : Scalar} (h : s.equal t = true) {rest rest' : List Char}
    (htext : s.text ++ rest = t.text ++ rest') : s = t ∧ rest = rest' := by
  obtain rfl | ⟨f, g, rfl, rfl, hf, hg⟩ := Scalar.equal_cases h
  · exact ⟨rfl, List.append_cancel_left htext⟩
  · have hpositive : (float .positiveZero).text = "0.0".toList := by decide
    have hnegative : (float .negativeZero).text = "-0.0".toList := by decide
    rcases Binary64.zero_cases hf with rfl | rfl <;> rcases Binary64.zero_cases hg with rfl | rfl
    · exact ⟨rfl, List.append_cancel_left htext⟩
    -- the text of one begins with a digit and that of the other with a minus
    · rw [hpositive, hnegative] at htext
      cases htext
    · rw [hpositive, hnegative] at htext
      cases htext
    · exact ⟨rfl, List.append_cancel_left htext⟩

mutual

/-- Equal values with a common text are the same, and so is what follows it. -/
theorem Value.text_inj_of_equal : ∀ {v w : Value} {rest rest' : List Char}, v.equal w = true →
    v.text ++ rest = w.text ++ rest' → v = w ∧ rest = rest'
  | .scalar s, .scalar t, rest, rest', h, htext => by
      rw [Value.equal] at h
      rw [Value.text, Value.text] at htext
      obtain ⟨rfl, hrest⟩ := Scalar.text_inj_of_equal h htext
      exact ⟨rfl, hrest⟩
  | .array [], .array [], rest, rest', _, htext => ⟨rfl, List.append_cancel_left htext⟩
  | .array (item :: items), .array (item' :: items'), rest, rest', h, htext => by
      rw [Value.equal, Value.itemsEqual, Bool.and_eq_true] at h
      rw [Value.text, Value.text, List.append_assoc, List.append_assoc] at htext
      obtain ⟨rfl, hitems⟩ := Value.text_inj_of_equal h.1 (List.cons.inj htext).2
      obtain ⟨rfl, hrest⟩ := itemsText_inj_of_equal h.2 hitems
      exact ⟨rfl, hrest⟩
  | .table [], .table [], rest, rest', _, htext => ⟨rfl, List.append_cancel_left htext⟩
  | .table ((key, value) :: entries), .table ((key', value') :: entries'), rest, rest', h,
      htext => by
      rw [Value.equal, Value.entriesEqual, Bool.and_eq_true, Bool.and_eq_true] at h
      rw [Value.text, Value.text] at htext
      simp only [List.append_assoc, List.cons_append, List.nil_append] at htext
      obtain ⟨rfl, rfl, hentries⟩ := entry_inj (Value.text_inj_of_equal h.1.2) (by simpa using htext)
      obtain ⟨rfl, hrest⟩ := entriesText_inj_of_equal h.2 hentries
      exact ⟨rfl, hrest⟩

theorem itemsText_inj_of_equal : ∀ {items items' : List Value} {rest rest' : List Char},
    Value.itemsEqual items items' = true → itemsText items ++ rest = itemsText items' ++ rest' →
    items = items' ∧ rest = rest'
  | [], [], rest, rest', _, htext => ⟨rfl, List.append_cancel_left htext⟩
  | item :: items, item' :: items', rest, rest', h, htext => by
      rw [Value.itemsEqual, Bool.and_eq_true] at h
      rw [itemsText, itemsText] at htext
      simp only [List.append_assoc] at htext
      obtain ⟨rfl, hitems⟩ := Value.text_inj_of_equal h.1 (List.append_cancel_left htext)
      obtain ⟨rfl, hrest⟩ := itemsText_inj_of_equal h.2 hitems
      exact ⟨rfl, hrest⟩

theorem entriesText_inj_of_equal : ∀ {entries entries' : List (String × Value)}
    {rest rest' : List Char}, Value.entriesEqual entries entries' = true →
    entriesText entries ++ rest = entriesText entries' ++ rest' →
    entries = entries' ∧ rest = rest'
  | [], [], rest, rest', _, htext => ⟨rfl, List.append_cancel_left htext⟩
  | (key, value) :: entries, (key', value') :: entries', rest, rest', h, htext => by
      rw [Value.entriesEqual, Bool.and_eq_true, Bool.and_eq_true] at h
      rw [entriesText, entriesText] at htext
      simp only [List.append_assoc] at htext
      obtain ⟨rfl, rfl, hentries⟩ := entry_inj (Value.text_inj_of_equal h.1.2)
        (by simpa using List.append_cancel_left htext)
      obtain ⟨rfl, hrest⟩ := entriesText_inj_of_equal h.2 hentries
      exact ⟨rfl, hrest⟩

end

/-- The same for values that stand alone: those that are equal but not the same are no
date-times. -/
theorem Value.standaloneText_inj_of_equal {v w : Value} (h : v.equal w = true)
    {rest rest' : List Char} (htext : v.standaloneText ++ rest = w.standaloneText ++ rest') :
    v = w ∧ rest = rest' := by
  cases v with
  | scalar s =>
      cases w with
      | scalar t =>
          obtain rfl | ⟨f, g, rfl, rfl, -⟩ := Scalar.equal_cases (by rwa [Value.equal] at h)
          · exact ⟨rfl, List.append_cancel_left htext⟩
          · exact Value.text_inj_of_equal h htext
      | array items => cases h
      | table entries => cases h
  | array items =>
      cases w with
      | scalar t => cases h
      | array items' => exact Value.text_inj_of_equal h htext
      | table entries => cases h
  | table entries =>
      cases w with
      | scalar t => cases h
      | array items => cases h
      | table entries' => exact Value.text_inj_of_equal h htext

end Toml

namespace Options

/-! ## Keys of equal options -/

/-- The signs of the zeros in the extra values. -/
def zeroSigns (o : Options) : List Bool := entriesZeroSigns o.extra

theorem entriesEqual_of_equal {a b : Options} (h : a.equal b = true) :
    Value.entriesEqual a.extra b.extra = true := by
  rw [equal, Bool.and_eq_true] at h
  exact h.2

theorem entryText_append (key : String) (value : Value) (rest : List Char) :
    entryText key value ++ rest =
      key.toList ++ '=' :: (value.standaloneText ++ '\n' :: rest) := by
  simp [entryText]

/-- Equal extra values have a common key only if they are the same. -/
theorem extra_eq_of_transformKey {entries entries' : List (String × Value)}
    (h : Value.entriesEqual entries entries' = true)
    (hkey : (entries.flatMap fun entry => entryText entry.1 entry.2) =
      entries'.flatMap fun entry => entryText entry.1 entry.2) : entries = entries' := by
  induction entries generalizing entries' with
  | nil =>
      cases entries' with
      | nil => rfl
      | cons entry entries' => cases h
  | cons entry entries ih =>
      cases entries' with
      | nil => cases h
      | cons entry' entries' =>
          obtain ⟨key, value⟩ := entry
          obtain ⟨key', value'⟩ := entry'
          rw [Value.entriesEqual, Bool.and_eq_true, Bool.and_eq_true, beq_iff_eq] at h
          obtain ⟨⟨rfl, hvalue⟩, hentries⟩ := h
          rw [List.flatMap_cons, List.flatMap_cons, entryText_append, entryText_append] at hkey
          obtain ⟨rfl, hrest⟩ := Value.standaloneText_inj_of_equal hvalue
            (List.cons.inj (List.append_cancel_left hkey)).2
          rw [ih hentries (List.cons.inj hrest).2]

/-- Equal options have the same key exactly when their zeros have the same signs. -/
theorem transformKey_eq_iff_zeroSigns {a b : Options} (h : a.equal b = true) :
    a.transformKey = b.transformKey ↔ a.zeroSigns = b.zeroSigns := by
  have hequal := entriesEqual_of_equal h
  unfold transformKey zeroSigns
  constructor
  · intro hkey
    rw [extra_eq_of_transformKey hequal hkey]
  · intro hsigns
    rw [(entriesToldBySigns hequal).2 hsigns]

end Options

end TemplateCache
