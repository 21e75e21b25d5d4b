/-!
# Runs of characters

A run is a stretch of characters of one kind. When what follows a run does not go on with that
kind, the text alone tells where the run ends, so equal texts have equal runs and equal rests.
-/

namespace TemplateCache.Runs

variable {α : Type}

/-- A text does not go on with items of a kind. -/
def Ends (p : α → Bool) (rest : List α) : Prop := ∀ x, rest.head? = some x → p x = false

theorem ends_nil (p : α → Bool) : Ends p [] := by
  intro x hx
  cases hx

theorem ends_cons {p : α → Bool} {x : α} (h : p x = false) (rest : List α) :
    Ends p (x :: rest) := by
  intro y hy
  rw [← Option.some.inj hy, h]

theorem Ends.takeWhile {p : α → Bool} {rest : List α} (h : Ends p rest) :
    rest.takeWhile p = [] := by
  cases rest with
  | nil => rfl
  | cons x rest => exact List.takeWhile_cons_of_neg (by rw [h x rfl]; exact Bool.false_ne_true)

theorem takeWhile_append {p : α → Bool} {a rest : List α} (ha : ∀ x ∈ a, p x = true)
    (h : Ends p rest) : (a ++ rest).takeWhile p = a := by
  rw [List.takeWhile_append_of_pos ha, h.takeWhile, List.append_nil]

/-- Equal texts that begin with runs of one kind have the same run. -/
theorem eq_of_append_eq {p : α → Bool} {a b rest rest' : List α} (ha : ∀ x ∈ a, p x = true)
    (hb : ∀ x ∈ b, p x = true) (hrest : Ends p rest) (hrest' : Ends p rest')
    (h : a ++ rest = b ++ rest') : a = b ∧ rest = rest' := by
  have hrun : a = b := by
    rw [← takeWhile_append ha hrest, h, takeWhile_append hb hrest']
  rw [hrun] at h
  exact ⟨hrun, List.append_cancel_left h⟩

/-- The first separator of two equal texts is at the same place. -/
theorem eq_of_append_cons_eq [DecidableEq α] {separator : α} {a b rest rest' : List α}
    (ha : separator ∉ a) (hb : separator ∉ b)
    (h : a ++ separator :: rest = b ++ separator :: rest') : a = b ∧ rest = rest' := by
  have hends : ∀ rest : List α, Ends (fun x => decide (x ≠ separator)) (separator :: rest) :=
    ends_cons (by simp)
  have hne : ∀ {l : List α}, separator ∉ l → ∀ x ∈ l, decide (x ≠ separator) = true :=
    fun hl x hx => decide_eq_true fun e => hl (e ▸ hx)
  obtain ⟨hrun, hrest⟩ := eq_of_append_eq (hne ha) (hne hb) (hends rest) (hends rest') h
  exact ⟨hrun, (List.cons.inj hrest).2⟩

end TemplateCache.Runs
