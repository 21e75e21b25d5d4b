import TemplateCache.Toml.Value

/-!
# Tables in order

A table is a list of pairs, and its type does not say that the keys increase. Whatever is built by
insertion is `Increasing`, and among such lists a table is told by what is under each key: this is
why neither the order of insertions shows nor a value that was replaced. Main statement: `ext`.
-/

namespace TemplateCache.Toml.Table

/-- Each key is less than those after it. -/
def Increasing (t : Table) : Prop := t.Pairwise fun entry later => entry.1 < later.1

variable {t u : Table} {key k : String} {value v : Value}

theorem increasing_nil : Increasing [] := .nil

theorem Increasing.nodup (h : t.Increasing) : t.Nodup := by
  refine List.Pairwise.imp (fun {entry later} hless heq => ?_) h
  rw [heq] at hless
  exact String.lt_irrefl _ hless

/-! ## Keys of a table -/

theorem mem_of_get? (h : t.get? key = some value) : (key, value) ∈ t := by
  induction t with
  | nil => cases h
  | cons entry rest ih =>
      obtain ⟨k, v⟩ := entry
      rw [get?] at h
      split at h
      · rename_i hkey
        cases h
        rw [hkey]
        exact List.mem_cons_self
      · exact List.mem_cons_of_mem _ (ih h)

/-- In order, nothing is under a key but its entry. -/
theorem get?_eq_some_iff (ht : t.Increasing) : t.get? key = some value ↔ (key, value) ∈ t := by
  refine ⟨mem_of_get?, fun hmem => ?_⟩
  induction t with
  | nil => cases hmem
  | cons entry rest ih =>
      obtain ⟨k, v⟩ := entry
      obtain ⟨hfirst, hrest⟩ := List.pairwise_cons.mp ht
      rw [get?]
      rcases List.mem_cons.mp hmem with heq | hmem
      · cases heq
        rw [if_pos rfl]
      · rw [if_neg fun heq => String.lt_irrefl _ (heq ▸ hfirst _ hmem), ih hrest hmem]

/-- Tables with the same under every key are the same. -/
theorem ext (ht : t.Increasing) (hu : u.Increasing) (h : ∀ k, t.get? k = u.get? k) : t = u := by
  have hmem : ∀ entry, entry ∈ t ↔ entry ∈ u := by
    intro entry
    rw [← get?_eq_some_iff ht, ← get?_eq_some_iff hu, h]
  have hperm : t.Perm u := (List.perm_ext_iff_of_nodup ht.nodup hu.nodup).mpr hmem
  refine hperm.eq_of_pairwise (fun a b _ _ hless hafter => ?_) ht hu
  exact absurd (String.lt_trans hless hafter) (String.lt_irrefl _)

/-! ## Inserting -/

/-- Every entry is the new one or an old one. -/
theorem mem_insert {entry : String × Value} (h : entry ∈ t.insert key value) :
    entry = (key, value) ∨ entry ∈ t := by
  induction t with
  | nil => exact .inl (List.mem_singleton.mp h)
  | cons old rest ih =>
      obtain ⟨k, v⟩ := old
      rw [insert] at h
      split at h
      · exact List.mem_cons.mp h
      · split at h
        · exact (List.mem_cons.mp h).imp_right (List.mem_cons_of_mem _)
        · rcases List.mem_cons.mp h with rfl | h
          · exact .inr List.mem_cons_self
          · exact (ih h).imp_right (List.mem_cons_of_mem _)

theorem increasing_insert (ht : t.Increasing) : (t.insert key value).Increasing := by
  induction t with
  | nil => exact List.pairwise_singleton _ _
  | cons entry rest ih =>
      obtain ⟨k, v⟩ := entry
      obtain ⟨hfirst, hrest⟩ := List.pairwise_cons.mp ht
      rw [insert]
      split
      · rename_i hless
        refine List.pairwise_cons.mpr ⟨fun later hlater => ?_, ht⟩
        rcases List.mem_cons.mp hlater with rfl | hlater
        · exact hless
        · exact String.lt_trans hless (hfirst later hlater)
      · rename_i hless
        split
        · rename_i hkey
          subst hkey
          exact List.pairwise_cons.mpr ⟨hfirst, hrest⟩
        · rename_i hkey
          have hafter : k < key := Std.lt_of_le_of_ne (String.not_lt.mp hless) (Ne.symm hkey)
          refine List.pairwise_cons.mpr ⟨fun later hlater => ?_, ih hrest⟩
          rcases mem_insert hlater with rfl | hlater
          · exact hafter
          · exact hfirst later hlater

/-! ## Tables of pairs -/

theorem increasing_ofList (pairs : List (String × Value)) : (ofList pairs).Increasing := by
  have hfold : ∀ t : Table, t.Increasing →
      Increasing (pairs.foldl (fun t pair => insert pair.1 pair.2 t) t) := by
    induction pairs with
    | nil => exact fun t ht => ht
    | cons pair rest ih => exact fun t ht => ih _ (increasing_insert ht)
  exact hfold [] increasing_nil

end TemplateCache.Toml.Table
