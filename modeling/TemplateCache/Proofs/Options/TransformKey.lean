import TemplateCache.Options.Basic
import TemplateCache.Proofs.Toml.ValueText

/-!
# Which options have the same key

The key of options has a line `key=value` for each extra value. The text of a value tells the
value, and where it ends. The text of a key is the key as it is, so a key may go on over the sign
that was meant to end another one, and over whole lines after it (`Swallows`). A date-time under a
key is written as the table that stands for it, so it is taken for that table (`Value.standing`).

There is no third way: keys of options are the same exactly when the extra values are, or when
they are confused in one of these two ways (`transformKey_eq_iff`).
-/

namespace TemplateCache

open Toml

namespace Toml

/-! ## Values that stand alone -/

/-- A value under a key as its text shows it. -/
def Value.standing : Value → Value
  | .scalar (.datetime d) =>
      .table [(datetimeKey, .scalar (.string (String.ofList d.text)))]
  | v => v

theorem Value.standaloneText_eq (v : Value) : v.standaloneText = v.standing.text := by
  cases v with
  | scalar s =>
      cases s with
      | datetime d =>
          simp only [standaloneText, standing, Value.text, Scalar.text, entriesText,
            String.toList_ofList]
      | _ => rfl
  | array items => rfl
  | table entries => rfl

theorem Value.Every.standing {v : Value} (h : v.Every Scalar.Plain) :
    v.standing.Every Scalar.Plain := by
  cases v with
  | scalar s =>
      cases s with
      | datetime d =>
          rw [Value.standing, Value.Every, entriesEvery, Value.Every, entriesEvery]
          exact ⟨trivial, trivial⟩
      | _ => exact h
  | array items => exact h
  | table entries => exact h

/-- The extra values as the key of the options shows them. -/
def standingEntries (entries : List (String × Value)) : List (String × Value) :=
  entries.map fun entry => (entry.1, entry.2.standing)

theorem entriesEvery_standing {entries : List (String × Value)}
    (h : entriesEvery Scalar.Plain entries) :
    entriesEvery Scalar.Plain (standingEntries entries) := by
  induction entries with
  | nil => exact h
  | cons entry entries ih =>
      obtain ⟨key, value⟩ := entry
      rw [entriesEvery] at h
      rw [standingEntries, List.map_cons, entriesEvery]
      exact ⟨h.1.standing, ih h.2⟩

/-! ## Lines -/

/-- The lines of keys with their values, no value being a date-time. -/
def linesText (entries : List (String × Value)) : List Char :=
  entries.flatMap fun entry => entry.1.toList ++ '=' :: entry.2.text ++ ['\n']

theorem linesText_cons (key : String) (value : Value) (entries : List (String × Value)) :
    linesText ((key, value) :: entries) =
      key.toList ++ '=' :: (value.text ++ '\n' :: linesText entries) := by
  simp [linesText]

/-- From some entry on, a key of the second list is one of the first with the sign after it and
more, and the lines go on alike where that longer key ends. -/
inductive Swallows : List (String × Value) → List (String × Value) → Prop where
  | here {key key' : String} {value value' : Value} {rest rest' : List (String × Value)}
      {more : List Char} :
      key'.toList = key.toList ++ '=' :: more →
      value.text ++ '\n' :: linesText rest =
        more ++ '=' :: (value'.text ++ '\n' :: linesText rest') →
      Swallows ((key, value) :: rest) ((key', value') :: rest')
  | there {entry : String × Value} {rest rest' : List (String × Value)} :
      Swallows rest rest' → Swallows (entry :: rest) (entry :: rest')

theorem Swallows.linesText_eq {a b : List (String × Value)} (h : Swallows a b) :
    linesText a = linesText b := by
  induction h with
  | here hkey hrest =>
      rw [linesText_cons, linesText_cons, hkey, hrest, List.append_assoc, List.cons_append]
  | there _ ih =>
      obtain ⟨key, value⟩ := ‹String × Value›
      rw [linesText_cons, linesText_cons, ih]

/-- What swallows is a key that goes on over the sign after another. -/
theorem Swallows.keys {a b : List (String × Value)} (h : Swallows a b) :
    ∃ entry ∈ a, ∃ entry' ∈ b, entry.1.toList ++ ['='] <+: entry'.1.toList := by
  induction h with
  | @here key key' value value' rest rest' more hkey _ =>
      refine ⟨(key, value), List.mem_cons_self, (key', value'), List.mem_cons_self, more, ?_⟩
      rw [hkey, List.append_assoc, List.singleton_append]
  | there _ ih =>
      obtain ⟨entry, hentry, entry', hentry', hprefix⟩ := ih
      exact ⟨entry, List.mem_cons_of_mem _ hentry, entry', List.mem_cons_of_mem _ hentry', hprefix⟩

/-- Lines that begin alike: the keys are the same, and with them the rest of the line, or one key
goes on over the sign after the other. -/
theorem line_cases {key key' tail tail' : List Char}
    (h : key ++ '=' :: tail = key' ++ '=' :: tail') :
    (key = key' ∧ tail = tail') ∨
    (∃ more, key' = key ++ '=' :: more ∧ tail = more ++ '=' :: tail') ∨
    (∃ more, key = key' ++ '=' :: more ∧ tail' = more ++ '=' :: tail) := by
  rcases List.append_eq_append_iff.mp h with ⟨more, hkey, htail⟩ | ⟨more, hkey, htail⟩
  · cases more with
    | nil => exact .inl ⟨by rw [hkey, List.append_nil], (List.cons.inj htail).2⟩
    | cons c more =>
        obtain ⟨rfl, hrest⟩ := List.cons.inj htail
        exact .inr (.inl ⟨more, hkey, hrest⟩)
  · cases more with
    | nil => exact .inl ⟨by rw [hkey, List.append_nil], (List.cons.inj htail).2.symm⟩
    | cons c more =>
        obtain ⟨rfl, hrest⟩ := List.cons.inj htail
        exact .inr (.inr ⟨more, hkey, hrest⟩)

theorem linesText_ne_nil (entry : String × Value) (entries : List (String × Value)) :
    linesText (entry :: entries) ≠ linesText [] := by
  obtain ⟨key, value⟩ := entry
  rw [linesText_cons]
  exact List.append_ne_nil_of_right_ne_nil _ (List.cons_ne_nil _ _)

/-- Lines are the same only for the same entries or where a key swallows. -/
theorem eq_or_swallows {a b : List (String × Value)} (ha : entriesEvery Scalar.Plain a)
    (hb : entriesEvery Scalar.Plain b) (h : linesText a = linesText b) :
    a = b ∨ Swallows a b ∨ Swallows b a := by
  induction a generalizing b with
  | nil =>
      cases b with
      | nil => exact .inl rfl
      | cons entry b => exact absurd h.symm (linesText_ne_nil entry b)
  | cons entry a ih =>
      cases b with
      | nil => exact absurd h (linesText_ne_nil entry a)
      | cons entry' b =>
          obtain ⟨key, value⟩ := entry
          obtain ⟨key', value'⟩ := entry'
          rw [entriesEvery] at ha hb
          rw [linesText_cons, linesText_cons] at h
          rcases line_cases h with ⟨hkey, htail⟩ | ⟨more, hkey, htail⟩ | ⟨more, hkey, htail⟩
          -- the values end at the same line end, so the rest of the lines is the same too
          · obtain ⟨rfl, hlines⟩ := Value.text_inj ha.1 hb.1 (afterValue_cons rfl _)
              (afterValue_cons rfl _) htail
            rw [String.toList_inj.mp hkey]
            rcases ih ha.2 hb.2 (List.cons.inj hlines).2 with rfl | hswallows | hswallows
            · exact .inl rfl
            · exact .inr (.inl (.there hswallows))
            · exact .inr (.inr (.there hswallows))
          · exact .inr (.inl (.here hkey htail))
          · exact .inr (.inr (.here hkey htail))

/-! ## Equality of values -/

mutual

/-- A value without NaN equals itself. -/
theorem Value.equal_self : ∀ {v : Value}, v.Every Scalar.Plain → v.equal v = true
  | .scalar s, h => by
      rw [Value.Every] at h
      rw [Value.equal]
      cases s with
      | float f =>
          have hnan : f.isNaN = false := h
          simp [Scalar.equal, Binary64.equal, hnan]
      | _ => simp [Scalar.equal]
  | .array items, h => by
      rw [Value.Every] at h
      rw [Value.equal]
      exact itemsEqual_self h
  | .table entries, h => by
      rw [Value.Every] at h
      rw [Value.equal]
      exact entriesEqual_self h

theorem itemsEqual_self : ∀ {items : List Value}, itemsEvery Scalar.Plain items →
    Value.itemsEqual items items = true
  | [], _ => by rw [Value.itemsEqual]
  | item :: items, h => by
      rw [itemsEvery] at h
      rw [Value.itemsEqual, Value.equal_self h.1, itemsEqual_self h.2]
      rfl

theorem entriesEqual_self : ∀ {entries : List (String × Value)},
    entriesEvery Scalar.Plain entries → Value.entriesEqual entries entries = true
  | [], _ => by rw [Value.entriesEqual]
  | (key, value) :: entries, h => by
      rw [entriesEvery] at h
      rw [Value.entriesEqual, Value.equal_self h.1, entriesEqual_self h.2, beq_self_eq_true]
      rfl

end

end Toml

namespace Options

/-! ## Options -/

/-- No extra value holds a NaN, and every date-time in them is one. -/
def Plain (o : Options) : Prop := entriesEvery Scalar.Plain o.extra

/-- Extra values that are not the same and are written alike: they differ only in date-times where
the tables that stand for them are, or a key of one swallows entries of the other. -/
def Confused (a b : Options) : Prop :=
  a.extra ≠ b.extra ∧
    (standingEntries a.extra = standingEntries b.extra ∨
      Swallows (standingEntries a.extra) (standingEntries b.extra) ∨
      Swallows (standingEntries b.extra) (standingEntries a.extra))

theorem transformKey_eq_lines (o : Options) :
    o.transformKey = linesText (standingEntries o.extra) := by
  simp only [transformKey, entryText, linesText, standingEntries, List.flatMap_map,
    Value.standaloneText_eq]

/-- Options have the same key exactly when their extra values are the same or confused. -/
theorem transformKey_eq_iff {a b : Options} (ha : a.Plain) (hb : b.Plain) :
    a.transformKey = b.transformKey ↔ a.extra = b.extra ∨ Confused a b := by
  rw [transformKey_eq_lines, transformKey_eq_lines]
  constructor
  · intro h
    by_cases hsame : a.extra = b.extra
    · exact .inl hsame
    · exact .inr ⟨hsame, eq_or_swallows (entriesEvery_standing ha) (entriesEvery_standing hb) h⟩
  · rintro (hsame | ⟨-, hstanding | hswallows | hswallows⟩)
    · rw [hsame]
    · rw [hstanding]
    · exact hswallows.linesText_eq
    · exact hswallows.linesText_eq.symm

theorem extra_ne_of_entriesEqual {a b : Options} (ha : a.Plain)
    (h : Value.entriesEqual a.extra b.extra = false) : a.extra ≠ b.extra := by
  intro hsame
  rw [← hsame, entriesEqual_self ha] at h
  cases h

end Options

end TemplateCache
