import TemplateCache.Proofs.Options.TransformKey
import TemplateCache.Toml.Read.Datetime

/-!
# Keys without the sign

Where no key has a `=` in it, the first one after a key ends the key, so no key swallows another,
whatever lines the values hold. With no floats, and date-times as they are read, one way is left to
confuse options: a date-time under a key is taken for the table that stands for it, which is a value
that options can have as well (`Value.Alike`).

So the key of such options tells their extra values, but for this (`transformKey_eq_iff_alike`). That
it does not tell a date-time from a table is a defect: no two options are meant to share a key.
-/

namespace TemplateCache

open Toml

namespace Toml

/-! ## Date-times that are read -/

namespace Datetime

/-- A date-time that some text begins with. -/
def Readable (d : Datetime) : Prop :=
  ∃ text rest, dated? text = some (d, rest) ∨ timed? text = some (d, rest)

theorem nanoseconds_lt {digits : List Char} (h : Decimal.AllDigits digits) :
    Time.nanoseconds digits < 10 ^ 9 := by
  have hlength : (digits.take 9).length ≤ 9 := List.length_take_le 9 digits
  have hdigits : Decimal.AllDigits (digits.take 9) := fun c hc => h c (List.mem_of_mem_take hc)
  calc Time.nanoseconds digits
      = Decimal.ofDigits 10 (digits.take 9) * 10 ^ (9 - (digits.take 9).length) := rfl
    _ < 10 ^ (digits.take 9).length * 10 ^ (9 - (digits.take 9).length) :=
        Nat.mul_lt_mul_of_pos_right (Decimal.ofDigits_lt hdigits) (Nat.pow_pos (by decide))
    _ = 10 ^ 9 := by rw [← Nat.pow_add, Nat.add_sub_cancel' hlength]

theorem fraction?_lt {text rest : List Char} {n : Nat} (h : fraction? text = some (n, rest)) :
    n < 10 ^ 9 := by
  unfold fraction? at h
  split at h
  · dsimp only at h
    split at h
    · cases h
    · cases h
      exact nanoseconds_lt fun c hc => List.all_eq_true.mp List.all_takeWhile c hc
  · cases h
    decide

theorem time?_nanosecond_lt {text rest : List Char} {t : Time} (h : time? text = some (t, rest)) :
    t.nanosecond < 10 ^ 9 := by
  unfold time? at h
  simp only [Option.bind_eq_bind, Option.bind_eq_some_iff] at h
  obtain ⟨⟨⟨hour, minute⟩, more⟩, -, more', -, ⟨second, more''⟩, -, ⟨nanosecond, last⟩,
    hfraction, h⟩ := h
  split at h
  · cases h
    exact fraction?_lt hfraction
  · cases h

theorem afterDate?_proper {date : Date} {text rest : List Char} {d : Datetime}
    (h : afterDate? date text = some (d, rest)) : d.Proper := by
  unfold afterDate? at h
  simp only [Option.bind_eq_bind, Option.bind_eq_some_iff] at h
  obtain ⟨⟨time, more⟩, htime, ⟨offset, last⟩, -, h⟩ := h
  cases h
  refine ⟨.inl rfl, fun t ht => ?_⟩
  cases ht
  exact time?_nanosecond_lt htime

/-- What is read is a date-time that is one. -/
theorem Readable.proper {d : Datetime} (h : d.Readable) : d.Proper := by
  have hdate : ∀ date : Date, Proper ⟨some date, none, none⟩ := fun date =>
    ⟨.inl rfl, fun t ht => by cases ht⟩
  obtain ⟨text, rest, h | h⟩ := h
  · unfold dated? at h
    simp only [Option.bind_eq_bind, Option.bind_eq_some_iff] at h
    obtain ⟨⟨date, more⟩, -, h⟩ := h
    dsimp only at h
    split at h
    · exact afterDate?_proper h
    · exact afterDate?_proper h
    · split at h
      · exact afterDate?_proper h
      · cases h
        exact hdate date
    · cases h
      exact hdate date
  · unfold timed? at h
    simp only [Option.bind_eq_bind, Option.bind_eq_some_iff] at h
    obtain ⟨⟨time, more⟩, htime, h⟩ := h
    cases h
    refine ⟨.inr rfl, fun t ht => ?_⟩
    cases ht
    exact time?_nanosecond_lt htime

/-- The table that is written for a date-time under a key. -/
def standIn (d : Datetime) : Value :=
  .table [(datetimeKey, .scalar (.string (String.ofList d.text)))]

theorem standIn_injective {d d' : Datetime} (hd : d.Proper) (hd' : d'.Proper)
    (h : d.standIn = d'.standIn) : d = d' := by
  simp only [standIn, Value.table.injEq, List.cons.injEq, Prod.mk.injEq, Value.scalar.injEq,
    Scalar.string.injEq, true_and, and_true] at h
  exact text_injective hd hd' (String.ofList_injective h)

end Datetime

/-! ## Values that can be read back -/

/-- No float, and no date-time that is not read. -/
def Scalar.Legible : Scalar → Prop
  | .float _ => False
  | .datetime d => d.Readable
  | _ => True

theorem Scalar.Legible.plain {s : Scalar} (h : s.Legible) : s.Plain := by
  cases s with
  | float f => cases h
  | datetime d => exact Datetime.Readable.proper h
  | _ => exact trivial

mutual

theorem Value.Every.mono {p q : Scalar → Prop} (hpq : ∀ s, p s → q s) :
    ∀ {v : Value}, v.Every p → v.Every q
  | .scalar s, h => by
      rw [Value.Every] at h ⊢
      exact hpq s h
  | .array items, h => by
      rw [Value.Every] at h ⊢
      exact itemsEvery_mono hpq h
  | .table entries, h => by
      rw [Value.Every] at h ⊢
      exact entriesEvery_mono hpq h

theorem itemsEvery_mono {p q : Scalar → Prop} (hpq : ∀ s, p s → q s) :
    ∀ {items : List Value}, itemsEvery p items → itemsEvery q items
  | [], _ => by rw [itemsEvery]; trivial
  | item :: items, h => by
      rw [itemsEvery] at h ⊢
      exact ⟨h.1.mono hpq, itemsEvery_mono hpq h.2⟩

theorem entriesEvery_mono {p q : Scalar → Prop} (hpq : ∀ s, p s → q s) :
    ∀ {entries : List (String × Value)}, entriesEvery p entries → entriesEvery q entries
  | [], _ => by rw [entriesEvery]; trivial
  | (key, value) :: entries, h => by
      rw [entriesEvery] at h ⊢
      exact ⟨h.1.mono hpq, entriesEvery_mono hpq h.2⟩

end

/-! ## Values that are written alike -/

/-- The same value, or a date-time and the table that stands for it. -/
inductive Value.Alike : Value → Value → Prop where
  | same (v : Value) : Alike v v
  | tabled (d : Datetime) : Alike (.scalar (.datetime d)) d.standIn
  | timed (d : Datetime) : Alike d.standIn (.scalar (.datetime d))

/-- A value under a key is either a date-time or written as it is. -/
theorem Value.standing_cases (v : Value) :
    (∃ d, v = .scalar (.datetime d) ∧ v.standing = d.standIn) ∨ v.standing = v := by
  cases v with
  | scalar s =>
      cases s with
      | datetime d => exact .inl ⟨d, rfl, rfl⟩
      | _ => exact .inr rfl
  | array items => exact .inr rfl
  | table entries => exact .inr rfl

theorem Value.standing_eq_iff {v w : Value} (hv : v.Every Scalar.Plain)
    (hw : w.Every Scalar.Plain) : v.standing = w.standing ↔ v.Alike w := by
  constructor
  · intro h
    obtain ⟨d, rfl, hd⟩ | hv' := v.standing_cases <;> obtain ⟨d', rfl, hd'⟩ | hw' := w.standing_cases
    · rw [Value.Every] at hv hw
      rw [hd, hd'] at h
      cases Datetime.standIn_injective hv hw h
      exact .same _
    · rw [hd, hw'] at h
      exact h ▸ .tabled d
    · rw [hv', hd'] at h
      exact h ▸ .timed d'
    · rw [hv', hw'] at h
      exact h ▸ .same v
  · intro h
    cases h with
    | same => rfl
    | tabled d => rfl
    | timed d => rfl

/-- Entries under the same keys with values that are written alike. -/
def EntriesAlike (a b : List (String × Value)) : Prop :=
  List.Forall₂ (fun entry entry' => entry.1 = entry'.1 ∧ entry.2.Alike entry'.2) a b

theorem standingEntries_eq_iff {a b : List (String × Value)} (ha : entriesEvery Scalar.Plain a)
    (hb : entriesEvery Scalar.Plain b) :
    standingEntries a = standingEntries b ↔ EntriesAlike a b := by
  unfold EntriesAlike
  induction a generalizing b with
  | nil => cases b <;> simp [standingEntries]
  | cons entry a ih =>
      cases b with
      | nil => simp [standingEntries]
      | cons entry' b =>
          obtain ⟨key, value⟩ := entry
          obtain ⟨key', value'⟩ := entry'
          rw [entriesEvery] at ha hb
          have hrest := ih ha.2 hb.2
          unfold standingEntries at hrest ⊢
          rw [List.map_cons, List.map_cons, List.cons.injEq, Prod.mk.injEq,
            Value.standing_eq_iff ha.1 hb.1, hrest, List.forall₂_cons]

/-- Where no table stands for a date-time, entries that are written alike are the same. -/
theorem EntriesAlike.eq {a b : List (String × Value)} (h : EntriesAlike a b)
    (hno : ∀ entry ∈ a ++ b, ∀ d : Datetime, entry.2 ≠ d.standIn) : a = b := by
  unfold EntriesAlike at h
  induction h with
  | nil => rfl
  | @cons entry entry' a b hentry _ ih =>
      have hrest : a = b := ih fun e he d => hno e (by simp at he ⊢; tauto) d
      obtain ⟨key, value⟩ := entry
      obtain ⟨key', value'⟩ := entry'
      obtain ⟨hkey, hvalue⟩ := hentry
      dsimp only at hkey hvalue
      subst hkey hrest
      cases hvalue with
      | same => rfl
      | tabled d => exact absurd rfl (hno (key, d.standIn) (by simp) d)
      | timed d => exact absurd rfl (hno (key, d.standIn) (by simp) d)

end Toml

namespace Options

/-! ## Options -/

/-- Options whose keys have no sign in them and whose extra values hold no float. -/
structure Legible (o : Options) : Prop where
  keys : ∀ entry ∈ o.extra, '=' ∉ entry.1.toList
  values : entriesEvery Scalar.Legible o.extra

theorem Legible.plain {o : Options} (h : o.Legible) : o.Plain :=
  entriesEvery_mono (fun _ => Scalar.Legible.plain) h.values

/-- A key without the sign does not swallow. -/
theorem Legible.not_swallows {a b : Options} (hb : b.Legible) :
    ¬Swallows (standingEntries a.extra) (standingEntries b.extra) := by
  intro h
  obtain ⟨_, -, entry', hentry', hstart⟩ := h.keys
  obtain ⟨entry, hentry, rfl⟩ := List.mem_map.mp hentry'
  exact hb.keys entry hentry (hstart.subset (by simp))

theorem transformKey_eq_iff_standing {a b : Options} (ha : a.Legible) (hb : b.Legible) :
    a.transformKey = b.transformKey ↔ standingEntries a.extra = standingEntries b.extra := by
  rw [transformKey_eq_iff ha.plain hb.plain]
  constructor
  · rintro (hsame | ⟨-, hstanding | hswallows | hswallows⟩)
    · rw [hsame]
    · exact hstanding
    · exact absurd hswallows hb.not_swallows
    · exact absurd hswallows ha.not_swallows
  · intro hstanding
    by_cases hsame : a.extra = b.extra
    · exact .inl hsame
    · exact .inr ⟨hsame, .inl hstanding⟩

/-- Options whose keys have no sign in them have the same key exactly when their extra values are
written alike; where none of these is a table that stands for a date-time, when they are the
same. -/
theorem transformKey_eq_iff_alike {a b : Options} (ha : a.Legible) (hb : b.Legible) :
    (a.transformKey = b.transformKey ↔ EntriesAlike a.extra b.extra) ∧
    ((∀ entry ∈ a.extra ++ b.extra, ∀ d : Datetime, entry.2 ≠ d.standIn) →
      (a.transformKey = b.transformKey ↔ a.extra = b.extra)) := by
  have halike := (transformKey_eq_iff_standing ha hb).trans
    (standingEntries_eq_iff ha.plain hb.plain)
  refine ⟨halike, fun hno => ⟨fun hkey => (halike.mp hkey).eq hno, fun hsame => ?_⟩⟩
  unfold transformKey
  rw [hsame]

/-- Options with a string whose lines look like entries. -/
def quotedLines : Options where
  destination := .none
  extra := [("k", .scalar (.string "x\nl = 1\nl=1\n")),
    ("when", .scalar (.datetime ⟨some ⟨1979, 5, 27⟩, .none, .none⟩))]

/-- Options with these entries. -/
def entryLines : Options where
  destination := .none
  extra := [("k", .scalar (.string "x\n")), ("l", .scalar (.integer 1)),
    ("when", .scalar (.datetime ⟨some ⟨1979, 5, 27⟩, .none, .none⟩))]

theorem readable_date : Datetime.Readable ⟨some ⟨1979, 5, 27⟩, .none, .none⟩ :=
  ⟨"1979-05-27".toList, [], .inl (by decide)⟩

/-- Lines in a string are told from entries. -/
theorem quoted_lines_told :
    quotedLines.Legible ∧ entryLines.Legible ∧
      (∀ entry ∈ quotedLines.extra ++ entryLines.extra, ∀ d : Datetime, entry.2 ≠ d.standIn) ∧
      quotedLines.transformKey ≠ entryLines.transformKey := by
  have hquoted : quotedLines.Legible := ⟨by decide, trivial, readable_date, trivial⟩
  have hentry : entryLines.Legible := ⟨by decide, trivial, trivial, readable_date, trivial⟩
  have hno : ∀ entry ∈ quotedLines.extra ++ entryLines.extra, ∀ d : Datetime,
      entry.2 ≠ d.standIn := by
    simp [quotedLines, entryLines, Datetime.standIn]
  refine ⟨hquoted, hentry, hno, fun hkey => ?_⟩
  have hsame := ((transformKey_eq_iff_alike hquoted hentry).2 hno).mp hkey
  exact absurd (congrArg List.length hsame) (by decide)

/-- A date is taken for the table that stands for it. -/
theorem date_taken_for_table :
    let date : Options :=
      ⟨.none, [("k", .scalar (.datetime ⟨some ⟨1979, 5, 27⟩, .none, .none⟩))]⟩
    let table : Options :=
      ⟨.none, [("k", .table [("$__toml_private_datetime", .scalar (.string "1979-05-27"))])]⟩
    date.Legible ∧ table.Legible ∧ date.transformKey = table.transformKey ∧
      date.extra ≠ table.extra ∧ date.equal table = false := by
  refine ⟨⟨by decide, readable_date, trivial⟩, ⟨by decide, ⟨trivial, trivial⟩, trivial⟩,
    by decide, ?_, by decide⟩
  intro h
  cases h

end Options

end TemplateCache
