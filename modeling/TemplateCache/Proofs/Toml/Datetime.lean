import TemplateCache.Proofs.Number.Digits
import TemplateCache.Toml.Datetime

/-!
# The text of a date-time

Runs of digits with marks between them, so a text can be cut into its numbers again. The digits of
a fraction are cut short at their end, but there were nine of them, so the missing ones are known.

A date-time without date and time, or with a billion nanoseconds, is none of the kinds that there
are; of the others no two have the same text (`Datetime.text_injective`).
-/

namespace TemplateCache.Toml

open Decimal

/-! ## Dates -/

theorem Date.text_inj {d d' : Date} {rest rest' : List Char}
    (hrest : Runs.Ends Char.isDigit rest) (hrest' : Runs.Ends Char.isDigit rest')
    (h : d.text ++ rest = d'.text ++ rest') : d = d' ∧ rest = rest' := by
  have hmark : ∀ more, Runs.Ends Char.isDigit ('-' :: more) := Runs.ends_cons rfl
  simp only [Date.text, List.append_assoc, List.cons_append] at h
  obtain ⟨hyear, h⟩ := padded_inj (hmark _) (hmark _) h
  obtain ⟨hmonth, h⟩ := padded_inj (hmark _) (hmark _) (List.cons.inj h).2
  obtain ⟨hday, h⟩ := padded_inj hrest hrest' (List.cons.inj h).2
  refine ⟨?_, h⟩
  cases d
  cases d'
  simp_all

/-! ## Times -/

/-- A text that may follow a time: neither a digit nor a point. -/
def AfterTime (rest : List Char) : Prop := Runs.Ends (fun c => c.isDigit || c == '.') rest

theorem AfterTime.ends_digit {rest : List Char} (h : AfterTime rest) :
    Runs.Ends Char.isDigit rest :=
  fun c hc => (Bool.or_eq_false_iff.mp (h c hc)).1

theorem AfterTime.head_ne_point {rest : List Char} (h : AfterTime rest) (more : List Char) :
    rest ≠ '.' :: more := by
  rintro rfl
  cases h '.' rfl

/-- Digits without the zeros at their end. -/
theorem trimmed_append (text : List Char) : ∃ k,
    text = (text.reverse.dropWhile (· == '0')).reverse ++ List.replicate k '0' := by
  refine ⟨(text.reverse.takeWhile (· == '0')).length, ?_⟩
  have hzeros : text.reverse.takeWhile (· == '0') =
      List.replicate (text.reverse.takeWhile (· == '0')).length '0' :=
    List.eq_replicate_of_mem fun c hc =>
      beq_iff_eq.mp (List.all_eq_true.mp List.all_takeWhile c hc)
  rw [← List.reverse_replicate, ← hzeros, ← List.reverse_append, List.takeWhile_append_dropWhile,
    List.reverse_reverse]

/-- Texts of one length are known by what is left without the zeros at their end. -/
theorem eq_of_trimmed_eq {a b : List Char} (hlength : a.length = b.length)
    (h : (a.reverse.dropWhile (· == '0')).reverse = (b.reverse.dropWhile (· == '0')).reverse) :
    a = b := by
  obtain ⟨k, ha⟩ := trimmed_append a
  obtain ⟨l, hb⟩ := trimmed_append b
  rw [ha, hb] at hlength
  rw [h, List.length_append, List.length_append, List.length_replicate, List.length_replicate]
    at hlength
  rw [ha, hb, h, Nat.add_left_cancel hlength]

theorem fractionText_inj {n n' : Nat} (hn : n < 10 ^ 9) (hn' : n' < 10 ^ 9) {rest rest' : List Char}
    (hrest : AfterTime rest) (hrest' : AfterTime rest')
    (h : Time.fractionText n ++ rest = Time.fractionText n' ++ rest') : n = n' ∧ rest = rest' := by
  have hdigits : ∀ n, AllDigits ((padded 9 n).reverse.dropWhile (· == '0')).reverse := by
    intro n c hc
    have hmem := (List.dropWhile_sublist _).mem (List.mem_reverse.mp hc)
    exact allDigits_padded 9 n c (List.mem_reverse.mp hmem)
  unfold Time.fractionText at h
  split at h <;> split at h
  · next hzero hzero' => exact ⟨hzero.trans hzero'.symm, h⟩
  · exact absurd h (hrest.head_ne_point _)
  · exact absurd h.symm (hrest'.head_ne_point _)
  -- only zeros were cut off, and both had nine digits
  · obtain ⟨htrimmed, htail⟩ := (hdigits n).inj (hdigits n') hrest.ends_digit hrest'.ends_digit
      (List.cons.inj h).2
    refine ⟨padded_injective (eq_of_trimmed_eq ?_ htrimmed), htail⟩
    rw [length_padded (by decide) hn, length_padded (by decide) hn']

theorem Time.text_inj {t t' : Time} (ht : t.nanosecond < 10 ^ 9) (ht' : t'.nanosecond < 10 ^ 9)
    {rest rest' : List Char} (hrest : AfterTime rest) (hrest' : AfterTime rest')
    (h : t.text ++ rest = t'.text ++ rest') : t = t' ∧ rest = rest' := by
  have hmark : ∀ more, Runs.Ends Char.isDigit (':' :: more) := Runs.ends_cons rfl
  have hfraction : ∀ n {rest : List Char}, AfterTime rest →
      Runs.Ends Char.isDigit (fractionText n ++ rest) := by
    intro n rest hrest
    unfold fractionText
    split
    · exact hrest.ends_digit
    · exact Runs.ends_cons rfl _
  simp only [Time.text, List.append_assoc, List.cons_append] at h
  obtain ⟨hhour, h⟩ := padded_inj (hmark _) (hmark _) h
  obtain ⟨hminute, h⟩ := padded_inj (hmark _) (hmark _) (List.cons.inj h).2
  obtain ⟨hsecond, h⟩ := padded_inj (hfraction _ hrest) (hfraction _ hrest') (List.cons.inj h).2
  obtain ⟨hnanosecond, h⟩ := fractionText_inj ht ht' hrest hrest' h
  refine ⟨?_, h⟩
  cases t
  cases t'
  simp_all

/-! ## Offsets -/

/-- The text of an offset that may be missing. -/
def offsetText (offset : Option Offset) : List Char := (offset.map Offset.text).getD []

theorem offsetText_head {offset : Option Offset} {c : Char}
    (h : (offsetText offset).head? = some c) : c = 'Z' ∨ c = '-' ∨ c = '+' := by
  rcases offset with _ | _ | m
  · cases h
  · exact .inl (Option.some.inj h).symm
  · simp only [offsetText, Option.map_some, Option.getD_some, Offset.text, List.cons_append,
      List.head?_cons, Option.some.injEq] at h
    split at h
    · exact .inr (.inl h.symm)
    · exact .inr (.inr h.symm)

theorem afterTime_offsetText (offset : Option Offset) : AfterTime (offsetText offset) := by
  intro c hc
  rcases offsetText_head hc with rfl | rfl | rfl <;> rfl

theorem minutes_inj {m n : Int} (h : Offset.text (.minutes m) = Offset.text (.minutes n)) :
    m = n := by
  simp only [Offset.text, List.cons_append] at h
  obtain ⟨hsign, h⟩ := List.cons.inj h
  have hmark : ∀ more, Runs.Ends Char.isDigit (':' :: more) := Runs.ends_cons rfl
  obtain ⟨hhours, h⟩ := padded_inj (hmark _) (hmark _) h
  have hminutes := padded_injective (List.cons.inj h).2
  split at hsign <;> split at hsign
  · omega
  · cases hsign
  · cases hsign
  · omega

theorem offsetText_injective {a b : Option Offset} (h : offsetText a = offsetText b) : a = b := by
  have hcons : ∀ m : Int, ∃ c rest, offsetText (some (.minutes m)) = c :: rest ∧
      c ≠ 'Z' := by
    intro m
    simp only [offsetText, Option.map_some, Option.getD_some, Offset.text, List.cons_append]
    refine ⟨_, _, rfl, ?_⟩
    split <;> decide
  rcases a with _ | _ | m <;> rcases b with _ | _ | n
  · rfl
  · cases h
  · obtain ⟨c, rest, hn, -⟩ := hcons n
    rw [hn] at h
    cases h
  · cases h
  · rfl
  · obtain ⟨c, rest, hn, hc⟩ := hcons n
    rw [hn] at h
    exact absurd (List.cons.inj h).1.symm hc
  · obtain ⟨c, rest, hm, -⟩ := hcons m
    rw [hm] at h
    cases h
  · obtain ⟨c, rest, hm, hc⟩ := hcons m
    rw [hm] at h
    exact absurd (List.cons.inj h).1 hc
  · rw [minutes_inj h]

/-! ## The whole -/

namespace Datetime

/-- A date or a time is there, and the fraction is less than a second. -/
structure Proper (d : Datetime) : Prop where
  some : d.date.isSome ∨ d.time.isSome
  fraction : ∀ t, d.time = .some t → t.nanosecond < 10 ^ 9

/-- A time after a date. -/
def laterText (time : Option Time) : List Char := (time.map fun t => 'T' :: t.text).getD []

theorem text_of_date (date : Date) (time : Option Time) (offset : Option Offset) :
    text ⟨.some date, time, offset⟩ = date.text ++ (laterText time ++ offsetText offset) := by
  cases time <;> simp [text, laterText, offsetText]

theorem text_of_time (time : Time) (offset : Option Offset) :
    text ⟨none, .some time, offset⟩ = time.text ++ offsetText offset := by
  simp [text, offsetText]

theorem ends_laterText (time : Option Time) (offset : Option Offset) :
    Runs.Ends Char.isDigit (laterText time ++ offsetText offset) := by
  cases time with
  | none => exact (afterTime_offsetText offset).ends_digit
  | some t => exact Runs.ends_cons rfl _

theorem later_inj {time time' : Option Time} {offset offset' : Option Offset}
    (htime : ∀ t, time = .some t → t.nanosecond < 10 ^ 9)
    (htime' : ∀ t, time' = .some t → t.nanosecond < 10 ^ 9)
    (h : laterText time ++ offsetText offset = laterText time' ++ offsetText offset') :
    time = time' ∧ offset = offset' := by
  have hmark : ∀ (offset : Option Offset) rest, offsetText offset ≠ 'T' :: rest := by
    intro offset rest e
    rcases offsetText_head (c := 'T') (by rw [e]; rfl) with h | h | h <;> cases h
  cases time with
  | none =>
      cases time' with
      | none => exact ⟨rfl, offsetText_injective h⟩
      | some t' => exact absurd h (hmark _ _)
  | some t =>
      cases time' with
      | none => exact absurd h.symm (hmark _ _)
      | some t' =>
          obtain ⟨ht, hoffset⟩ := Time.text_inj (htime t rfl) (htime' t' rfl)
            (afterTime_offsetText offset) (afterTime_offsetText offset') (List.cons.inj h).2
          exact ⟨congrArg _ ht, offsetText_injective hoffset⟩

/-- A date begins with four digits and a line, a time with two digits and a colon. -/
theorem date_ne_time (date : Date) (time : Time) (rest rest' : List Char) :
    date.text ++ rest ≠ time.text ++ rest' := by
  intro h
  simp only [Date.text, Time.text, List.append_assoc, List.cons_append] at h
  obtain ⟨-, htail⟩ := (allDigits_padded 4 date.year).inj (allDigits_padded 2 time.hour)
    (Runs.ends_cons rfl _) (Runs.ends_cons rfl _) h
  cases (List.cons.inj htail).1

theorem text_injective {d d' : Datetime} (hd : d.Proper) (hd' : d'.Proper)
    (h : d.text = d'.text) : d = d' := by
  obtain ⟨date, time, offset⟩ := d
  obtain ⟨date', time', offset'⟩ := d'
  cases date with
  | some date =>
      rw [text_of_date] at h
      cases date' with
      | some date' =>
          rw [text_of_date] at h
          obtain ⟨rfl, hlater⟩ := Date.text_inj (ends_laterText _ _) (ends_laterText _ _) h
          obtain ⟨rfl, rfl⟩ := later_inj hd.fraction hd'.fraction hlater
          rfl
      -- without a date there is a time
      | none =>
          obtain ⟨time', rfl⟩ := Option.isSome_iff_exists.mp
            (hd'.some.resolve_left Bool.false_ne_true)
          rw [text_of_time] at h
          exact absurd h (date_ne_time _ _ _ _)
  | none =>
      obtain ⟨time, rfl⟩ := Option.isSome_iff_exists.mp
        (hd.some.resolve_left Bool.false_ne_true)
      rw [text_of_time] at h
      cases date' with
      | some date' =>
          rw [text_of_date] at h
          exact absurd h.symm (date_ne_time _ _ _ _)
      | none =>
          obtain ⟨time', rfl⟩ := Option.isSome_iff_exists.mp
            (hd'.some.resolve_left Bool.false_ne_true)
          rw [text_of_time] at h
          obtain ⟨rfl, hoffset⟩ := Time.text_inj (hd.fraction time rfl) (hd'.fraction time' rfl)
            (afterTime_offsetText offset) (afterTime_offsetText offset') h
          rw [offsetText_injective hoffset]

/-! ## Characters -/

/-- A digit or one of the marks of a date-time. -/
def IsPart (c : Char) : Prop := c.isDigit = true ∨ c ∈ ['-', ':', '.', 'T', 'Z', '+']

theorem isPart_padded {width n : Nat} : ∀ c ∈ padded width n, IsPart c :=
  fun c hc => .inl (allDigits_padded width n c hc)

theorem isPart_append {a b : List Char} (ha : ∀ c ∈ a, IsPart c) (hb : ∀ c ∈ b, IsPart c) :
    ∀ c ∈ a ++ b, IsPart c := by
  intro c hc
  rcases List.mem_append.mp hc with hc | hc
  · exact ha c hc
  · exact hb c hc

theorem isPart_cons {d : Char} {text : List Char} (hd : d ∈ ['-', ':', '.', 'T', 'Z', '+'])
    (h : ∀ c ∈ text, IsPart c) : ∀ c ∈ d :: text, IsPart c := by
  intro c hc
  rcases List.mem_cons.mp hc with rfl | hc
  · exact .inr hd
  · exact h c hc

theorem isPart_date (d : Date) : ∀ c ∈ d.text, IsPart c := by
  unfold Date.text
  exact isPart_append (isPart_append isPart_padded (isPart_cons (by decide) isPart_padded))
    (isPart_cons (by decide) isPart_padded)

theorem isPart_fractionText (n : Nat) : ∀ c ∈ Time.fractionText n, IsPart c := by
  unfold Time.fractionText
  split
  · intro c hc
    cases hc
  · refine isPart_cons (by decide) fun c hc => ?_
    have hmem := (List.dropWhile_sublist _).mem (List.mem_reverse.mp hc)
    exact isPart_padded c (List.mem_reverse.mp hmem)

theorem isPart_time (t : Time) : ∀ c ∈ t.text, IsPart c := by
  unfold Time.text
  exact isPart_append (isPart_append (isPart_append isPart_padded
    (isPart_cons (by decide) isPart_padded)) (isPart_cons (by decide) isPart_padded))
    (isPart_fractionText _)

theorem isPart_offset (o : Offset) : ∀ c ∈ o.text, IsPart c := by
  cases o with
  | utc => exact isPart_cons (by decide) fun c hc => by cases hc
  | minutes m =>
      unfold Offset.text
      refine isPart_append (isPart_cons ?_ isPart_padded) (isPart_cons (by decide) isPart_padded)
      split <;> decide

theorem isPart_text (d : Datetime) : ∀ c ∈ d.text, IsPart c := by
  obtain ⟨date, time, offset⟩ := d
  unfold text
  refine isPart_append (isPart_append ?_ ?_) ?_
  · cases date with
    | none => exact fun c hc => by cases hc
    | some date => exact isPart_date date
  · cases time with
    | none => exact fun c hc => by cases hc
    | some time =>
        simp only [Option.map_some, Option.getD_some]
        split
        · exact isPart_cons (by decide) (isPart_time time)
        · exact isPart_time time
  · cases offset with
    | none => exact fun c hc => by cases hc
    | some offset => exact isPart_offset offset

/-- A date-time begins with a digit, and a line or a colon comes later. -/
theorem text_head {d : Datetime} (h : d.Proper) :
    ∃ c more, d.text = c :: more ∧ c.isDigit = true ∧ ('-' ∈ more ∨ ':' ∈ more) := by
  have hdigit : ∀ width n, ∃ c more, padded width n = c :: more ∧ c.isDigit = true := by
    intro width n
    obtain ⟨c, more, heq⟩ := List.exists_cons_of_ne_nil (padded_ne_nil width n)
    exact ⟨c, more, heq, allDigits_padded width n c (heq ▸ List.mem_cons_self)⟩
  obtain ⟨date, time, offset⟩ := d
  cases date with
  | some date =>
      obtain ⟨c, more, heq, hc⟩ := hdigit 4 date.year
      rw [text_of_date, Date.text, heq]
      exact ⟨c, _, rfl, hc, .inl (by simp)⟩
  | none =>
      obtain ⟨time, rfl⟩ := Option.isSome_iff_exists.mp
        (h.some.resolve_left Bool.false_ne_true)
      obtain ⟨c, more, heq, hc⟩ := hdigit 2 time.hour
      rw [text_of_time, Time.text, heq]
      exact ⟨c, _, rfl, hc, .inr (by simp)⟩

end Datetime

end TemplateCache.Toml
