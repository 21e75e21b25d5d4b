import TemplateCache.Proofs.Number.FloatText
import TemplateCache.Proofs.Toml.Datetime
import TemplateCache.Proofs.Toml.Quoted

/-!
# The text of a value tells the value

Two values with a common text are the same, and so is what follows the text, as long as it cannot
be part of a value (`Value.text_inj`). Excluded are the values whose text says less than they do:
all NaNs are written alike, and so may be date-times that are none.

The first character of a text tells strings, arrays, tables and the other scalars apart. Those are
runs of characters that end at the first blank, comma, bracket, brace or line end; what kind of
scalar a run is can be seen from the characters after the first.
-/

namespace TemplateCache.Toml

open Decimal

/-! ## What is inside a value -/

mutual

/-- Every scalar inside a value has a property. -/
def Value.Every (p : Scalar → Prop) : Value → Prop
  | .scalar s => p s
  | .array items => itemsEvery p items
  | .table entries => entriesEvery p entries

def itemsEvery (p : Scalar → Prop) : List Value → Prop
  | [] => True
  | item :: items => item.Every p ∧ itemsEvery p items

def entriesEvery (p : Scalar → Prop) : List (String × Value) → Prop
  | [] => True
  | (_, value) :: entries => value.Every p ∧ entriesEvery p entries

end

/-- A scalar that is fixed by its text: no NaN, and no date-time that is none. -/
def Scalar.Plain : Scalar → Prop
  | .float f => f.isNaN = false
  | .datetime d => d.Proper
  | _ => True

/-! ## Runs -/

/-- The characters of scalars other than strings. -/
def isTokenChar (c : Char) : Bool := c.isDigit || "-+:.TZtruefalsein".toList.contains c

/-- The characters that may follow a value. -/
def isStop (c : Char) : Bool := [',', ' ', ']', '}', '\n'].contains c

/-- A text that may follow a value. -/
def AfterValue (rest : List Char) : Prop := Runs.Ends (fun c => !isStop c) rest

theorem AfterValue.unmarked {rest : List Char} (h : AfterValue rest) : Unmarked rest :=
  ⟨fun e => absurd (h _ e) (by decide), fun e => absurd (h _ e) (by decide)⟩

theorem afterValue_cons {c : Char} (h : isStop c = true) (rest : List Char) :
    AfterValue (c :: rest) :=
  Runs.ends_cons (by rw [h]; rfl) rest

theorem isStop_of_isTokenChar {c : Char} (h : isTokenChar c = true) : isStop c = false := by
  rw [isStop, ← Bool.not_eq_true, List.contains_iff_mem]
  intro hmem
  simp only [List.mem_cons, List.not_mem_nil, or_false] at hmem
  rcases hmem with rfl | rfl | rfl | rfl | rfl <;> cases h

/-- What a value begins with. -/
inductive Opening where
  | string
  | array
  | table
  | token

def Opening.of (c : Char) : Opening :=
  if c = '"' ∨ c = '\'' then .string
  else if c = '[' then .array
  else if c = '{' then .table
  else .token

theorem Opening.of_isTokenChar {c : Char} (h : isTokenChar c = true) : of c = .token := by
  have hne : ∀ {d : Char}, isTokenChar d = false → c ≠ d := by
    rintro d hd rfl
    rw [hd] at h
    cases h
  rw [of, if_neg (not_or.mpr ⟨hne rfl, hne rfl⟩), if_neg (hne rfl), if_neg (hne rfl)]

/-! ## Scalars -/

/-- The kinds of scalars. -/
inductive Kind where
  | string
  | integer
  | float
  | boolean
  | datetime
  deriving DecidableEq

def Scalar.kind : Scalar → Kind
  | .string _ => .string
  | .integer _ => .integer
  | .float _ => .float
  | .boolean _ => .boolean
  | .datetime _ => .datetime

/-- The kind of a scalar other than a string, by its text after the first character. -/
def Kind.ofTail (tail : List Char) : Kind :=
  if 'e' ∈ tail then .boolean
  else if '-' ∈ tail ∨ ':' ∈ tail then .datetime
  else if '.' ∈ tail ∨ 'n' ∈ tail then .float
  else .integer

theorem isTokenChar_of_all {text : List Char} (h : text.all isTokenChar = true) :
    ∀ c ∈ text, isTokenChar c = true := List.all_eq_true.mp h

theorem isTokenChar_of_isDigit {c : Char} (h : c.isDigit = true) : isTokenChar c = true := by
  rw [isTokenChar, h, Bool.true_or]

theorem isTokenChar_signed (n : Int) : ∀ c ∈ signed n, isTokenChar c = true := by
  intro c hc
  unfold signed at hc
  split at hc
  · rcases List.mem_cons.mp hc with rfl | hc
    · rfl
    · exact isTokenChar_of_isDigit (allDigits_digits _ c hc)
  · exact isTokenChar_of_isDigit (allDigits_digits _ c hc)

/-- The text of a float that is no NaN: an infinity, or digits around a point after a sign. -/
theorem floatText_cases {f : Binary64} (h : f.isNaN = false) :
    f.isInfinite = true ∧ floatText f = infiniteText f ∨
      f.isInfinite = false ∧ floatText f = finiteText f := by
  unfold floatText
  rw [h, if_neg Bool.false_ne_true]
  cases hinfinite : f.isInfinite
  · exact .inr ⟨rfl, if_neg Bool.false_ne_true⟩
  · exact .inl ⟨rfl, if_pos rfl⟩

theorem infiniteText_cases (f : Binary64) :
    infiniteText f = "-inf".toList ∨ infiniteText f = "inf".toList := by
  unfold infiniteText
  split
  · exact .inl rfl
  · exact .inr rfl

theorem isTokenChar_floatText {f : Binary64} (h : f.isNaN = false) :
    ∀ c ∈ floatText f, isTokenChar c = true := by
  rcases floatText_cases h with ⟨-, htext⟩ | ⟨-, htext⟩
  · rw [htext]
    rcases infiniteText_cases f with htext | htext <;>
      exact isTokenChar_of_all (by rw [htext]; decide)
  · obtain ⟨body, x, hbody, hwrites, -⟩ := finiteText_eq f
    rw [htext, hbody]
    intro c hc
    rcases List.mem_append.mp hc with hc | hc
    · split at hc
      · rw [List.mem_singleton.mp hc]
        rfl
      · cases hc
    · rcases hwrites.isDigit_or_point c hc with hdigit | rfl
      · exact isTokenChar_of_isDigit hdigit
      · rfl

theorem isTokenChar_datetime (d : Datetime) : ∀ c ∈ d.text, isTokenChar c = true := by
  intro c hc
  rcases d.isPart_text c hc with hdigit | hmark
  · exact isTokenChar_of_isDigit hdigit
  · simp only [List.mem_cons, List.not_mem_nil, or_false] at hmark
    rcases hmark with rfl | rfl | rfl | rfl | rfl | rfl <;> rfl

theorem Scalar.isTokenChar_text {s : Scalar} (hs : s.kind ≠ .string) (h : s.Plain) :
    ∀ c ∈ s.text, isTokenChar c = true := by
  cases s with
  | string s => exact absurd rfl hs
  | integer n => exact isTokenChar_signed _
  | float f => exact isTokenChar_floatText h
  | boolean b => cases b <;> exact isTokenChar_of_all (by decide)
  | datetime d => exact isTokenChar_datetime d

theorem Scalar.text_ne_nil {s : Scalar} (hs : s.kind ≠ .string) (h : s.Plain) : s.text ≠ [] := by
  cases s with
  | string s => exact absurd rfl hs
  | integer n =>
      rw [Scalar.text, signed]
      split
      · exact List.cons_ne_nil _ _
      · exact digits_ne_nil _
  | float f =>
      rw [Scalar.text]
      rcases floatText_cases h with ⟨-, htext⟩ | ⟨-, htext⟩
      · rw [htext]
        rcases infiniteText_cases f with htext | htext <;> rw [htext] <;> decide
      · obtain ⟨body, x, hbody, hwrites, -⟩ := finiteText_eq f
        obtain ⟨c, more, rfl, -⟩ := hwrites.head
        rw [htext, hbody]
        exact List.append_ne_nil_of_right_ne_nil _ (List.cons_ne_nil _ _)
  | boolean b => cases b <;> decide
  | datetime d =>
      obtain ⟨c, more, hhead, -⟩ := Datetime.text_head h
      rw [Scalar.text, hhead]
      exact List.cons_ne_nil _ _

theorem ofTail_signed (n : Int) : Kind.ofTail (signed n).tail = .integer := by
  have hdigits := allDigits_tail_signed n
  rw [Kind.ofTail, if_neg (hdigits.not_mem rfl),
    if_neg (not_or.mpr ⟨hdigits.not_mem rfl, hdigits.not_mem rfl⟩),
    if_neg (not_or.mpr ⟨hdigits.not_mem rfl, hdigits.not_mem rfl⟩)]

theorem ofTail_floatText {f : Binary64} (h : f.isNaN = false) :
    Kind.ofTail (floatText f).tail = .float := by
  rcases floatText_cases h with ⟨-, htext⟩ | ⟨-, htext⟩
  · rw [htext]
    rcases infiniteText_cases f with htext | htext <;> rw [htext] <;> decide
  · obtain ⟨body, x, hbody, hwrites, -⟩ := finiteText_eq f
    have hpoint : '.' ∈ (floatText f).tail := by
      rw [htext, hbody]
      split
      · exact List.mem_of_mem_tail hwrites.point_mem_tail
      · exact hwrites.point_mem_tail
    have hnone : ∀ {c : Char}, c.isDigit = false → c ≠ '.' → c ∉ (floatText f).tail := by
      intro c hdigit hne hmem
      have hbody' : c ∈ body := by
        rw [htext, hbody] at hmem
        split at hmem
        · exact hmem
        · exact List.mem_of_mem_tail hmem
      rcases hwrites.isDigit_or_point c hbody' with h | h
      · rw [h] at hdigit
        cases hdigit
      · exact hne h
    rw [Kind.ofTail, if_neg (hnone rfl (by decide)),
      if_neg (not_or.mpr ⟨hnone rfl (by decide), hnone rfl (by decide)⟩), if_pos (.inl hpoint)]

theorem ofTail_datetime {d : Datetime} (h : d.Proper) : Kind.ofTail d.text.tail = .datetime := by
  obtain ⟨c, more, hhead, -, hmark⟩ := Datetime.text_head h
  have hnone : 'e' ∉ d.text.tail := by
    intro hmem
    rcases d.isPart_text 'e' (List.mem_of_mem_tail hmem) with h | h <;> revert h <;> decide
  -- a float may have a minus too, but only as its first character
  rw [Kind.ofTail, if_neg hnone, hhead, List.tail_cons, if_pos hmark]

theorem Scalar.ofTail_text {s : Scalar} (hs : s.kind ≠ .string) (h : s.Plain) :
    Kind.ofTail s.text.tail = s.kind := by
  cases s with
  | string s => exact absurd rfl hs
  | integer n => exact ofTail_signed _
  | float f => exact ofTail_floatText h
  | boolean b => cases b <;> decide
  | datetime d => exact ofTail_datetime h

theorem floatText_injective {f g : Binary64} (hf : f.isNaN = false) (hg : g.isNaN = false)
    (h : floatText f = floatText g) : f = g := by
  have hfinite : ∀ {f g : Binary64}, infiniteText f ≠ finiteText g := by
    intro f g e
    obtain ⟨body, x, hbody, hwrites, -⟩ := finiteText_eq g
    have hmem : 'i' ∈ infiniteText f := by
      rcases infiniteText_cases f with h | h <;> rw [h] <;> decide
    rw [e, hbody] at hmem
    rcases List.mem_append.mp hmem with hmem | hmem
    · split at hmem <;> revert hmem <;> decide
    · rcases hwrites.isDigit_or_point _ hmem with h | h <;> revert h <;> decide
  rcases floatText_cases hf with ⟨hinf, htext⟩ | ⟨-, htext⟩ <;>
    rcases floatText_cases hg with ⟨hinf', htext'⟩ | ⟨-, htext'⟩ <;> rw [htext, htext'] at h
  -- an infinity is its sign: exponent and fraction are fixed
  · refine Binary64.eq_of_rank ?_ ?_
    · simp only [Binary64.isInfinite, Binary64.exponentField_eq, Binary64.fraction_eq,
        Bool.and_eq_true, beq_iff_eq] at hinf hinf'
      omega
    · unfold infiniteText at h
      cases hneg : f.negative <;> cases hneg' : g.negative
      · rfl
      · rw [hneg, hneg'] at h
        cases h
      · rw [hneg, hneg'] at h
        cases h
      · rfl
  · exact absurd h hfinite
  · exact absurd h.symm hfinite
  · exact finiteText_injective h

theorem booleanText_injective {a b : Bool} (h : booleanText a = booleanText b) : a = b := by
  cases a <;> cases b
  · rfl
  · cases h
  · cases h
  · rfl

/-- Scalars other than strings are told by their texts. -/
theorem Scalar.text_injective {s t : Scalar} (hs : s.kind ≠ .string) (ht : t.kind ≠ .string)
    (hs' : s.Plain) (ht' : t.Plain) (h : s.text = t.text) : s = t := by
  have hkind : s.kind = t.kind := by
    rw [← ofTail_text hs hs', h, ofTail_text ht ht']
  cases s <;> cases t <;> cases hkind
  · exact absurd rfl hs
  · exact congrArg _ (Int64.toInt_inj.mp (signed_injective h))
  · exact congrArg _ (floatText_injective hs' ht' h)
  · exact congrArg _ (booleanText_injective h)
  · exact congrArg _ (Datetime.text_injective hs' ht' h)

/-! ## Values -/

/-- What the text of a value begins with. -/
def Value.opening : Value → Opening
  | .scalar (.string _) => .string
  | .scalar _ => .token
  | .array _ => .array
  | .table _ => .table

theorem stringText_head (s : List Char) :
    ∃ c more, stringText s = c :: more ∧ (c = '"' ∨ c = '\'') := by
  have hquoted : ∀ s, ∃ c more, inlineQuoted s = c :: more ∧ (c = '"' ∨ c = '\'') :=
    fun s => ⟨_, _, rfl, .inl rfl⟩
  have hlines : ∀ s, ∃ c more, multilineQuoted s = c :: more ∧ (c = '"' ∨ c = '\'') :=
    fun s => ⟨_, _, rfl, .inl rfl⟩
  unfold stringText
  dsimp only
  split
  · exact hquoted s
  split
  · exact ⟨_, _, rfl, .inr rfl⟩
  split
  · exact hlines s
  split
  · exact ⟨_, _, rfl, .inr rfl⟩
  split
  · exact hlines s
  · exact hquoted s

theorem Value.text_head {v : Value} (h : v.Every Scalar.Plain) :
    ∃ c more, v.text = c :: more ∧ Opening.of c = v.opening ∧ isStop c = false := by
  have htoken : ∀ {s : Scalar}, s.kind ≠ .string → s.Plain →
      ∃ c more, s.text = c :: more ∧ Opening.of c = .token ∧ isStop c = false := by
    intro s hs hplain
    obtain ⟨c, more, hhead⟩ := List.exists_cons_of_ne_nil (Scalar.text_ne_nil hs hplain)
    have hc := Scalar.isTokenChar_text hs hplain c (hhead ▸ List.mem_cons_self)
    exact ⟨c, more, hhead, Opening.of_isTokenChar hc, isStop_of_isTokenChar hc⟩
  cases v with
  | scalar s =>
      rw [Value.Every] at h
      rw [Value.text]
      cases s with
      | string s =>
          obtain ⟨c, more, hhead, hc⟩ := stringText_head s.toList
          refine ⟨c, more, hhead, if_pos hc, ?_⟩
          rcases hc with rfl | rfl <;> rfl
      | integer n => exact htoken (by simp [Scalar.kind]) h
      | float f => exact htoken (by simp [Scalar.kind]) h
      | boolean b => exact htoken (by simp [Scalar.kind]) h
      | datetime d => exact htoken (by simp [Scalar.kind]) h
  | array items =>
      cases items with
      | nil => exact ⟨'[', _, by rw [Value.text]; rfl, rfl, rfl⟩
      | cons item items => exact ⟨'[', _, by rw [Value.text]; rfl, rfl, rfl⟩
  | table entries =>
      cases entries with
      | nil => exact ⟨'{', _, by rw [Value.text], rfl, rfl⟩
      | cons entry entries => exact ⟨'{', _, by rw [Value.text]; rfl, rfl, rfl⟩

/-- Values with a common text begin alike. -/
theorem Value.opening_eq {v v' : Value} (hv : v.Every Scalar.Plain) (hv' : v'.Every Scalar.Plain)
    {rest rest' : List Char} (h : v.text ++ rest = v'.text ++ rest') :
    v.opening = v'.opening := by
  obtain ⟨c, more, hhead, hc, -⟩ := text_head hv
  obtain ⟨c', more', hhead', hc', -⟩ := text_head hv'
  rw [hhead, hhead'] at h
  rw [← hc, ← hc', (List.cons.inj h).1]

theorem afterValue_itemsText (items : List Value) (rest : List Char) :
    AfterValue (itemsText items ++ rest) := by
  cases items with
  | nil => exact afterValue_cons rfl _
  | cons item items => exact afterValue_cons rfl _

theorem afterValue_entriesText (entries : List (String × Value)) (rest : List Char) :
    AfterValue (entriesText entries ++ rest) := by
  cases entries with
  | nil => exact afterValue_cons rfl _
  | cons entry entries => exact afterValue_cons rfl _

theorem Scalar.text_inj {s t : Scalar} (hs : s.Plain) (ht : t.Plain) {rest rest' : List Char}
    (hopening : (Value.scalar s).opening = (Value.scalar t).opening)
    (hrest : AfterValue rest) (hrest' : AfterValue rest')
    (h : s.text ++ rest = t.text ++ rest') : s = t ∧ rest = rest' := by
  by_cases hstring : s.kind = .string
  · cases s <;> cases hstring
    cases t <;> cases hopening
    obtain ⟨htext, htail⟩ := stringText_inj hrest.unmarked hrest'.unmarked h
    exact ⟨congrArg _ (String.toList_inj.mp htext), htail⟩
  -- a token ends where the first character stands that may follow a value
  · have hstring' : t.kind ≠ .string := by
      intro hkind
      cases t <;> cases hkind
      cases s <;> first | exact hstring rfl | cases hopening
    have hrun : ∀ {s : Scalar}, s.kind ≠ .string → s.Plain →
        ∀ c ∈ s.text, (fun c => !isStop c) c = true := by
      intro s hkind hplain c hc
      simp only [isStop_of_isTokenChar (Scalar.isTokenChar_text hkind hplain c hc), Bool.not_false]
    obtain ⟨htext, htail⟩ :=
      Runs.eq_of_append_eq (hrun hstring hs) (hrun hstring' ht) hrest hrest' h
    exact ⟨Scalar.text_injective hstring hstring' hs ht htext, htail⟩

theorem Value.eq_scalar_of_opening {v : Value} (h : v.opening = .string ∨ v.opening = .token) :
    ∃ s, v = .scalar s := by
  cases v with
  | scalar s => exact ⟨s, rfl⟩
  | array items => rcases h with h | h <;> cases h
  | table entries => rcases h with h | h <;> cases h

theorem Value.eq_array_of_opening {v : Value} (h : v.opening = .array) :
    ∃ items, v = .array items := by
  cases v with
  | scalar s => cases s <;> cases h
  | array items => exact ⟨items, rfl⟩
  | table entries => cases h

theorem Value.eq_table_of_opening {v : Value} (h : v.opening = .table) :
    ∃ entries, v = .table entries := by
  cases v with
  | scalar s => cases s <;> cases h
  | array items => cases h
  | table entries => exact ⟨entries, rfl⟩

theorem opening_scalar (s : Scalar) :
    (Value.scalar s).opening = .string ∨ (Value.scalar s).opening = .token := by
  cases s
  · exact .inl rfl
  all_goals exact .inr rfl

/-- No value begins with what closes an array. -/
theorem Value.text_ne_bracket {v : Value} (h : v.Every Scalar.Plain) (rest rest' : List Char) :
    v.text ++ rest ≠ ']' :: rest' := by
  obtain ⟨c, more, hhead, -, hc⟩ := text_head h
  rw [hhead]
  intro e
  rw [(List.cons.inj e).1] at hc
  cases hc

/-- A key with its value can be cut in one way if the value can. -/
theorem entry_inj {key key' : String} {value value' : Value} {rest rest' : List Char}
    (hvalue : value.text ++ rest = value'.text ++ rest' → value = value' ∧ rest = rest')
    (h : keyText key.toList ++ " = ".toList ++ value.text ++ rest =
      keyText key'.toList ++ " = ".toList ++ value'.text ++ rest') :
    key = key' ∧ value = value' ∧ rest = rest' := by
  simp only [List.append_assoc] at h
  obtain ⟨hkey, hsign⟩ := keyText_inj h
  exact ⟨String.toList_inj.mp hkey, hvalue (List.cons.inj (List.cons.inj hsign).2).2⟩

mutual

/-- The text of a value and what follows it determine both. -/
theorem Value.text_inj : ∀ {v v' : Value} {rest rest' : List Char}, v.Every Scalar.Plain →
    v'.Every Scalar.Plain → AfterValue rest → AfterValue rest' →
    v.text ++ rest = v'.text ++ rest' → v = v' ∧ rest = rest'
  | .scalar s, v', rest, rest', hv, hv', hrest, hrest', h => by
      have hopening := Value.opening_eq hv hv' h
      obtain ⟨t, rfl⟩ := Value.eq_scalar_of_opening (hopening ▸ opening_scalar s)
      rw [Value.text, Value.text] at h
      rw [Value.Every] at hv hv'
      obtain ⟨rfl, htail⟩ := Scalar.text_inj hv hv' hopening hrest hrest' h
      exact ⟨rfl, htail⟩
  | .array items, v', rest, rest', hv, hv', _, _, h => by
      obtain ⟨items', rfl⟩ := Value.eq_array_of_opening (Value.opening_eq hv hv' h).symm
      rw [Value.Every] at hv hv'
      match items, items' with
      | [], [] =>
          rw [Value.text] at h
          exact ⟨rfl, (List.cons.inj (List.cons.inj h).2).2⟩
      | [], item' :: items' =>
          rw [itemsEvery] at hv'
          rw [Value.text, Value.text, List.append_assoc] at h
          exact absurd (List.cons.inj h).2.symm (Value.text_ne_bracket hv'.1 _ _)
      | item :: items, [] =>
          rw [itemsEvery] at hv
          rw [Value.text, Value.text, List.append_assoc] at h
          exact absurd (List.cons.inj h).2 (Value.text_ne_bracket hv.1 _ _)
      | item :: items, item' :: items' =>
          rw [itemsEvery] at hv hv'
          rw [Value.text, Value.text, List.append_assoc, List.append_assoc] at h
          obtain ⟨rfl, hitems⟩ := Value.text_inj hv.1 hv'.1 (afterValue_itemsText items rest)
            (afterValue_itemsText items' rest') (List.cons.inj h).2
          obtain ⟨rfl, htail⟩ := itemsText_inj hv.2 hv'.2 hitems
          exact ⟨rfl, htail⟩
  | .table entries, v', rest, rest', hv, hv', _, _, h => by
      obtain ⟨entries', rfl⟩ := Value.eq_table_of_opening (Value.opening_eq hv hv' h).symm
      rw [Value.Every] at hv hv'
      match entries, entries' with
      | [], [] =>
          rw [Value.text] at h
          exact ⟨rfl, (List.cons.inj (List.cons.inj h).2).2⟩
      | [], entry' :: entries' =>
          rw [Value.text, Value.text] at h
          cases (List.cons.inj (List.cons.inj h).2).1
      | entry :: entries, [] =>
          rw [Value.text, Value.text] at h
          cases (List.cons.inj (List.cons.inj h).2).1
      | (key, value) :: entries, (key', value') :: entries' =>
          rw [entriesEvery] at hv hv'
          rw [Value.text, Value.text] at h
          simp only [List.append_assoc, List.cons_append, List.nil_append] at h
          obtain ⟨rfl, rfl, hentries⟩ := entry_inj (Value.text_inj hv.1 hv'.1
            (afterValue_entriesText entries rest) (afterValue_entriesText entries' rest'))
            (by simpa using h)
          obtain ⟨rfl, htail⟩ := entriesText_inj hv.2 hv'.2 hentries
          exact ⟨rfl, htail⟩

theorem itemsText_inj : ∀ {items items' : List Value} {rest rest' : List Char},
    itemsEvery Scalar.Plain items → itemsEvery Scalar.Plain items' →
    itemsText items ++ rest = itemsText items' ++ rest' → items = items' ∧ rest = rest'
  | [], [], rest, rest', _, _, h => ⟨rfl, (List.cons.inj h).2⟩
  | [], item' :: items', rest, rest', _, _, h => by
      rw [itemsText, itemsText] at h
      cases (List.cons.inj h).1
  | item :: items, [], rest, rest', _, _, h => by
      rw [itemsText, itemsText] at h
      cases (List.cons.inj h).1
  | item :: items, item' :: items', rest, rest', hv, hv', h => by
      rw [itemsEvery] at hv hv'
      rw [itemsText, itemsText] at h
      simp only [List.append_assoc] at h
      obtain ⟨rfl, hitems⟩ := Value.text_inj hv.1 hv'.1 (afterValue_itemsText items rest)
        (afterValue_itemsText items' rest') (List.append_cancel_left h)
      obtain ⟨rfl, htail⟩ := itemsText_inj hv.2 hv'.2 hitems
      exact ⟨rfl, htail⟩

theorem entriesText_inj : ∀ {entries entries' : List (String × Value)} {rest rest' : List Char},
    entriesEvery Scalar.Plain entries → entriesEvery Scalar.Plain entries' →
    entriesText entries ++ rest = entriesText entries' ++ rest' →
    entries = entries' ∧ rest = rest'
  | [], [], rest, rest', _, _, h => ⟨rfl, (List.cons.inj (List.cons.inj h).2).2⟩
  | [], entry' :: entries', rest, rest', _, _, h => by
      rw [entriesText, entriesText] at h
      cases (List.cons.inj h).1
  | entry :: entries, [], rest, rest', _, _, h => by
      rw [entriesText, entriesText] at h
      cases (List.cons.inj h).1
  | (key, value) :: entries, (key', value') :: entries', rest, rest', hv, hv', h => by
      rw [entriesEvery] at hv hv'
      rw [entriesText, entriesText] at h
      simp only [List.append_assoc] at h
      obtain ⟨rfl, rfl, hentries⟩ := entry_inj (Value.text_inj hv.1 hv'.1
        (afterValue_entriesText entries rest) (afterValue_entriesText entries' rest'))
        (by simpa using List.append_cancel_left h)
      obtain ⟨rfl, htail⟩ := entriesText_inj hv.2 hv'.2 hentries
      exact ⟨rfl, htail⟩

end

end TemplateCache.Toml
