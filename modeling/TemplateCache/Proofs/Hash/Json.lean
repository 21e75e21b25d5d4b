import TemplateCache.Hash.Json
import TemplateCache.Proofs.Number.Digits

/-!
# Reading hashes from JSON

A text is cut into tokens first, and the tokens are read as an array then. Either step accepts just
what it should.

`Token.Spell tokens text` says that a text writes some tokens one after another, with blanks
wherever they like to stand but not inside a number. A text is cut into the tokens that it spells
(`tokens?_eq_some_iff`), so there are no others, and it is read as a hash just if it spells the
array of the hash's bytes (`ofJson?_eq_some_iff`). The compact array is what is left of any such
text without its blanks (`json_of_ofJson?`).
-/

namespace TemplateCache.ContentHash

open Decimal (AllDigits)

/-! ## Spellings -/

namespace Token

/-- The characters of a token. -/
def text : Token → List Char
  | .opening => ['[']
  | .closing => [']']
  | .comma => [',']
  | .number value => decimal value

/-- A text may follow a token at once. A number goes on as long as there are digits, so none may
follow it. -/
def EndsBefore : Token → List Char → Prop
  | .number _, rest => Runs.Ends Char.isDigit rest
  | _, _ => True

/-- A text writes some tokens one after another, with any blanks around them. -/
inductive Spell : List Token → List Char → Prop where
  | done : Spell [] []
  | blank {tokens : List Token} {text : List Char} {c : Char} :
      isBlank c = true → Spell tokens text → Spell tokens (c :: text)
  | token {tokens : List Token} {rest : List Char} {t : Token} :
      t.EndsBefore rest → Spell tokens rest → Spell (t :: tokens) (t.text ++ rest)

end Token

/-! ## Numbers -/

theorem allDigits_decimal (n : Nat) : AllDigits (decimal n) := Decimal.allDigits_digits n

theorem decimal_ne_nil (n : Nat) : decimal n ≠ [] := Decimal.digits_ne_nil n

/-- Digits write a number just if they are its own; none is written with superfluous zeros. -/
theorem number?_eq_some_iff {digits : List Char} (hdigits : AllDigits digits)
    (hne : digits ≠ []) {n : Nat} : number? digits = some n ↔ digits = decimal n := by
  constructor
  · intro h
    unfold number? at h
    split at h
    · cases h
      rfl
    · cases h
    · rename_i hzeros
      cases h
      cases digits with
      | nil => exact absurd rfl hne
      | cons c rest =>
          refine (Decimal.digits_ofDigitChars hdigits ?_).symm
          intro hc
          exact hzeros rest (by rw [hc])
  · intro h
    subst h
    rcases Nat.eq_zero_or_pos n with rfl | hn
    · rfl
    · have hhead : (decimal n).head? ≠ some '0' := Decimal.head?_digits_ne_zero hn
      unfold number?
      split
      · rename_i hzero
        exact absurd (congrArg List.head? hzero) hhead
      · rename_i hzero
        exact absurd (congrArg List.head? hzero) hhead
      · exact congrArg some (Decimal.ofDigitChars_digits n)

/-! ## Cutting a text into tokens -/

theorem isDigit_of_isBlank {c : Char} (h : isBlank c = true) : c.isDigit = false := by
  simp only [isBlank, Bool.or_eq_true, decide_eq_true_eq] at h
  rcases h with ((rfl | rfl) | rfl) | rfl <;> rfl

theorem text_of_mark? {c : Char} {t : Token} (h : mark? c = some t) :
    t.text = [c] ∧ ∀ rest, t.EndsBefore rest := by
  unfold mark? at h
  split at h
  · cases h; exact ⟨rfl, fun _ => trivial⟩
  · cases h; exact ⟨rfl, fun _ => trivial⟩
  · cases h; exact ⟨rfl, fun _ => trivial⟩
  · cases h

theorem tokens?_nil : tokens? [] [] = some [] := rfl

/-- Where there is no digit, a blank is passed and a mark is taken. -/
theorem tokens?_cons {c : Char} (hc : c.isDigit = false) (rest : List Char) :
    tokens? [] (c :: rest) =
      if isBlank c then tokens? [] rest
      else (mark? c).bind fun t => (tokens? [] rest).map (t :: ·) := by
  rw [tokens?, hc, if_neg Bool.false_ne_true, if_pos rfl]
  by_cases hblank : isBlank c = true
  · simp [hblank]
  · cases mark? c <;> cases tokens? [] rest <;> simp [hblank]

/-- Digits that are at hand make a number where they end. -/
theorem tokens?_of_ends {digits rest : List Char} (hne : digits ≠ [])
    (hends : Runs.Ends Char.isDigit rest) :
    tokens? digits rest =
      (number? digits).bind fun n => (tokens? [] rest).map (.number n :: ·) := by
  cases rest with
  | nil =>
      rw [tokens?_nil, tokens?, Option.map_eq_bind]
      · rfl
      · exact hne
  | cons c rest =>
      have hc : c.isDigit = false := hends c rfl
      rw [tokens?_cons hc, tokens?, hc, if_neg Bool.false_ne_true, if_neg hne]
      by_cases hblank : isBlank c = true
      · cases number? digits <;> cases tokens? [] rest <;> simp [hblank]
      · cases number? digits <;> cases mark? c <;> cases tokens? [] rest <;> simp [hblank]

/-- Digits that follow those at hand come after them. -/
theorem tokens?_append {more : List Char} (hmore : AllDigits more) (digits rest : List Char) :
    tokens? digits (more ++ rest) = tokens? (digits ++ more) rest := by
  induction more generalizing digits with
  | nil => rw [List.append_nil, List.nil_append]
  | cons d more ih =>
      have hmore' : AllDigits more := fun c hc => hmore c (List.mem_cons_of_mem _ hc)
      rw [List.cons_append, tokens?, if_pos (hmore d List.mem_cons_self), ih hmore',
        List.append_assoc, List.singleton_append]

/-- A token that a text begins with is taken. -/
theorem tokens?_text_append {t : Token} {rest : List Char} (h : t.EndsBefore rest) :
    tokens? [] (t.text ++ rest) = (tokens? [] rest).map (t :: ·) := by
  have hmark : ∀ c, c.isDigit = false → isBlank c = false → mark? c = some t →
      tokens? [] (c :: rest) = (tokens? [] rest).map (t :: ·) := by
    intro c hdigit hblank hc
    rw [tokens?_cons hdigit, hblank, hc]
    rfl
  cases t with
  | opening => exact hmark '[' rfl rfl rfl
  | closing => exact hmark ']' rfl rfl rfl
  | comma => exact hmark ',' rfl rfl rfl
  | number n =>
      have hnumber : number? (decimal n) = some n :=
        (number?_eq_some_iff (allDigits_decimal n) (decimal_ne_nil n)).mpr rfl
      rw [Token.text, tokens?_append (allDigits_decimal n), List.nil_append,
        tokens?_of_ends (decimal_ne_nil n) h, hnumber]
      rfl

theorem Token.Spell.tokens?_eq {tokens : List Token} {text : List Char}
    (h : Spell tokens text) : tokens? [] text = some tokens := by
  induction h with
  | done => rfl
  | blank hblank _ ih => rw [tokens?_cons (isDigit_of_isBlank hblank), if_pos hblank, ih]
  | token hends _ ih => rw [tokens?_text_append hends, ih, Option.map_some]

/-- Digits that end are a number, or none if there are no digits; what follows spells the rest. -/
theorem spell_append {digits rest : List Char} {tokens : List Token} (hdigits : AllDigits digits)
    (hends : Runs.Ends Char.isDigit rest)
    (hrest : ∀ tokens, tokens? [] rest = some tokens → Token.Spell tokens rest)
    (h : tokens? digits rest = some tokens) : Token.Spell tokens (digits ++ rest) := by
  by_cases hne : digits = []
  · subst hne
    exact hrest tokens h
  · rw [tokens?_of_ends hne hends] at h
    obtain ⟨n, hn, h⟩ := Option.bind_eq_some_iff.mp h
    obtain ⟨after, hafter, rfl⟩ := Option.map_eq_some_iff.mp h
    rw [(number?_eq_some_iff hdigits hne).mp hn]
    exact .token (t := .number n) hends (hrest after hafter)

/-- Where there is no digit, the text begins with a blank or a mark. -/
theorem spell_cons {c : Char} {rest : List Char} {tokens : List Token} (hc : c.isDigit = false)
    (hrest : ∀ tokens, tokens? [] rest = some tokens → Token.Spell tokens rest)
    (h : tokens? [] (c :: rest) = some tokens) : Token.Spell tokens (c :: rest) := by
  rw [tokens?_cons hc] at h
  by_cases hblank : isBlank c = true
  · rw [if_pos hblank] at h
    exact .blank hblank (hrest tokens h)
  · rw [if_neg hblank] at h
    obtain ⟨t, ht, h⟩ := Option.bind_eq_some_iff.mp h
    obtain ⟨after, hafter, rfl⟩ := Option.map_eq_some_iff.mp h
    obtain ⟨htext, hends⟩ := text_of_mark? ht
    have hspell := Token.Spell.token (hends rest) (hrest after hafter)
    rwa [htext] at hspell

/-- What is cut into tokens spells them. The digits are those of a number that has been begun. -/
theorem spell_of_tokens? (digits : List Char) {text : List Char} {tokens : List Token}
    (hdigits : AllDigits digits) (h : tokens? digits text = some tokens) :
    Token.Spell tokens (digits ++ text) := by
  induction text generalizing digits tokens with
  | nil =>
      refine spell_append hdigits (Runs.ends_nil _) ?_ h
      intro tokens h
      cases h
      exact .done
  | cons c rest ih =>
      cases hc : c.isDigit with
      | true =>
          have hmore : AllDigits (digits ++ [c]) := hdigits.append (by simpa [AllDigits] using hc)
          rw [tokens?, if_pos hc] at h
          simpa using ih (digits ++ [c]) hmore h
      | false =>
          have hrest : ∀ tokens, tokens? [] rest = some tokens → Token.Spell tokens rest :=
            fun _ => ih [] (List.forall_mem_nil _)
          exact spell_append hdigits (Runs.ends_cons hc rest) (fun _ => spell_cons hc hrest) h

/-- A text is cut into the tokens that it spells. -/
theorem tokens?_eq_some_iff {text : List Char} {tokens : List Token} :
    tokens? [] text = some tokens ↔ Token.Spell tokens text :=
  ⟨spell_of_tokens? [] (List.forall_mem_nil _), Token.Spell.tokens?_eq⟩

/-! ## Arrays -/

namespace Token

/-- The numbers of an array with commas between them, and the end of the array. -/
def arrayEnd (numbers : List Nat) : List Token :=
  (numbers.map number).intersperse comma ++ [closing]

/-- An array of numbers. -/
def array (numbers : List Nat) : List Token := opening :: arrayEnd numbers

theorem arrayEnd_cons_cons (m n : Nat) (numbers : List Nat) :
    arrayEnd (m :: n :: numbers) = number m :: comma :: arrayEnd (n :: numbers) := rfl

end Token

open Token (arrayEnd array arrayEnd_cons_cons)

theorem items?_arrayEnd {numbers : List Nat} (hne : numbers ≠ []) :
    items? (arrayEnd numbers) = some numbers := by
  induction numbers with
  | nil => exact absurd rfl hne
  | cons m numbers ih =>
      cases numbers with
      | nil => rfl
      | cons n numbers =>
          rw [arrayEnd_cons_cons, items?, ih (List.cons_ne_nil n numbers)]
          rfl

/-- The items of an array are read as they stand, and there is one at least. -/
theorem items?_eq_some_iff {tokens : List Token} {numbers : List Nat} :
    items? tokens = some numbers ↔ numbers ≠ [] ∧ tokens = arrayEnd numbers := by
  constructor
  · intro h
    fun_induction items? tokens generalizing numbers with
    | case1 n =>
        cases h
        exact ⟨List.cons_ne_nil n [], rfl⟩
    | case2 m rest ih =>
        obtain ⟨numbers, hnumbers, rfl⟩ := Option.map_eq_some_iff.mp h
        obtain ⟨hne, rfl⟩ := ih hnumbers
        refine ⟨List.cons_ne_nil m numbers, ?_⟩
        cases numbers with
        | nil => exact absurd rfl hne
        | cons n numbers => rfl
    | case3 => cases h
  · rintro ⟨hne, rfl⟩
    exact items?_arrayEnd hne

/-- Reading the items tells the arrays apart. -/
theorem Token.array_injective {a b : List Nat} (h : array a = array b) : a = b := by
  have hread : items? (arrayEnd a) = items? (arrayEnd b) := congrArg items? (List.cons.inj h).2
  cases a with
  | nil =>
      cases b with
      | nil => rfl
      | cons n b =>
          rw [items?_arrayEnd (List.cons_ne_nil n b)] at hread
          cases hread
  | cons m a =>
      rw [items?_arrayEnd (List.cons_ne_nil m a)] at hread
      cases b with
      | nil => cases hread
      | cons n b =>
          rw [items?_arrayEnd (List.cons_ne_nil n b)] at hread
          exact Option.some.inj hread

/-- The numbers that an array writes for a hash. -/
def numbers (h : ContentHash) : List Nat := h.bytes.map UInt8.toNat

theorem length_numbers (h : ContentHash) : h.numbers.length = 16 := by
  rw [numbers, List.length_map, h.length_bytes]

theorem numbers_lt {h : ContentHash} {n : Nat} (hn : n ∈ h.numbers) : n < 256 := by
  obtain ⟨b, -, rfl⟩ := List.mem_map.mp hn
  exact b.toNat_lt

theorem numbers_injective {g h : ContentHash} (e : g.numbers = h.numbers) : g = h :=
  ext ((List.map_inj_right fun _ _ => UInt8.toNat_inj.mp).mp e)

/-- Sixteen numbers below 256 are those of a hash. -/
theorem numbers_mk {numbers : List Nat} (hlength : (numbers.map UInt8.ofNat).length = 16)
    (hsmall : ∀ n ∈ numbers, n < 256) :
    ContentHash.numbers ⟨numbers.map UInt8.ofNat, hlength⟩ = numbers := by
  rw [ContentHash.numbers, List.map_map]
  refine (List.map_congr_left ?_).trans (List.map_id numbers)
  intro n hn
  exact UInt8.toNat_ofNat_of_lt' (hsmall n hn)

theorem exists_numbers_eq {numbers : List Nat} (hlength : numbers.length = 16)
    (hsmall : ∀ n ∈ numbers, n < 256) : ∃ h : ContentHash, h.numbers = numbers :=
  ⟨_, numbers_mk (by rw [List.length_map, hlength]) hsmall⟩

/-- A text is read as a hash just if it spells the array of the hash's numbers. -/
theorem ofJson?_eq_some_iff {text : List Char} {h : ContentHash} :
    ofJson? text = some h ↔ Token.Spell (array h.numbers) text := by
  rw [← tokens?_eq_some_iff]
  unfold ofJson?
  constructor
  · intro e
    obtain ⟨tokens, htokens, harray⟩ := Option.bind_eq_some_iff.mp e
    split at harray
    · obtain ⟨numbers, hnumbers, hhash⟩ := Option.bind_eq_some_iff.mp harray
      obtain ⟨-, rfl⟩ := items?_eq_some_iff.mp hnumbers
      split at hhash
      · split at hhash
        · rename_i hsmall
          cases hhash
          have hsmall : ∀ n ∈ numbers, n < 256 := by simpa using hsmall
          rw [htokens, array, numbers_mk _ hsmall]
        · cases hhash
      · cases hhash
    · cases harray
  · intro e
    have hne : h.numbers ≠ [] := by
      intro hnil
      have hlength := h.length_numbers
      rw [hnil] at hlength
      cases hlength
    have hsmall : h.numbers.all (· < 256) = true := by simpa using fun n => numbers_lt (h := h)
    rw [e]
    simp only [array, Option.bind_eq_bind, Option.bind_some, items?_arrayEnd hne,
      dif_pos h.length_numbers, if_pos hsmall]
    exact congrArg some (numbers_injective (numbers_mk _ fun _ => numbers_lt))

/-! ## Compact arrays -/

theorem isBlank_of_mem_text {t : Token} {c : Char} (hc : c ∈ t.text) : isBlank c = false := by
  cases t with
  | opening => obtain rfl := List.mem_singleton.mp hc; rfl
  | closing => obtain rfl := List.mem_singleton.mp hc; rfl
  | comma => obtain rfl := List.mem_singleton.mp hc; rfl
  | number n =>
      have hdigit : c.isDigit = true := allDigits_decimal n c hc
      refine Bool.eq_false_iff.mpr fun hblank => ?_
      rw [isDigit_of_isBlank hblank] at hdigit
      cases hdigit

/-- Without its blanks, a text is its tokens one after another. -/
theorem Token.Spell.filter_isBlank {tokens : List Token} {text : List Char}
    (h : Spell tokens text) : text.filter (fun c => !isBlank c) = tokens.flatMap Token.text := by
  induction h with
  | done => rfl
  | blank hblank _ ih => rw [List.filter_cons_of_neg (by simpa using hblank), ih]
  | @token tokens rest t _ _ ih =>
      have htext : t.text.filter (fun c => !isBlank c) = t.text :=
        List.filter_eq_self.mpr fun c hc => by rw [isBlank_of_mem_text hc]; rfl
      rw [List.filter_append, htext, ih, List.flatMap_cons]

/-- An array may be written without blanks, since no number follows another at once. -/
theorem spell_arrayEnd (numbers : List Nat) :
    Token.Spell (arrayEnd numbers) ((arrayEnd numbers).flatMap Token.text) := by
  have hclosing : Token.Spell [.closing] [']'] := .token (t := .closing) trivial .done
  induction numbers with
  | nil => exact hclosing
  | cons m numbers ih =>
      cases numbers with
      | nil => exact .token (t := .number m) (Runs.ends_cons rfl []) hclosing
      | cons n numbers =>
          rw [arrayEnd_cons_cons, List.flatMap_cons, List.flatMap_cons]
          exact .token (t := .number m) (Runs.ends_cons rfl _) (.token (t := .comma) trivial ih)

theorem jsonItems_append (bytes : Bytes) :
    jsonItems bytes ++ [']'] = (arrayEnd (bytes.map UInt8.toNat)).flatMap Token.text := by
  induction bytes with
  | nil => rfl
  | cons b bytes ih =>
      cases bytes with
      | nil => rfl
      | cons b' bytes =>
          rw [jsonItems, List.append_assoc, List.cons_append, ih]
          · rfl
          · exact List.cons_ne_nil b' bytes

/-- What is written for a hash is its array without blanks. -/
theorem json_eq (h : ContentHash) : h.json = (array h.numbers).flatMap Token.text := by
  rw [json, List.cons_append, jsonItems_append]
  rfl

theorem spell_json (h : ContentHash) : Token.Spell (array h.numbers) h.json := by
  rw [json_eq]
  exact .token (t := .opening) trivial (spell_arrayEnd h.numbers)

theorem ofJson?_json (h : ContentHash) : ofJson? h.json = some h :=
  ofJson?_eq_some_iff.mpr (spell_json h)

/-- Reading a text and writing the hash takes the blanks away and nothing else. -/
theorem json_of_ofJson? {text : List Char} {h : ContentHash} (e : ofJson? text = some h) :
    h.json = text.filter fun c => !isBlank c := by
  rw [json_eq, (ofJson?_eq_some_iff.mp e).filter_isBlank]

end TemplateCache.ContentHash
