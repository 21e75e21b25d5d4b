import TemplateCache.Toml.Read.Item
import TemplateCache.Toml.ValueText

/-!
# Strings and keys are read back

The writer picks one of five forms for a string and one of four for a key, and the reader has a
machine for each form. Whatever the text and whatever follows it, the machine stops where the
writer stopped and has the text that the writer was given (`string?_stringText`,
`keyPart?_keyText`). So no two strings have a common text, nor has one string a text that goes on
as that of another.

The one thing that must not follow a string is another of its marks: closing marks are only known
to be the last ones by what comes after them.
-/

namespace TemplateCache.Toml

open Read

/-- A text that may follow a string: it does not go on with marks. -/
def Unmarked (rest : List Char) : Prop := rest.head? ≠ some '"' ∧ rest.head? ≠ some '\''

namespace Read

variable {σ : Type} {step : σ → Char → Move σ} {atEnd : σ → Option (List Char)}

theorem run_put {s next : σ} {c : Char} {out : List Char} (h : step s c = .put out next)
    (text : List Char) : run step atEnd s (c :: text) =
      (run step atEnd next text).map fun r => (out ++ r.1, r.2) := by
  rw [run, h]

theorem run_skip {s next : σ} {c : Char} (h : step s c = .put [] next) (text : List Char) :
    run step atEnd s (c :: text) = run step atEnd next text := by
  rw [run_put h]
  simp

/-! ## Characters -/

theorem isTextChar_of_not_isControl {c : Char} (h : isControl c = false) : isTextChar c = true := by
  simp only [isControl, Bool.or_eq_false_iff, Bool.and_eq_false_iff, decide_eq_false_iff_not,
    bne_eq_false_iff_eq, beq_eq_false_iff_ne] at h
  obtain ⟨hlow, hdelete⟩ := h
  have hne : c.toNat ≠ 0x7F := fun e => hdelete (Char.ext (UInt32.toNat_inj.mp e))
  rcases hlow with hlow | rfl
  · simp only [isTextChar, Bool.or_eq_true, Bool.and_eq_true, decide_eq_true_eq, bne_iff_ne]
    exact .inr ⟨by omega, hne⟩
  · rfl

theorem lt_of_isControl {c : Char} (h : isControl c = true) : c.toNat < 128 := by
  simp only [isControl, Bool.or_eq_true, Bool.and_eq_true, decide_eq_true_eq, beq_iff_eq] at h
  rcases h with ⟨h, -⟩ | rfl
  · omega
  · decide

theorem ne_newline_of_isTextChar {c : Char} (h : isTextChar c = true) : c ≠ '\n' := by
  rintro rfl
  cases h

theorem ne_return_of_isTextChar {c : Char} (h : isTextChar c = true) : c ≠ '\r' := by
  rintro rfl
  cases h

/-! ## Escapes -/

theorem hexValue?_digitChar {d : Nat} (h : d < 16) :
    hexValue? (Nat.digitChar d).toUpper = some d := by
  revert d
  decide

/-- A machine that reads escapes: from `inside .start` it goes on as `Escape.step` says, and is
in `back` afterwards. What follows a backslash in a text of the writer is one of a few
characters. -/
structure Escapes (step : σ → Char → Move σ) (inside : Escape → σ) (back : σ) : Prop where
  start : ∀ c ∈ ['b', 't', 'n', 'f', 'r', '"', '\\', 'u'],
    step (inside .start) c = Escape.step inside back .start c
  number : ∀ left value c,
    step (inside (.number left value)) c = Escape.step inside back (.number left value) c

namespace Escapes

variable {inside : Escape → σ} {back : σ}

theorem run_letter (h : Escapes step inside back) {mark c : Char}
    (hmark : mark ∈ ['b', 't', 'n', 'f', 'r', '"', '\\', 'u']) (hc : escaped? mark = some c)
    (text : List Char) : run step atEnd (inside .start) (mark :: text) =
      (run step atEnd back text).map fun r => (c :: r.1, r.2) := by
  have hstep : step (inside .start) mark = .put [c] back := by
    rw [h.start mark hmark]
    simp only [Escape.step, hc]
  exact run_put hstep text

theorem run_digit (h : Escapes step inside back) {left value digit : Nat} {c : Char}
    (hleft : left ≠ 1) (hc : hexValue? c = some digit) (text : List Char) :
    run step atEnd (inside (.number left value)) (c :: text) =
      run step atEnd (inside (.number (left - 1) (16 * value + digit))) text := by
  have hstep : step (inside (.number left value)) c =
      .put [] (inside (.number (left - 1) (16 * value + digit))) := by
    rw [h.number]
    simp only [Escape.step, hc, if_neg hleft]
  exact run_skip hstep text

theorem run_lastDigit (h : Escapes step inside back) {value digit : Nat} {c out : Char}
    (hc : hexValue? c = some digit) (hout : char? (16 * value + digit) = some out)
    (text : List Char) : run step atEnd (inside (.number 1 value)) (c :: text) =
      (run step atEnd back text).map fun r => (out :: r.1, r.2) := by
  have hstep : step (inside (.number 1 value)) c = .put [out] back := by
    rw [h.number]
    simp only [Escape.step, hc, if_true, hout]
  exact run_put hstep text

/-- A control character is read back from its number. -/
theorem run_controlNumber (h : Escapes step inside back) {c : Char} (hc : c.toNat < 128)
    (text : List Char) :
    run step atEnd (inside .start) ('u' :: controlNumber c.toNat ++ text) =
      (run step atEnd back text).map fun r => (c :: r.1, r.2) := by
  have hstep : step (inside .start) 'u' = .put [] (inside (.number 4 0)) := by
    rw [h.start 'u' (by decide)]
    rfl
  -- the writer's four digits begin with two zeros
  have hchar : char? (16 * (16 * (16 * (16 * 0 + 0) + 0) + c.toNat / 16) + c.toNat % 16) =
      some c := by
    rw [show 16 * (16 * (16 * (16 * 0 + 0) + 0) + c.toNat / 16) + c.toNat % 16 = c.toNat by omega,
      char?, if_pos (show c.toNat.isValidChar from c.valid), Char.ofNat_toNat]
  have hzero : hexValue? '0' = some 0 := rfl
  rw [List.cons_append, run_skip hstep, controlNumber]
  simp only [List.cons_append, List.nil_append]
  rw [h.run_digit (by decide) hzero, h.run_digit (by decide) hzero,
    h.run_digit (by decide) (hexValue?_digitChar (by omega)),
    h.run_lastDigit (hexValue?_digitChar (by omega)) hchar]

/-- A character is read back from its escape or from itself, from a state that owes some text
and is left with it. -/
theorem run_escapeOther (h : Escapes step inside back) {s : σ} {owed : List Char}
    (hescape : step s '\\' = .put owed (inside .start))
    (hself : ∀ c, isTextChar c = true → c ≠ '\\' → c ≠ '"' → step s c = .put (owed ++ [c]) back)
    {c : Char} (hc : c ≠ '"') (text : List Char) :
    run step atEnd s (escapeOther c ++ text) =
      (run step atEnd back text).map fun r => (owed ++ c :: r.1, r.2) := by
  have hletter : ∀ mark ∈ ['b', 't', 'n', 'f', 'r', '"', '\\', 'u'], escaped? mark = some c →
      run step atEnd s (['\\', mark] ++ text) =
        (run step atEnd back text).map fun r => (owed ++ c :: r.1, r.2) := by
    intro mark hmark hout
    rw [List.cons_append, run_put hescape, List.cons_append, h.run_letter hmark hout]
    simp [Function.comp_def]
  unfold escapeOther
  split
  · next hb => exact hletter 'b' (by decide) (by rw [hb]; rfl)
  split
  · next ht => exact hletter 't' (by decide) (by rw [ht]; rfl)
  split
  · next hf => exact hletter 'f' (by decide) (by rw [hf]; rfl)
  split
  · next hr => exact hletter 'r' (by decide) (by rw [hr]; rfl)
  split
  · next hback => exact hletter '\\' (by decide) (by rw [hback]; rfl)
  next hback =>
  split
  · next hcontrol =>
      rw [List.cons_append, run_put hescape, h.run_controlNumber (lt_of_isControl hcontrol)]
      simp [Function.comp_def]
  · next hcontrol =>
      have htext := isTextChar_of_not_isControl (Bool.eq_false_iff.mpr hcontrol)
      rw [List.cons_append, run_put (hself c htext hback hc)]
      simp

end Escapes

/-! ## One line -/

theorem basic_escapes : Escapes Basic.step .escape .plain where
  start _ _ := rfl
  number _ _ _ := rfl

theorem basic_inlineQuoted (s rest : List Char) :
    basic (s.flatMap escapeInline ++ '"' :: rest) = some (s, rest) := by
  have hself : ∀ c, isTextChar c = true → c ≠ '\\' → c ≠ '"' →
      Basic.step .plain c = .put ([] ++ [c]) .plain := by
    intro c htext hback hquote
    simp only [Basic.step, if_neg hquote, if_neg hback, htext, if_true, List.nil_append]
  have hescape : Basic.step .plain '\\' = .put [] (.escape .start) := rfl
  unfold basic
  induction s with
  | nil => rfl
  | cons c s ih =>
      rw [List.flatMap_cons, List.append_assoc, escapeInline]
      split
      · next hquote =>
          rw [List.cons_append, run_skip hescape, List.cons_append,
            basic_escapes.run_letter (by decide) (c := '"') rfl, List.nil_append, ih, hquote]
          rfl
      split
      · next hline =>
          rw [List.cons_append, run_skip hescape, List.cons_append,
            basic_escapes.run_letter (by decide) (c := '\n') rfl, List.nil_append, ih, hline]
          rfl
      · next hquote _ =>
          rw [basic_escapes.run_escapeOther hescape hself hquote, ih]
          rfl

theorem literal_inlineLiteral {s : List Char} (h : ∀ c ∈ s, isTextChar c = true ∧ c ≠ '\'')
    (rest : List Char) : literal (s ++ '\'' :: rest) = some (s, rest) := by
  unfold literal
  induction s with
  | nil => rfl
  | cons c s ih =>
      obtain ⟨htext, hmark⟩ := h c List.mem_cons_self
      have hstep : literalStep () c = .put [c] () := by
        simp only [literalStep, if_neg hmark, htext, if_true]
      rw [List.cons_append, run_put hstep, ih fun c hc => h c (List.mem_cons_of_mem _ hc)]
      rfl

/-! ## Several lines -/

/-- The state of a machine after so many marks in the middle of a text. -/
def Lines.after : Nat → Lines
  | 0 => .plain
  | n + 1 => .marks (n + 1)

theorem lines_escapes (mark : Char) (escapes : Bool) :
    Escapes (Lines.step mark escapes) .escape .plain where
  start c hc := by
    simp only [List.mem_cons, List.not_mem_nil, or_false] at hc
    rcases hc with rfl | rfl | rfl | rfl | rfl | rfl | rfl | rfl <;> rfl
  number _ _ _ := rfl

section Lines

variable {mark : Char} {escapes : Bool} {n : Nat}

theorem step_mark (h : n < 5) :
    Lines.step mark escapes (.after n) mark = .put [] (.after (n + 1)) := by
  cases n with
  | zero => simp only [Lines.after, Lines.step, Lines.plainStep, if_true]
  | succ n =>
      have hne : n + 1 ≠ 5 := by omega
      simp only [Lines.after, Lines.step, if_true, if_neg hne]

/-- What is no mark settles that up to two marks before it belong to the text. -/
theorem step_other {c : Char} (h : n < 3) (hc : c ≠ mark) :
    Lines.step mark escapes (.after n) c =
      Lines.plainStep mark escapes (List.replicate n mark) c := by
  cases n with
  | zero => rfl
  | succ n => simp only [Lines.after, Lines.step, if_neg hc, if_pos h]

/-- Three marks close the text; those that came right before them belong to it. -/
theorem run_closing (h : n < 3) {rest : List Char} (hrest : rest.head? ≠ some mark) :
    run (Lines.step mark escapes) (Lines.atEnd mark) (.after n) (mark :: mark :: mark :: rest) =
      some (List.replicate n mark, rest) := by
  rw [run_skip (step_mark (by omega)), run_skip (step_mark (by omega)),
    run_skip (step_mark (by omega))]
  have hend : run (Lines.step mark escapes) (Lines.atEnd mark) (.after (n + 1 + 1 + 1)) rest =
      some (List.replicate n mark, rest) := by
    cases rest with
    | nil => simp [run, Lines.after, Lines.atEnd]
    | cons c rest =>
        have hc : c ≠ mark := fun e => hrest (by rw [e]; rfl)
        have hmany : ¬ n + 2 + 1 < 3 := by omega
        simp [run, Lines.after, Lines.step, if_neg hc, if_neg hmany]
  exact hend

theorem plainStep_self {owed : List Char} {c : Char} (hmark : c ≠ mark)
    (hback : c = '\\' → escapes = false) (h : isTextChar c = true ∨ c = '\n') :
    Lines.plainStep mark escapes owed c = .put (owed ++ [c]) .plain := by
  have hnot : ¬ (c = '\\' ∧ escapes = true) := by
    rintro ⟨hc, htrue⟩
    rw [hback hc] at htrue
    cases htrue
  rcases h with h | rfl
  · simp only [Lines.plainStep, if_neg hmark, if_neg hnot, if_neg (ne_newline_of_isTextChar h),
      if_neg (ne_return_of_isTextChar h), h, if_true]
  · simp only [Lines.plainStep, if_neg hmark, if_neg hnot, if_true]

end Lines

theorem run_escapeMultiline (s : List Char) {n : Nat} (h : n < 3) {rest : List Char}
    (hrest : rest.head? ≠ some '"') :
    run (Lines.step '"' true) (Lines.atEnd '"') (.after n)
      (escapeMultiline n s ++ '"' :: '"' :: '"' :: rest) =
      some (List.replicate n '"' ++ s, rest) := by
  have hplain : ∀ {n : Nat} {c : Char}, n < 3 → isTextChar c = true ∨ c = '\n' → c ≠ '\\' →
      c ≠ '"' → Lines.step '"' true (.after n) c =
        .put (List.replicate n '"' ++ [c]) .plain := by
    intro n c hn htext hback hquote
    rw [step_other hn hquote]
    exact plainStep_self hquote (fun e => absurd e hback) htext
  have hescape : ∀ {n : Nat}, n < 3 → Lines.step '"' true (.after n) '\\' =
      .put (List.replicate n '"') (.escape .start) := by
    intro n hn
    rw [step_other hn (by decide)]
    rfl
  -- the count `n` is of quotes that were read and not put out, and the writer counts them too
  induction s generalizing n with
  | nil =>
      rw [escapeMultiline, List.nil_append, run_closing h hrest, List.append_nil]
  | cons c s ih =>
      rw [escapeMultiline]
      split
      · next hquote =>
          subst hquote
          split
          -- the third quote in a row is escaped, so the two before it belong to the text
          · next htwo =>
              rw [List.cons_append, run_put (hescape h), List.cons_append,
                (lines_escapes '"' true).run_letter (by decide) (c := '"') rfl,
                show Lines.plain = .after 0 from rfl, ih (by omega)]
              rfl
          · next htwo =>
              rw [List.cons_append, run_skip (step_mark (by omega)), ih (by omega)]
              simp [List.replicate_succ']
      · next hquote =>
          split
          · next hline =>
              subst hline
              rw [List.cons_append, run_put (hplain h (.inr rfl) (by decide) (by decide)),
                show Lines.plain = .after 0 from rfl, ih (by omega)]
              simp
          · next hline =>
              rw [List.append_assoc, (lines_escapes '"' true).run_escapeOther (hescape h)
                (fun c htext hback hq => hplain h (.inl htext) hback hq) hquote,
                show Lines.plain = .after 0 from rfl, ih (by omega)]
              simp

theorem run_multilineLiteral {s : List Char}
    (hchars : ∀ c ∈ s, isTextChar c = true ∨ c = '\n') {n : Nat} (h : n < 3)
    (htriple : hasTriple '\'' n s = false) {rest : List Char}
    (hrest : rest.head? ≠ some '\'') :
    run (Lines.step '\'' false) (Lines.atEnd '\'') (.after n)
      (s ++ '\'' :: '\'' :: '\'' :: rest) = some (List.replicate n '\'' ++ s, rest) := by
  induction s generalizing n with
  | nil => rw [List.nil_append, run_closing h hrest, List.append_nil]
  | cons c s ih =>
      have ih := @ih fun c hc => hchars c (List.mem_cons_of_mem _ hc)
      rw [hasTriple] at htriple
      split at htriple
      · next hmark =>
          subst hmark
          simp only [Bool.or_eq_false_iff, beq_eq_false_iff_ne] at htriple
          -- it cannot be the third in a row, so there is room for it in the count
          rw [List.cons_append, run_skip (step_mark (by omega)), ih (by omega) htriple.2]
          simp [List.replicate_succ']
      · next hmark =>
          have hstep : Lines.step '\'' false (.after n) c = _ := step_other h hmark
          rw [plainStep_self hmark (fun _ => rfl) (hchars c List.mem_cons_self)] at hstep
          rw [List.cons_append, run_put hstep, show Lines.plain = .after 0 from rfl,
            ih (by omega) htriple]
          simp

/-! ## Any string -/

theorem string?_basic {text : List Char} (h : ∀ more, text ≠ '"' :: '"' :: more) :
    string? ('"' :: text) = basic text := by
  unfold string?
  split
  · next more e => exact absurd (List.cons.inj e).2 (h more)
  · next e => rw [(List.cons.inj e).2]
  · next e => cases e
  · next e => cases e
  · next hnone _ _ => exact absurd rfl (hnone text)

theorem string?_literal {text : List Char} (h : ∀ more, text ≠ '\'' :: '\'' :: more) :
    string? ('\'' :: text) = literal text := by
  unfold string?
  split
  · next e => cases e
  · next e => cases e
  · next more e => exact absurd (List.cons.inj e).2 (h more)
  · next e => rw [(List.cons.inj e).2]
  · next hnone => exact absurd rfl (hnone text)

/-- The line end that the writer puts first is dropped, and no other is. -/
theorem dropLineEnd_lineStart {s body : List Char}
    (hline : s.contains '\n' = false → body.head? ≠ some '\n')
    (hreturn : body.head? ≠ some '\r') : dropLineEnd (lineStart s ++ body) = body := by
  unfold lineStart
  split
  · rfl
  · next hnone =>
      have hhead := hline (Bool.eq_false_iff.mpr hnone)
      rw [List.nil_append]
      cases body with
      | nil => rfl
      | cons c body =>
          have hne : c ≠ '\n' := fun e => hhead (by rw [e]; rfl)
          have hne' : c ≠ '\r' := fun e => hreturn (by rw [e]; rfl)
          unfold dropLineEnd
          split
          · next e => exact absurd (List.cons.inj e).1 hne
          · next e => exact absurd (List.cons.inj e).1 hne'
          · rfl

end Read

/-! ## The forms of a string -/

section Forms

variable {s rest : List Char}

/-- An escape is one character or begins with a backslash. -/
theorem escapeOther_head (c : Char) (text : List Char) :
    (escapeOther c ++ text).head? = some '\\' ∨
      escapeOther c = [c] ∧ isControl c = false := by
  unfold escapeOther
  iterate 6
    split
    · exact .inl rfl
  next hcontrol => exact .inr ⟨rfl, Bool.eq_false_iff.mpr hcontrol⟩

theorem escapeInline_head_ne_quote (c : Char) (text : List Char) :
    (escapeInline c ++ text).head? ≠ some '"' := by
  unfold escapeInline
  split
  · simp
  split
  · simp
  · next hquote _ =>
      rcases escapeOther_head c text with h | ⟨h, -⟩
      · rw [h]
        decide
      · rw [h]
        exact fun e => hquote (Option.some.inj e)

/-- Text in multi-line quotes begins with a line end only if the text does, and never with a
carriage return. -/
theorem escapeMultiline_head (s text : List Char) (htext : text.head? = some '"') :
    ((escapeMultiline 0 s ++ text).head? = some '\n' → '\n' ∈ s) ∧
      (escapeMultiline 0 s ++ text).head? ≠ some '\r' := by
  cases s with
  | nil =>
      rw [escapeMultiline, List.nil_append, htext]
      decide
  | cons c s =>
      rw [escapeMultiline]
      split
      · simp
      split
      · next hline => simp [hline]
      · next hline =>
          rw [List.append_assoc]
          rcases escapeOther_head c (escapeMultiline 0 s ++ text) with h | ⟨h, hcontrol⟩
          · rw [h]
            exact ⟨fun e => absurd e (by decide), by decide⟩
          · rw [h]
            refine ⟨fun e => absurd (Option.some.inj e) hline, fun e => ?_⟩
            rw [Option.some.inj e] at hcontrol
            cases hcontrol

theorem string?_inlineQuoted (hrest : Unmarked rest) :
    string? (inlineQuoted s ++ rest) = some (s, rest) := by
  have htext : inlineQuoted s ++ rest = '"' :: (s.flatMap escapeInline ++ '"' :: rest) := by
    simp [inlineQuoted]
  rw [htext, string?_basic, basic_inlineQuoted]
  -- two more quotes could only be the closing one and one that follows
  intro more e
  cases s with
  | nil =>
      obtain ⟨-, e⟩ := List.cons.inj e
      exact hrest.1 (by rw [e]; rfl)
  | cons c s =>
      refine escapeInline_head_ne_quote c (s.flatMap escapeInline ++ '"' :: rest) ?_
      rw [← List.append_assoc, ← List.flatMap_cons, e]
      rfl

theorem string?_inlineLiteral (h : ∀ c ∈ s, isTextChar c = true ∧ c ≠ '\'')
    (hrest : Unmarked rest) : string? (inlineLiteral s ++ rest) = some (s, rest) := by
  have htext : inlineLiteral s ++ rest = '\'' :: (s ++ '\'' :: rest) := by simp [inlineLiteral]
  rw [htext, string?_literal, literal_inlineLiteral h]
  -- the same here, where the text has no mark of its own
  intro more e
  cases s with
  | nil =>
      obtain ⟨-, e⟩ := List.cons.inj e
      exact hrest.2 (by rw [e]; rfl)
  | cons c s => exact (h c List.mem_cons_self).2 (List.cons.inj e).1

theorem string?_multilineQuoted (hrest : Unmarked rest) :
    string? (multilineQuoted s ++ rest) = some (s, rest) := by
  have htext : multilineQuoted s ++ rest = '"' :: '"' :: '"' ::
      (lineStart s ++ (escapeMultiline 0 s ++ '"' :: '"' :: '"' :: rest)) := by
    simp [multilineQuoted]
  obtain ⟨hline, hreturn⟩ := escapeMultiline_head s ('"' :: '"' :: '"' :: rest) rfl
  rw [htext, string?, lines, dropLineEnd_lineStart (fun hnone e => ?_) hreturn,
    show Lines.plain = .after 0 from rfl, run_escapeMultiline s (by decide) hrest.1]
  · rfl
  · rw [List.contains_iff_mem.mpr (hline e)] at hnone
    cases hnone

theorem string?_multilineLiteral (hchars : ∀ c ∈ s, isTextChar c = true ∨ c = '\n')
    (htriple : hasTriple '\'' 0 s = false) (hrest : Unmarked rest) :
    string? (multilineLiteral s ++ rest) = some (s, rest) := by
  have htext : multilineLiteral s ++ rest = '\'' :: '\'' :: '\'' ::
      (lineStart s ++ (s ++ '\'' :: '\'' :: '\'' :: rest)) := by
    simp [multilineLiteral]
  have hhead : ∀ c, (s ++ '\'' :: '\'' :: '\'' :: rest).head? = some c →
      c ∈ s ∨ c = '\'' := by
    intro c hc
    cases s with
    | nil => exact .inr (Option.some.inj hc).symm
    | cons d s => exact .inl (Option.some.inj hc ▸ List.mem_cons_self)
  rw [htext, string?, lines, dropLineEnd_lineStart (fun hnone e => ?_) (fun e => ?_),
    show Lines.plain = .after 0 from rfl,
    run_multilineLiteral hchars (by decide) htriple hrest.2]
  · rfl
  · rcases hhead _ e with hmem | hmark
    · rw [List.contains_iff_mem.mpr hmem] at hnone
      cases hnone
    · cases hmark
  · rcases hhead _ e with hmem | hmark
    · rcases hchars _ hmem with h | h <;> cases h
    · cases hmark

theorem isTextChar_of_not_hard (h : s.any isHardControl = false) :
    ∀ c ∈ s, isTextChar c = true ∨ c = '\n' := by
  intro c hc
  have hnot := List.any_eq_false.mp h c hc
  by_cases hline : c = '\n'
  · exact .inr hline
  · refine .inl (isTextChar_of_not_isControl ?_)
    simpa [isHardControl, hline] using hnot

/-- Every string is read back from its text. -/
theorem string?_stringText (s : List Char) (hrest : Unmarked rest) :
    string? (stringText s ++ rest) = some (s, rest) := by
  unfold stringText
  dsimp only
  split
  · exact string?_inlineQuoted hrest
  split
  · next h =>
      simp only [Bool.and_eq_true, Bool.not_eq_true', List.contains_eq_mem,
        decide_eq_false_iff_not] at h
      obtain ⟨⟨hhard, hline⟩, hmark⟩ := h
      refine string?_inlineLiteral (fun c hc => ⟨?_, fun e => hmark (e ▸ hc)⟩) hrest
      exact (isTextChar_of_not_hard hhard c hc).resolve_right fun e => hline (e ▸ hc)
  split
  · exact string?_multilineQuoted hrest
  split
  · next h =>
      simp only [Bool.and_eq_true, Bool.not_eq_true'] at h
      exact string?_multilineLiteral (isTextChar_of_not_hard h.1) h.2 hrest
  split
  · exact string?_multilineQuoted hrest
  · exact string?_inlineQuoted hrest

/-- No two strings have a common text, whatever follows it. -/
theorem stringText_inj {s' rest' : List Char} (hrest : Unmarked rest) (hrest' : Unmarked rest')
    (h : stringText s ++ rest = stringText s' ++ rest') : s = s' ∧ rest = rest' := by
  have hread := string?_stringText s hrest
  rw [h, string?_stringText s' hrest'] at hread
  exact ⟨(congrArg Prod.fst (Option.some.inj hread)).symm,
    (congrArg Prod.snd (Option.some.inj hread)).symm⟩

end Forms

/-! ## Keys -/

/-- A key is read back from its text, as long as no character of a bare key follows. -/
theorem keyPart?_keyText (key : List Char) {c : Char} (hc : Read.isBareKeyChar c = false)
    (rest : List Char) : keyPart? (keyText key ++ c :: rest) = some (key, c :: rest) := by
  have hquoted : keyPart? (inlineQuoted key ++ c :: rest) = some (key, c :: rest) := by
    have htext : inlineQuoted key ++ c :: rest =
        '"' :: (key.flatMap escapeInline ++ '"' :: c :: rest) := by simp [inlineQuoted]
    rw [htext, keyPart?, basic_inlineQuoted]
  unfold keyText
  split
  · next h =>
      simp only [Bool.and_eq_true, Bool.not_eq_true', List.isEmpty_eq_false_iff,
        List.all_eq_true] at h
      obtain ⟨hne, hbare⟩ := h
      -- the writer's and the reader's bare characters are the same
      replace hbare : ∀ d ∈ key, Read.isBareKeyChar d = true := hbare
      cases key with
      | nil => exact absurd rfl hne
      | cons d key =>
          have hd := hbare d List.mem_cons_self
          have htake : ((d :: key) ++ c :: rest).takeWhile Read.isBareKeyChar = d :: key := by
            rw [List.takeWhile_append_of_pos hbare, List.takeWhile_cons_of_neg (by rw [hc]; decide),
              List.append_nil]
          have hdrop : ((d :: key) ++ c :: rest).dropWhile Read.isBareKeyChar = c :: rest := by
            rw [List.dropWhile_append_of_pos hbare, List.dropWhile_cons_of_neg (by rw [hc]; decide)]
          unfold keyPart?
          split
          · next e => rw [(List.cons.inj e).1] at hd; cases hd
          · next e => rw [(List.cons.inj e).1] at hd; cases hd
          · simp only [htake, hdrop]
            rw [if_neg (List.cons_ne_nil d key)]
  split
  · exact hquoted
  split
  · next h =>
      simp only [Bool.and_eq_true, Bool.not_eq_true', List.any_eq_false, List.contains_eq_mem,
        decide_eq_false_iff_not] at h
      have htext : inlineLiteral key ++ c :: rest = '\'' :: (key ++ '\'' :: c :: rest) := by
        simp [inlineLiteral]
      rw [htext, keyPart?, literal_inlineLiteral]
      exact fun d hd => ⟨isTextChar_of_not_isControl (Bool.eq_false_iff.mpr (h.1 d hd)),
        fun e => h.2 (e ▸ hd)⟩
  · exact hquoted

theorem keyText_inj {key key' rest rest' : List Char}
    (h : keyText key ++ ' ' :: rest = keyText key' ++ ' ' :: rest') :
    key = key' ∧ rest = rest' := by
  have hread := keyPart?_keyText key (c := ' ') rfl rest
  rw [h, keyPart?_keyText key' rfl] at hread
  obtain ⟨hkey, hrest⟩ := Prod.mk.inj (Option.some.inj hread)
  exact ⟨hkey.symm, (List.cons.inj hrest).2.symm⟩

end TemplateCache.Toml
