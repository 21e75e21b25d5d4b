import Mathlib.Algebra.Group.Nat.Defs
import TemplateCache.Hash.Content

/-!
# Frames

Every part of a frame is preceded by its length, so a frame can be cut into its parts again and no
two lists of parts have the same frame. This holds for parts whose length fits in eight bytes.
-/

namespace TemplateCache

/-- A number is read back as long as it fits in the bytes it was given. -/
theorem Bytes.ofLittleEndian_littleEndian {count n : Nat} (h : n < 256 ^ count) :
    ofLittleEndian (littleEndian count n) = n := by
  induction count generalizing n with
  | zero =>
      rw [Nat.pow_zero, Nat.lt_one_iff] at h
      simp [littleEndian, ofLittleEndian, h]
  | succ count ih =>
      have hrest : n / 256 < 256 ^ count := by
        rw [Nat.pow_succ] at h
        exact Nat.div_lt_of_lt_mul (by rw [Nat.mul_comm]; exact h)
      simp only [littleEndian, ofLittleEndian, ih hrest, UInt8.toNat_ofNat']
      omega

namespace ContentHash

/-- A part that can be framed. -/
def Fits (part : Bytes) : Prop := part.length < 2 ^ 64

theorem frame_cons (part : Bytes) (parts : List Bytes) :
    frame (part :: parts) = Bytes.littleEndian 8 part.length ++ (part ++ frame parts) := by
  simp [frame]

theorem littleEndian_injective {a b : Bytes} (ha : Fits a) (hb : Fits b)
    (h : Bytes.littleEndian 8 a.length = Bytes.littleEndian 8 b.length) :
    a.length = b.length := by
  have hread := congrArg Bytes.ofLittleEndian h
  rwa [Bytes.ofLittleEndian_littleEndian (by unfold Fits at ha; omega),
    Bytes.ofLittleEndian_littleEndian (by unfold Fits at hb; omega)] at hread

/-- No two lists of parts have the same frame. -/
theorem frame_injective {a b : List Bytes} (ha : ∀ part ∈ a, Fits part)
    (hb : ∀ part ∈ b, Fits part) (h : frame a = frame b) : a = b := by
  have hnonempty : ∀ (part : Bytes) (parts : List Bytes), frame (part :: parts) ≠ frame [] := by
    intro part parts e
    have hlen := congrArg List.length e
    rw [frame_cons] at hlen
    simp [frame] at hlen
  induction a generalizing b with
  | nil =>
      cases b with
      | nil => rfl
      | cons part parts => exact absurd h.symm (hnonempty part parts)
  | cons part parts ih =>
      cases b with
      | nil => exact absurd h (hnonempty part parts)
      | cons part' parts' =>
          rw [frame_cons, frame_cons] at h
          -- the length has a fixed width, and tells where the part ends
          obtain ⟨hlength, hrest⟩ := List.append_inj h (by simp)
          have hlength := littleEndian_injective (ha part List.mem_cons_self)
            (hb part' List.mem_cons_self) hlength
          obtain ⟨hpart, hparts⟩ := List.append_inj hrest hlength
          rw [hpart, ih (fun q hq => ha q (List.mem_cons_of_mem _ hq))
            (fun q hq => hb q (List.mem_cons_of_mem _ hq)) hparts]

end ContentHash

end TemplateCache
