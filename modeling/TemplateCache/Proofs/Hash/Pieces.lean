import TemplateCache.Proofs.Hash.Frame

/-!
# Hashing piece by piece

The frame of a list of parts is never written down to be hashed. A hasher takes the length of each
part and then the part, one after another, and tells its digest at the end. A hasher is *seamless*
when this digest is the one of all its pieces in one; then it hashes the frame.

What it hashes tells everything about the parts. No two lists have the same frame, whatever the
parts look like: bytes cannot move from one part to the next, and a part cannot appear or disappear,
not even an empty one.
-/

namespace TemplateCache

namespace ContentHash

/-! ## What frames tell -/

@[simp] theorem length_frame (parts : List Bytes) :
    (frame parts).length = 8 * parts.length + parts.flatten.length := by
  induction parts with
  | nil => rfl
  | cons part parts ih =>
      rw [frame_cons, List.length_append, List.length_append, ih, Bytes.length_littleEndian,
        List.length_cons, List.flatten_cons, List.length_append]
      omega

/-- One part more or less shows, wherever it stands and even if it is empty. -/
theorem frame_insert_ne (front : List Bytes) (part : Bytes) (rest : List Bytes) :
    frame (front ++ part :: rest) ≠ frame (front ++ rest) := by
  intro h
  have hlength := congrArg List.length h
  simp only [length_frame, List.length_append, List.length_cons, List.flatten_append,
    List.flatten_cons] at hlength
  omega

end ContentHash

/-! ## Hashers -/

/-- Takes its input in pieces, and tells the digest of what it was given. -/
structure Hasher where
  State : Type
  start : State
  update : State → Bytes → State
  digest : State → Xxh3.Pair

namespace Hasher

/-- How the input was cut does not show: the digest is that of the pieces in one. -/
def Seamless (hasher : Hasher) : Prop :=
  ∀ pieces : List Bytes, hasher.digest (pieces.foldl hasher.update hasher.start) =
    Xxh3.hash ⟨pieces.flatten.toArray⟩

/-- A part is preceded by its length in eight bytes, least significant first. -/
def takePart (hasher : Hasher) (state : hasher.State) (part : Bytes) : hasher.State :=
  hasher.update (hasher.update state (Bytes.littleEndian 8 part.length)) part

/-- The hash of a list of parts, as the hasher comes to it. -/
def ofParts (hasher : Hasher) (parts : List Bytes) : ContentHash :=
  .ofPair (hasher.digest (parts.foldl hasher.takePart hasher.start))

/-- The pieces of a frame in the order in which they are taken. -/
def pieces (parts : List Bytes) : List Bytes :=
  parts.flatMap fun part => [Bytes.littleEndian 8 part.length, part]

theorem flatten_pieces (parts : List Bytes) : (pieces parts).flatten = ContentHash.frame parts := by
  induction parts with
  | nil => rfl
  | cons part parts ih =>
      rw [ContentHash.frame_cons, ← ih]
      rfl

variable {hasher : Hasher}

theorem foldl_takePart (state : hasher.State) (parts : List Bytes) :
    parts.foldl hasher.takePart state = (pieces parts).foldl hasher.update state := by
  induction parts generalizing state with
  | nil => rfl
  | cons part parts ih => exact ih (hasher.takePart state part)

/-- What a seamless hasher makes of parts is the hash of their frame. -/
theorem Seamless.ofParts_eq (h : hasher.Seamless) (parts : List Bytes) :
    hasher.ofParts parts = .ofBytes (ContentHash.frame parts) := by
  rw [ofParts, foldl_takePart, h, flatten_pieces]
  rfl

open ContentHash in
/-- **Framed parts are told apart.** Lists of parts that can be framed have the same frame only if
they are the same list. So the three parts of a content key are told by its frame, and bytes cannot
move from one to the next; and a part that is put in or left out changes the frame, whether it is
the last one or any other, and even if it is empty. What a seamless hasher makes of the parts,
taking length by length and part by part, is the hash of this frame. -/
theorem parts_told_apart (hseamless : hasher.Seamless) :
    (∀ a b : List Bytes, (∀ part ∈ a, Fits part) → (∀ part ∈ b, Fits part) →
      (frame a = frame b ↔ a = b)) ∧
    (∀ fingerprint optionsKey contents fingerprint' optionsKey' contents' : Bytes,
      (∀ part ∈ [fingerprint, optionsKey, contents], Fits part) →
      (∀ part ∈ [fingerprint', optionsKey', contents'], Fits part) →
      (frame [fingerprint, optionsKey, contents] = frame [fingerprint', optionsKey', contents'] ↔
        fingerprint = fingerprint' ∧ optionsKey = optionsKey' ∧ contents = contents')) ∧
    (∀ (front : List Bytes) (part : Bytes) (rest : List Bytes),
      frame (front ++ part :: rest) ≠ frame (front ++ rest)) ∧
    ∀ parts : List Bytes, hasher.ofParts parts = .ofBytes (frame parts) ∧
      hasher.ofParts parts = ContentHash.ofParts parts := by
  have hframe : ∀ a b : List Bytes, (∀ part ∈ a, Fits part) → (∀ part ∈ b, Fits part) →
      (frame a = frame b ↔ a = b) := by
    intro a b ha hb
    exact ⟨frame_injective ha hb, congrArg frame⟩
  refine ⟨hframe, ?_, frame_insert_ne, ?_⟩
  · intro fingerprint optionsKey contents fingerprint' optionsKey' contents' hfits hfits'
    rw [hframe _ _ hfits hfits']
    simp
  · intro parts
    exact ⟨hseamless.ofParts_eq parts, hseamless.ofParts_eq parts⟩

/-! ### A part that looks like a frame -/

/-- Keeps all that it is given until it is asked. -/
def collecting : Hasher where
  State := Bytes
  start := []
  update taken piece := taken ++ piece
  digest taken := Xxh3.hash ⟨taken.toArray⟩

theorem seamless_collecting : collecting.Seamless := by
  intro pieces
  have htaken : pieces.foldl (fun taken piece => taken ++ id piece) [] = pieces.flatten := by
    rw [List.foldl_append_eq_append, List.map_id, List.nil_append]
  exact congrArg (fun taken : Bytes => Xxh3.hash ⟨taken.toArray⟩) htaken

/-- Two parts of a byte each; their frame will do for a part as well. -/
def letters : List Bytes := [[0x61], [0x62]]

theorem parts_told_apart_nested :
    collecting.Seamless ∧ (∀ part ∈ letters, ContentHash.Fits part) ∧
    (∀ part ∈ [ContentHash.frame letters], ContentHash.Fits part) ∧
    ContentHash.frame letters ≠ ContentHash.frame [ContentHash.frame letters] ∧
    collecting.ofParts letters = .ofBytes (ContentHash.frame letters) := by
  obtain ⟨hframe, -, -, hhash⟩ := parts_told_apart seamless_collecting
  have hletters : ∀ part ∈ letters, ContentHash.Fits part := by
    unfold ContentHash.Fits
    decide
  have hnested : ∀ part ∈ [ContentHash.frame letters], ContentHash.Fits part := by
    unfold ContentHash.Fits
    decide
  refine ⟨seamless_collecting, hletters, hnested, ?_, (hhash letters).1⟩
  rw [Ne, hframe _ _ hletters hnested]
  decide

end Hasher

end TemplateCache
