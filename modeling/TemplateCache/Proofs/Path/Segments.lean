import TemplateCache.FileSystem.Walk
import TemplateCache.Path.Join
import TemplateCache.Proofs.Text.Utf8

/-!
# What the segments of a path are

A walk sees a path as its segments. This module says what they are for the paths that the library
builds: a name set after a directory is one more segment, whatever the spelling of the directory,
and the absolute path of a location spells the names on the way to it.

Only *plain* names behave like that: a name with a slash in it, or one that is `.` or `..`, would
be read as something else. Names that come out of a path are plain.
-/

namespace TemplateCache

/-- A name that is read back as itself from any path it is put into. -/
structure Name.IsPlain (n : Name) : Prop where
  /-- An empty part of a path says nothing. -/
  nonempty : n ≠ []
  /-- A slash would cut the name in two. -/
  noSlash : Path.slash ∉ n
  /-- One dot stays where it is. -/
  notHere : n ≠ [Path.dot]
  /-- Two dots lead up. -/
  notUp : n ≠ [Path.dot, Path.dot]

instance (n : Name) : Decidable (Name.IsPlain n) :=
  decidable_of_iff (n ≠ [] ∧ Path.slash ∉ n ∧ n ≠ [Path.dot] ∧ n ≠ [Path.dot, Path.dot])
    ⟨fun h => ⟨h.1, h.2.1, h.2.2.1, h.2.2.2⟩, fun h => ⟨h.nonempty, h.noSlash, h.notHere, h.notUp⟩⟩

/-- A text of three characters or more without a slash makes a plain name. -/
theorem Name.isPlain_encode {text : List Char} (hslash : '/' ∉ text) (hlen : 2 < text.length) :
    Name.IsPlain (Utf8.encode text) := by
  have hbytes : 2 < (Utf8.encode text).length :=
    Nat.lt_of_lt_of_le hlen (Utf8.length_le_encode text)
  refine ⟨?_, ?_, ?_, ?_⟩
  · intro h; simp [h] at hbytes
  · intro h
    exact hslash ((Utf8.ofNat_mem_encode_iff (a := '/') (by decide)).mp h)
  · intro h; simp [h] at hbytes
  · intro h; simp [h] at hbytes

/-- Every name among some segments is plain. -/
def Segment.AllPlain (segments : List Segment) : Prop :=
  ∀ n, Segment.name n ∈ segments → Name.IsPlain n

theorem Segment.ofBytes_of_isPlain {n : Name} (h : Name.IsPlain n) :
    Segment.ofBytes n = .name n := by
  unfold Segment.ofBytes
  rw [if_neg h.notHere, if_neg h.notUp]

namespace Segment.AllPlain

theorem append {a b : List Segment} (ha : AllPlain a) (hb : AllPlain b) : AllPlain (a ++ b) := by
  intro n h
  rcases List.mem_append.mp h with h | h
  · exact ha n h
  · exact hb n h

theorem tail {part : Segment} {rest : List Segment} (h : AllPlain (part :: rest)) :
    AllPlain rest := fun n hn => h n (List.mem_cons_of_mem _ hn)

theorem head {n : Name} {rest : List Segment} (h : AllPlain (.name n :: rest)) :
    Name.IsPlain n := h n List.mem_cons_self

end Segment.AllPlain

namespace Path

/-! ## Parts between slashes -/

theorem split_of_not_mem {separator : UInt8} {bytes : Bytes} (h : separator ∉ bytes) :
    split separator bytes = [bytes] := by
  induction bytes with
  | nil => rfl
  | cons b rest ih =>
      simp only [List.mem_cons, not_or] at h
      simp only [split, if_neg (Ne.symm h.1), ih h.2]

/-- No part holds the separator. -/
theorem not_mem_of_mem_split {separator : UInt8} {bytes part : Bytes}
    (h : part ∈ split separator bytes) : separator ∉ part := by
  induction bytes generalizing part with
  | nil =>
      simp only [split, List.mem_singleton] at h
      simp [h]
  | cons b rest ih =>
      by_cases hb : b = separator
      · simp only [split, if_pos hb, List.mem_cons] at h
        rcases h with h | h
        · simp [h]
        · exact ih h
      -- any other byte goes to the front of the first part
      · obtain ⟨first, others, hs⟩ :=
          List.exists_cons_of_ne_nil (split_ne_nil separator rest)
        simp only [split, if_neg hb, hs, List.mem_cons] at h
        rcases h with h | h
        · have hfirst : separator ∉ first := ih (by rw [hs]; exact List.mem_cons_self)
          rw [h]
          simp only [List.mem_cons, not_or]
          exact ⟨Ne.symm hb, hfirst⟩
        · exact ih (by rw [hs]; exact List.mem_cons_of_mem _ h)

/-! ## Segments -/

theorem segments_append (a b : Bytes) :
    segments ⟨a ++ slash :: b⟩ = segments ⟨a⟩ ++ segments ⟨b⟩ := by
  simp [segments, split_append]

theorem segments_empty : segments ⟨[]⟩ = [] := by simp [segments, split]

theorem segments_name {n : Name} (h : Name.IsPlain n) : segments ⟨n⟩ = [.name n] := by
  simp [segments, split_of_not_mem h.noSlash, h.nonempty, Segment.ofBytes_of_isPlain h]

/-- Whatever a path is, the names among its segments are plain. -/
theorem segments_allPlain (p : Path) : Segment.AllPlain p.segments := by
  intro n hn
  obtain ⟨part, hpart, hof⟩ := List.mem_map.mp hn
  obtain ⟨hmem, hne⟩ := List.mem_filter.mp hpart
  unfold Segment.ofBytes at hof
  split at hof
  · exact absurd hof (by simp)
  · rename_i hhere
    split at hof
    · exact absurd hof (by simp)
    · rename_i hup
      injection hof with hof
      subst hof
      exact ⟨by simpa using hne, not_mem_of_mem_split hmem, hhere, hup⟩

theorem strictSegments_allPlain (p : Path) : Segment.AllPlain p.strictSegments := by
  unfold strictSegments
  split
  · refine (segments_allPlain p).append ?_
    intro n hn
    exact absurd hn (by simp)
  · exact segments_allPlain p

/-! ## A name set after a directory -/

/-- The three ways in which a plain name is set after a path. -/
theorem join_name_cases (p : Path) {n : Name} (h : Name.IsPlain n) :
    (p.bytes = [] ∧ p.join ⟨n⟩ = ⟨n⟩) ∨
    (∃ front, p.bytes = front ++ [slash] ∧ p.join ⟨n⟩ = ⟨front ++ slash :: n⟩) ∨
    (p.bytes ≠ [] ∧ p.join ⟨n⟩ = ⟨p.bytes ++ slash :: n⟩) := by
  have hrel : isAbsolute ⟨n⟩ = false := by
    have hhead : n.head? ≠ some slash := fun e => h.noSlash (List.mem_of_mem_head? e)
    simpa [isAbsolute] using hhead
  unfold join
  rw [if_neg (by simp [hrel])]
  by_cases hempty : p.bytes = []
  · exact .inl ⟨hempty, by simp [isEmpty, hempty]⟩
  · by_cases hlast : p.bytes.getLast? = some slash
    · obtain ⟨front, hfront⟩ := List.getLast?_eq_some_iff.mp hlast
      exact .inr (.inl ⟨front, hfront, by simp [hfront]⟩)
    · exact .inr (.inr ⟨hempty, by simp [isEmpty, hempty, hlast]⟩)

/-- A name set after a directory is one more segment. -/
theorem segments_join_name (p : Path) {n : Name} (h : Name.IsPlain n) :
    (p.join ⟨n⟩).segments = p.segments ++ [.name n] := by
  rcases join_name_cases p h with ⟨hempty, hjoin⟩ | ⟨front, hfront, hjoin⟩ | ⟨_, hjoin⟩
  · have hp : p = ⟨[]⟩ := by cases p; simpa using hempty
    rw [hjoin, segments_name h, hp, segments_empty]
    rfl
  · have hp : p = ⟨front ++ slash :: []⟩ := by cases p; simpa using hfront
    rw [hjoin, hp, segments_append, segments_append, segments_empty, segments_name h]
    simp
  · rw [hjoin, segments_append, segments_name h]

theorem bytes_join_name (p : Path) {n : Name} (h : Name.IsPlain n) :
    ∃ front, (p.join ⟨n⟩).bytes = front ++ n := by
  rcases join_name_cases p h with ⟨_, hjoin⟩ | ⟨front, _, hjoin⟩ | ⟨_, hjoin⟩
  · exact ⟨[], by simp [hjoin]⟩
  · exact ⟨front ++ [slash], by simp [hjoin]⟩
  · exact ⟨p.bytes ++ [slash], by simp [hjoin]⟩

theorem length_le_join_name (p : Path) {n : Name} (h : Name.IsPlain n) :
    p.bytes.length + n.length ≤ (p.join ⟨n⟩).bytes.length := by
  rcases join_name_cases p h with ⟨hempty, hjoin⟩ | ⟨front, hfront, hjoin⟩ | ⟨_, hjoin⟩
  · simp [hjoin, hempty]
  · simp only [hjoin, hfront, List.length_append, List.length_cons, List.length_nil]
    omega
  · simp only [hjoin, List.length_append, List.length_cons]
    omega

theorem strictSegments_join_name (p : Path) {n : Name} (h : Name.IsPlain n) :
    (p.join ⟨n⟩).strictSegments = p.segments ++ [.name n] := by
  obtain ⟨front, hfront⟩ := bytes_join_name p h
  -- it ends in the name, which has no slash, so it does not ask for a directory
  have hlast : (p.join ⟨n⟩).bytes.getLast? ≠ some slash := by
    rw [hfront]
    intro e
    obtain ⟨b, hb⟩ := Option.isSome_iff_exists.mp (List.getLast?_isSome.mpr h.nonempty)
    rw [List.getLast?_append, hb] at e
    injection e with e
    exact h.noSlash (e ▸ List.mem_of_getLast? hb)
  unfold strictSegments
  rw [if_neg hlast, segments_join_name p h]

theorem isAbsolute_join_name (p : Path) {n : Name} (h : Name.IsPlain n) :
    (p.join ⟨n⟩).isAbsolute = p.isAbsolute := by
  rcases join_name_cases p h with ⟨hempty, hjoin⟩ | ⟨front, hfront, hjoin⟩ | ⟨hne, hjoin⟩
  · have hhead : n.head? ≠ some slash := fun e => h.noSlash (List.mem_of_mem_head? e)
    simpa [hjoin, isAbsolute, hempty] using hhead
  · cases front <;> simp [hjoin, isAbsolute, hfront]
  · obtain ⟨b, rest, hb⟩ := List.exists_cons_of_ne_nil hne
    simp [hjoin, isAbsolute, hb]

end Path

/-! ## The path of a location -/

theorem Location.path_cons (n : Name) (dir : Location) :
    ∃ front, (Location.path (n :: dir)).bytes = front ++ Path.slash :: n
      ∧ Path.segments ⟨front⟩ = (Location.path dir).segments := by
  cases dir with
  | nil =>
      refine ⟨[], by simp [Location.path], ?_⟩
      have h := Path.segments_append [] []
      simpa [Location.path, Path.segments_empty] using h.symm
  | cons m above => exact ⟨(Location.path (m :: above)).bytes, by simp [Location.path], rfl⟩

/-- The path of a location spells the names on the way to it. -/
theorem Location.segments_path {l : Location} (h : ∀ n ∈ l, Name.IsPlain n) :
    (Location.path l).segments = l.reverse.map .name := by
  induction l with
  | nil =>
      have h := Path.segments_append [] []
      simpa [Location.path, Path.segments_empty] using h
  | cons n dir ih =>
      obtain ⟨front, hfront, hsegments⟩ := Location.path_cons n dir
      have hpath : Location.path (n :: dir) = ⟨front ++ Path.slash :: n⟩ := by
        cases hp : Location.path (n :: dir) with
        | mk bytes => rw [hp] at hfront; simpa using hfront
      rw [hpath, Path.segments_append, Path.segments_name (h n List.mem_cons_self), hsegments,
        ih fun m hm => h m (List.mem_cons_of_mem _ hm)]
      simp

/-- A name at the end of a path asks for no directory. -/
theorem Location.strictSegments_path {n : Name} {dir : Location}
    (h : ∀ m ∈ n :: dir, Name.IsPlain m) :
    (Location.path (n :: dir)).strictSegments = (n :: dir).reverse.map .name := by
  obtain ⟨front, hfront, -⟩ := Location.path_cons n dir
  have hn := h n List.mem_cons_self
  have hlast : (Location.path (n :: dir)).bytes.getLast? ≠ some Path.slash := by
    rw [hfront, List.getLast?_append, List.getLast?_cons]
    intro e
    obtain ⟨b, hb⟩ := Option.isSome_iff_exists.mp (List.getLast?_isSome.mpr hn.nonempty)
    rw [hb] at e
    injection e with e
    exact hn.noSlash (e ▸ List.mem_of_getLast? hb)
  unfold Path.strictSegments
  rw [if_neg hlast, Location.segments_path h]

/-- The last name on the way to a location is the file name of its path. -/
theorem Location.fileName?_path {n : Name} {dir : Location} (h : Name.IsPlain n) :
    (Location.path (n :: dir)).fileName? = some n := by
  obtain ⟨front, hfront, -⟩ := Location.path_cons n dir
  have hpath : Location.path (n :: dir) = ⟨front ++ Path.slash :: n⟩ := by
    cases hp : Location.path (n :: dir) with
    | mk bytes => rw [hp] at hfront; simpa using hfront
  have hinner : Path.inner ⟨n⟩ = [.name n] := by
    have hn : Path.component? n = some (.name n) := by
      unfold Path.component?
      rw [if_neg h.nonempty, if_neg h.notHere, if_neg h.notUp]
    simp [Path.inner, Path.split_of_not_mem h.noSlash, hn]
  have hwhole := Path.inner_append ⟨front⟩ n
  unfold Path.fileName? Path.components
  rw [hpath, hwhole, hinner, ← List.append_assoc, List.getLast?_append]
  rfl

theorem Location.isAbsolute_path (l : Location) : (Location.path l).isAbsolute = true := by
  cases l with
  | nil => rfl
  | cons n dir =>
      obtain ⟨m, rest, hrev⟩ := List.exists_cons_of_ne_nil (l := (n :: dir).reverse) (by simp)
      simp only [Location.path, Path.isAbsolute, hrev]
      simp

end TemplateCache
