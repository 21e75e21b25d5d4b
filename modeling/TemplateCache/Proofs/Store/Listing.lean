import TemplateCache.Proofs.Artifact.Length
import TemplateCache.Proofs.Path.Components
import TemplateCache.Proofs.Store.Contents

/-!
# Listing a store

A directory tells its entries in any order, and they can be anything: files, links that lead to a
file or to nothing, directories, names that are no text. The listing of a store does not depend on
the order, and it is exact: the paths of all entries that have a name as artifacts have it and lead
to a regular file, each once, in the order of paths. So what is listed and what can be looked up by
name agree for every name that an artifact can get. Main statement: `list_exact`.
-/

namespace TemplateCache

/-! ## The order of paths -/

namespace Path

/-- Where the kind of a component stands in the order of components. -/
def Component.rank : Component → Nat
  | .root => 0
  | .here => 1
  | .up => 2
  | .name _ => 3

/-- Components come by their kinds, and names by their bytes. -/
def Component.Before : Component → Component → Prop
  | .name a, .name b => a < b
  | part, other => part.rank < other.rank

/-- The order of paths, which is that of what they say. -/
def Before (p q : Path) : Prop := List.Lex Component.Before p.components q.components

theorem Component.not_before_self (part : Component) : ¬part.Before part := by
  cases part with
  | name a => exact List.lt_irrefl a
  | root => exact Nat.lt_irrefl 0
  | here => exact Nat.lt_irrefl 1
  | up => exact Nat.lt_irrefl 2

/-- Of two paths that say the same neither comes before the other. -/
theorem Before.not_same {p q : Path} (h : p.Before q) : p.same q = false := by
  have hirrefl : ∀ parts : List Component, ¬List.Lex Component.Before parts parts := by
    intro parts hparts
    induction parts with
    | nil => cases hparts
    | cons part rest ih =>
        cases hparts with
        | rel hpart => exact part.not_before_self hpart
        | cons hrest => exact ih hrest
  unfold same
  rw [beq_eq_false_iff_ne]
  intro heq
  unfold Before at h
  rw [heq] at h
  exact hirrefl _ h

/-- Entries of a directory come in the order of their names. -/
theorem before_join_name (dir : Path) {a b : Name} (ha : Name.IsPlain a) (hb : Name.IsPlain b)
    (h : a < b) : (dir.join ⟨a⟩).Before (dir.join ⟨b⟩) := by
  unfold Before
  rw [components_entry dir ha, components_entry dir hb]
  induction dir.components with
  | nil => exact .rel h
  | cons part rest ih => exact .cons ih

end Path

/-! ## What is asked for on the way -/

namespace FileSystem

/-- A path leads to a regular file, links followed. -/
def LeadsToFile (s : FileSystem) (p : Path) : Prop :=
  ∃ l data t mode, s.follow p = .ok (.node l (.file data t mode))

/-- Whether it does, as far as its status tells. -/
def hasFile (s : FileSystem) (p : Path) : Bool :=
  match s.status p with
  | .ok status => status.isFile
  | .error _ => false

theorem hasFile_iff {s : FileSystem} {p : Path} : s.hasFile p = true ↔ s.LeadsToFile p := by
  unfold hasFile
  constructor
  · intro h
    split at h
    · rename_i status hstatus
      exact follow_of_isFile hstatus h
    · cases h
  · rintro ⟨l, data, t, mode, hfollow⟩
    rw [status_of_follow hfollow]
    rfl

/-- The answers of a system whose directories tell their entries in an order of their own. -/
def answerIn (tell : List Name → List Name) :
    (r : Request) → FileSystem → r.Answer × FileSystem
  | .names p, s => ((s.names p).map tell, s)
  | r, s => s.answer r

theorem answerIn_id : answerIn id = fun r s => s.answer r := by
  funext r s
  cases r with
  | names p =>
      have hmap : (s.names p).map id = s.names p := by cases s.names p <;> rfl
      exact Prod.ext hmap rfl
  | _ => rfl

end FileSystem

open FileSystem
open ArtifactName.Ingredients (outStore outDisk)

namespace Store

variable {store : Store} {l : Location} {s : FileSystem}

/-! ## The listing -/

/-- The paths of the artifacts among the entries of a directory. -/
def listing (store : Store) (l : Location) (s : FileSystem) : List Path :=
  ((((s.disk.names l).filter isArtifactLike).filter fun x =>
    s.hasFile (store.dir.join ⟨x⟩)).mergeSort namesInOrder).map fun x => store.dir.join ⟨x⟩

theorem run_regularFiles (tell : List Name → List Name) (names : List Name) :
    (store.regularFiles names).run (answerIn tell) s =
      (names.filter fun x => s.hasFile (store.dir.join ⟨x⟩), s) := by
  induction names with
  | nil => rfl
  | cons x rest ih =>
      have hhere : (FileProgram.isFile (store.dir.join ⟨x⟩)).run (answerIn tell) s =
          (s.hasFile (store.dir.join ⟨x⟩), s) := by
        unfold FileProgram.isFile FileProgram.ask hasFile
        rw [Program.run_then, Program.run_question]
        dsimp only [answerIn, answer]
        cases s.status (store.dir.join ⟨x⟩) <;> rfl
      unfold regularFiles
      rw [Program.run_then, hhere]
      dsimp only
      rw [Program.run_then, ih, Program.run_pure, List.filter_cons]

/-- In whatever order the entries are told, the listing is the same. -/
theorem run_list {t : Moment} (hdir : s.follow store.dir = .ok (.node l (.directory t)))
    {tell : List Name → List Name} (htell : ∀ names, (tell names).Perm names) :
    store.list.run (answerIn tell) s = (.ok (store.listing l s), s) := by
  have hnames : s.names store.dir = .ok (s.disk.names l) := by
    unfold FileSystem.names
    rw [hdir]
    rfl
  have hsorted := mergeSort_eq_of_perm (((htell (s.disk.names l)).filter isArtifactLike).filter
    fun x => s.hasFile (store.dir.join ⟨x⟩))
  unfold list FileProgram.ask
  rw [Program.run_then, Program.run_question]
  dsimp only [answerIn]
  rw [hnames]
  dsimp only [Except.map]
  rw [Program.run_then, run_regularFiles, Program.run_pure, hsorted]
  rfl

theorem mem_listing {p : Path} :
    p ∈ store.listing l s ↔ ∃ x, x ∈ s.disk.names l ∧ isArtifactLike x = true ∧
      s.LeadsToFile (store.dir.join ⟨x⟩) ∧ p = store.dir.join ⟨x⟩ := by
  rw [listing, List.mem_map]
  simp only [List.mem_mergeSort, List.mem_filter, hasFile_iff]
  constructor
  · rintro ⟨x, ⟨⟨hx, hlike⟩, hfile⟩, rfl⟩
    exact ⟨x, hx, hlike, hfile, rfl⟩
  · rintro ⟨x, hx, hlike, hfile, rfl⟩
    exact ⟨x, ⟨⟨hx, hlike⟩, hfile⟩, rfl⟩

/-- No name is told twice, so the sorted names go strictly up, and their paths with them. -/
theorem pairwise_listing (hs : s.Sound) (store : Store) (l : Location) :
    (store.listing l s).Pairwise Path.Before := by
  unfold listing
  rw [List.pairwise_map]
  generalize hnames : ((s.disk.names l).filter isArtifactLike).filter
    (fun x => s.hasFile (store.dir.join ⟨x⟩)) = names
  have hnodup : (names.mergeSort namesInOrder).Nodup :=
    (List.mergeSort_perm names _).nodup_iff.mpr
      (hnames ▸ ((s.disk.nodup_names l).filter _).filter _)
  have hplain : ∀ x ∈ names.mergeSort namesInOrder, Name.IsPlain x := by
    intro x hx
    rw [List.mem_mergeSort, ← hnames, List.mem_filter, List.mem_filter] at hx
    obtain ⟨n, hn⟩ := (s.disk.mem_names_iff l x).mp hx.1.1
    exact hs.tree.plain hn
  refine ((pairwise_mergeSort names).and hnodup).imp_of_mem fun hx hy hxy => ?_
  exact Path.before_join_name store.dir (hplain _ hx) (hplain _ hy)
    (Std.lt_of_le_of_ne hxy.1 hxy.2)

/-- The names that artifacts are told by are texts with their beginning. -/
theorem isArtifactLike_iff {x : Name} :
    isArtifactLike x = true ↔ ∃ text, x = Utf8.encode text ∧ "template_".toList <+: text := by
  have hleading : ArtifactName.leading ++ ['_'] = "template_".toList := by decide
  unfold isArtifactLike
  rw [hleading]
  constructor
  · intro h
    split at h
    · cases h
    · rename_i text htext
      exact ⟨text, Utf8.decode?_eq_some_iff.mp htext, List.isPrefixOf_iff_prefix.mp h⟩
  · rintro ⟨text, rfl, hprefix⟩
    rw [Utf8.decode?_encode]
    exact List.isPrefixOf_iff_prefix.mpr hprefix

/-! ## Looking up and listing -/

/-- An artifact is there if its path leads to a regular file. -/
theorem contains_iff (store : Store) (n : ArtifactName) :
    (s.runFiles (store.contains n)).1 = true ↔ s.LeadsToFile (store.artifactPath n) := by
  unfold contains
  rw [FileProgram.runFiles_isFile]
  exact hasFile_iff

/-- What a path below a directory leads to has an entry in the directory, be it a link. -/
theorem mem_names_of_leadsToFile (hreach : s.Reaches store.dir l) {x : Name}
    (hplain : Name.IsPlain x) (h : s.LeadsToFile (store.dir.join ⟨x⟩)) : x ∈ s.disk.names l := by
  obtain ⟨_, data, t, mode, hfollow⟩ := h
  obtain ⟨-, -, l', hreach', hcases⟩ := follow_join hplain hfollow
  cases hreach.unique hreach'
  refine (s.disk.mem_names_iff l x).mpr ?_
  rcases hcases with ⟨target, t', hlink⟩ | hentry
  · exact ⟨_, hlink⟩
  · obtain ⟨-, -, l', hreach', ⟨-, hspot⟩ | ⟨n, hn, -⟩⟩ := (entry_join_eq_ok_iff hplain).mp hentry
    · cases hspot
    · cases hreach.unique hreach'
      exact ⟨n, hn⟩

theorem mem_listing_iff_contains (hreach : s.Reaches store.dir l)
    (i : ArtifactName.Ingredients) :
    store.artifactPath i.name ∈ store.listing l s ↔
      (s.runFiles (store.contains i.name)).1 = true := by
  have hplain : Name.IsPlain i.name.entryName := (ArtifactName.isProper_forSource ..).plain
  rw [contains_iff, mem_listing]
  constructor
  · rintro ⟨x, hx, -, hfile, hpath⟩
    rw [hpath]
    exact hfile
  · intro hfile
    exact ⟨i.name.entryName, mem_names_of_leadsToFile hreach hplain hfile,
      ArtifactName.isArtifactLike_entryName .., hfile, rfl⟩

/-! ## What is listed -/

/-- Some paths are the listing that a store in the directory at a location should have. -/
structure Lists (store : Store) (l : Location) (s : FileSystem) (paths : List Path) : Prop where
  increasing : paths.Pairwise Path.Before
  distinct : paths.Pairwise fun p q => p.same q = false
  exact : ∀ p, p ∈ paths ↔ ∃ text node, s.disk.get? (Utf8.encode text :: l) = some node ∧
    "template_".toList <+: text ∧ s.LeadsToFile p ∧ p = store.dir.join ⟨Utf8.encode text⟩
  artifacts : ∀ i : ArtifactName.Ingredients,
    store.artifactPath i.name ∈ paths ↔ (s.runFiles (store.contains i.name)).1 = true

theorem lists_listing (hs : s.Sound) (hreach : s.Reaches store.dir l) :
    store.Lists l s (store.listing l s) where
  increasing := pairwise_listing hs store l
  distinct := (pairwise_listing hs store l).imp Path.Before.not_same
  exact := by
    intro p
    rw [mem_listing]
    constructor
    · rintro ⟨x, hx, hlike, hfile, rfl⟩
      obtain ⟨text, rfl, hprefix⟩ := isArtifactLike_iff.mp hlike
      obtain ⟨node, hnode⟩ := (s.disk.mem_names_iff l _).mp hx
      exact ⟨text, node, hnode, hprefix, hfile, rfl⟩
    · rintro ⟨text, node, hnode, hprefix, hfile, rfl⟩
      exact ⟨_, (s.disk.mem_names_iff l _).mpr ⟨node, hnode⟩,
        isArtifactLike_iff.mpr ⟨text, rfl, hprefix⟩, hfile, rfl⟩
  artifacts := mem_listing_iff_contains hreach

/-- **A store is listed exactly, in whatever order its directory tells the entries.** -/
theorem list_exact (hs : s.Sound) {t : Moment}
    (hdir : s.follow store.dir = .ok (.node l (.directory t))) :
    ∃ paths, store.Lists l s paths ∧ s.runFiles store.list = (.ok paths, s) ∧
      ∀ tell : List Name → List Name, (∀ names, (tell names).Perm names) →
        store.list.run (answerIn tell) s = (.ok paths, s) := by
  refine ⟨store.listing l s, lists_listing hs (reaches_of_follow hdir), ?_,
    fun _ htell => run_list hdir htell⟩
  have hid := run_list hdir fun names => List.Perm.refl (id names)
  rw [answerIn_id] at hid
  exact hid

/-! ### Entries of all kinds -/

/-- In `/out` there are a file, a link to it, a link to nothing, a directory, a file with a name that
is no text, and one that is no artifact. -/
def crowdedSystem : FileSystem where
  disk := (((((outDisk.set [Utf8.ofString "template_b", Utf8.ofString "out"]
    (.file [1] ⟨1, 0⟩ fileMode)).set [Utf8.ofString "template_a", Utf8.ofString "out"]
    (.link (.ofString "template_b") ⟨1, 0⟩)).set [Utf8.ofString "template_c", Utf8.ofString "out"]
    (.link (.ofString "nothing") ⟨1, 0⟩)).set [Utf8.ofString "template_d", Utf8.ofString "out"]
    (.directory ⟨1, 0⟩)).set [Utf8.ofString "template_" ++ [255], Utf8.ofString "out"]
    (.file [2] ⟨1, 0⟩ fileMode)).set [Utf8.ofString "notes.txt", Utf8.ofString "out"]
    (.file [3] ⟨1, 0⟩ fileMode)
  workingDir := .inside []
  now := ⟨8, 0⟩
  resources := none
  seed := 0

theorem sound_crowdedSystem : crowdedSystem.Sound :=
  ⟨Disk.isTree_of_hangs (by decide +kernel) (by decide +kernel), ⟨⟨0, 0⟩, by decide +kernel⟩⟩

/-- Of these the file and the link to it are listed, in any order. -/
theorem list_crowded :
    crowdedSystem.Sound ∧
    crowdedSystem.follow outStore.dir = .ok (.node [Utf8.ofString "out"] (.directory ⟨0, 0⟩)) ∧
    ∀ tell : List Name → List Name, (∀ names, (tell names).Perm names) →
      outStore.list.run (answerIn tell) crowdedSystem =
        (.ok [.ofString "/out/template_a", .ofString "/out/template_b"], crowdedSystem) := by
  have hdir : crowdedSystem.follow outStore.dir =
      .ok (.node [Utf8.ofString "out"] (.directory ⟨0, 0⟩)) := by
    decide +kernel
  obtain ⟨paths, -, -, hany⟩ := list_exact sound_crowdedSystem hdir
  have hfound : ((crowdedSystem.disk.names [Utf8.ofString "out"]).filter isArtifactLike).filter
      (fun x => crowdedSystem.hasFile (outStore.dir.join ⟨x⟩)) =
      [Utf8.ofString "template_b", Utf8.ofString "template_a"] := by
    decide +kernel
  have hlisting : outStore.listing [Utf8.ofString "out"] crowdedSystem =
      [.ofString "/out/template_a", .ofString "/out/template_b"] := by
    rw [listing, hfound, mergeSort_eq_of_perm (.swap ..), List.mergeSort_of_pairwise (by decide)]
    decide
  have hid := (run_list hdir fun names => .refl names).symm.trans (hany id fun names => .refl names)
  rw [hlisting] at hid
  cases hid
  exact ⟨sound_crowdedSystem, hdir, hany⟩

end Store

end TemplateCache
