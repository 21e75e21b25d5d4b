import TemplateCache.Config.Read
import TemplateCache.Proofs.Toml.Says

/-!
# What is read from a configuration

Of a document only three sections count, and in them only what is known. The sections are read in the
order of the document and the first that does not fit is reported, but which configurations come out
can be said without an order: the sections *describe* one, its types are right or not, and its
directory for artifacts stays inside the root or not. Main statement: `ofText_exact`.

The sections are taken to be tables where they are there at all. That a table has each key once
matters: only then is the section that is found under a key the one that was read.
-/

namespace TemplateCache

namespace Toml

/-- The entries of a section that is a table, and none of one that is not there. -/
def Document.section? (d : Document) (name : String) : Option Entries :=
  match Entries.get? name d.entries with
  | none => some []
  | some item => item.entries?

theorem Item.of_entries? {item : Item} {entries : Entries} (h : item.entries? = some entries) :
    (∃ span, item = .braced entries span) ∨ ∃ kind span, item = .table kind span entries := by
  cases item with
  | scalar s span => cases h
  | array items span => cases h
  | tables elements => cases h
  | braced entries' span => cases h; exact .inl ⟨span, rfl⟩
  | table kind span entries' => cases h; exact .inr ⟨kind, span, rfl⟩

namespace Entries

/-- What is under a key is a text, if anything is. -/
def Textual (name : String) (entries : Entries) : Prop :=
  ∀ item, get? name entries = some item → ∃ s span, item = .scalar (.string s) span

/-- The path that a text under a key spells. -/
def path? (name : String) (entries : Entries) : Option Path :=
  match get? name entries with
  | some (.scalar (.string s) _) => some (Path.ofString s)
  | _ => none

theorem textual_iff {name : String} {entries : Entries} :
    entries.Textual name ↔ (get? name entries).isNone ∨ (entries.path? name).isSome := by
  unfold Textual path?
  cases get? name entries with
  | none => simp
  | some item =>
      cases item with
      | scalar s span => cases s <;> simp
      | _ => simp

instance (name : String) (entries : Entries) : Decidable (entries.Textual name) :=
  decidable_of_iff _ textual_iff.symm

variable {P : Entries → Prop} {entries : Entries}

/-- The tables inside a section are tables of the document. -/
theorem Throughout.of_section? {d : Document} {name : String} (h : d.entries.Throughout P)
    (hnil : P []) (hsection : d.section? name = some entries) : entries.Throughout P := by
  unfold Document.section? at hsection
  split at hsection
  · cases hsection
    exact ⟨hnil, fun _ hentry => by cases hentry⟩
  · rename_i item hget
    obtain ⟨key, -, hmem⟩ := mem_of_get? hget
    have hitem := h.2 _ hmem
    obtain ⟨span, rfl⟩ | ⟨kind, span, rfl⟩ := Item.of_entries? hsection
    · exact Item.throughout_braced.mp hitem
    · exact Item.throughout_table.mp hitem

theorem unmarked_erase (name : String) (h : entries.Throughout Unmarked) :
    (erase name entries).Throughout Unmarked :=
  ⟨fun entry hentry => h.1 entry (List.mem_filter.mp hentry).1,
    fun entry hentry => h.2 entry (List.mem_filter.mp hentry).1⟩

end Entries

end Toml

open Toml

/-! ## Single entries -/

theorem pathItem_eq_ok_iff {place : Span} {item : Item} {p : Path} :
    pathItem place item = .ok p ↔ ∃ s span, item = .scalar (.string s) span ∧ p = .ofString s := by
  constructor
  · intro h
    unfold pathItem at h
    split at h
    · rename_i s span
      cases h
      exact ⟨s, span, rfl, rfl⟩
    · cases h
  · rintro ⟨s, span, rfl, rfl⟩
    rfl

namespace Config

theorem pathIn_eq_ok_iff {name : String} {entries : Entries} {r : Option Path} :
    pathIn name entries = .ok r ↔ entries.Textual name ∧ r = entries.path? name := by
  unfold Entries.Textual Entries.path?
  induction entries with
  | nil =>
      rw [pathIn, Except.ok.injEq]
      exact ⟨fun h => ⟨fun item hitem => (by cases hitem), h.symm⟩, fun h => h.2.symm⟩
  | cons entry rest ih =>
      obtain ⟨key, item⟩ := entry
      rw [pathIn, Entries.get?]
      by_cases hkey : key.text = name
      · rw [if_pos hkey, if_pos hkey]
        constructor
        · intro h
          cases hitem : pathItem (item.place key) item with
          | error misfit => rw [hitem] at h; cases h
          | ok p =>
              rw [hitem] at h
              cases h
              obtain ⟨s, span, rfl, rfl⟩ := pathItem_eq_ok_iff.mp hitem
              exact ⟨fun item hitem => by cases hitem; exact ⟨s, span, rfl⟩, rfl⟩
        · rintro ⟨htext, rfl⟩
          obtain ⟨s, span, rfl⟩ := htext item rfl
          rfl
      · rw [if_neg hkey, if_neg hkey]
        exact ih

theorem destinationOf_eq (entries : Entries) :
    Options.destinationOf entries = pathIn "path" entries := by
  induction entries with
  | nil => rfl
  | cons entry rest ih =>
      rw [Options.destinationOf, pathIn, ih]

theorem sectionPath_of_entries? {item : Item} {entries : Entries}
    (h : item.entries? = some entries) (expected name : String) (key : Key) :
    sectionPath expected name key item = pathIn name entries := by
  obtain ⟨span, rfl⟩ | ⟨kind, span, rfl⟩ := Item.of_entries? h
  · rfl
  · rfl

theorem rootOf_of_entries? {item : Item} {entries : Entries} (h : item.entries? = some entries)
    (key : Key) : rootOf key item = pathIn "root" entries := by
  have hfull : isEmptyArray item = false := by
    obtain ⟨span, rfl⟩ | ⟨kind, span, rfl⟩ := Item.of_entries? h
    · rfl
    · rfl
  unfold rootOf
  rw [hfull]
  exact sectionPath_of_entries? h _ _ key

theorem ofItem_of_entries? {item : Item} {entries : Entries} (h : item.entries? = some entries)
    (key : Key) : Options.ofItem key item = Options.ofEntries (item.place key) entries := by
  obtain ⟨span, rfl⟩ | ⟨kind, span, rfl⟩ := Item.of_entries? h
  · rfl
  · rfl

/-- Options are the path and what the other entries say. -/
theorem ofEntries_eq_ok_iff {place : Span} {entries : Entries} {o : Options}
    (honce : entries.Regular) (hunmarked : entries.Throughout Entries.Unmarked) :
    Options.ofEntries place entries = .ok o ↔ entries.Textual "path" ∧
      o.destination = entries.path? "path" ∧ (Entries.erase "path" entries).Say o.extra := by
  obtain ⟨pairs, hpairs, hsay⟩ :=
    Entries.entryValues_say (honce.erase "path") (Entries.unmarked_erase "path" hunmarked)
  unfold Entries.erase at hpairs
  unfold Options.ofEntries
  rw [destinationOf_eq, hpairs]
  constructor
  · intro h
    cases hpath : pathIn "path" entries with
    | error misfit => rw [hpath] at h; cases h
    | ok destination =>
        rw [hpath] at h
        cases h
        obtain ⟨htext, rfl⟩ := pathIn_eq_ok_iff.mp hpath
        exact ⟨htext, rfl, hsay⟩
  · rintro ⟨htext, hdestination, hextra⟩
    rw [pathIn_eq_ok_iff.mpr ⟨htext, hdestination⟩]
    have ho : (⟨o.destination, Table.ofList pairs⟩ : Options) = o := by rw [hsay.unique hextra]
    exact congrArg Except.ok ho

/-! ## All entries -/

/-- What a reader makes of the entry under a key, or what is so without one. -/
def under {α : Type} (name : String) (read : Key → Item → Except Misfit α) (usual : α) :
    Entries → Except Misfit α
  | [] => .ok usual
  | (key, item) :: rest => if key.text = name then read key item else under name read usual rest

section

variable {α : Type} {name : String} {read : Key → Item → Except Misfit α} {usual : α}
  {entries : Entries}

theorem under_of_none (h : Entries.get? name entries = .none) :
    under name read usual entries = .ok usual := by
  induction entries with
  | nil => rfl
  | cons entry rest ih =>
      rw [Entries.get?] at h
      split at h
      · cases h
      · rename_i hkey
        rw [under, if_neg hkey]
        exact ih h

theorem under_of_some {item : Item} (h : Entries.get? name entries = some item) :
    ∃ key, under name read usual entries = read key item := by
  induction entries with
  | nil => cases h
  | cons entry rest ih =>
      rw [Entries.get?] at h
      split at h
      · rename_i hkey
        cases h
        exact ⟨_, by rw [under, if_pos hkey]⟩
      · rename_i hkey
        obtain ⟨key, hread⟩ := ih h
        exact ⟨key, by rw [under, if_neg hkey, hread]⟩

/-- A section that is a table is read as such, and one that is not there as one without entries. -/
theorem under_of_section? {d : Document} (h : d.section? name = some entries) :
    (entries = [] ∧ under name read usual d.entries = .ok usual) ∨
      ∃ key item, item.entries? = some entries ∧
        under name read usual d.entries = read key item := by
  unfold Document.section? at h
  split at h
  · rename_i hnone
    exact .inl ⟨(Option.some.inj h).symm, under_of_none hnone⟩
  · rename_i item hget
    obtain ⟨key, hread⟩ := under_of_some hget
    exact .inr ⟨key, item, h, hread⟩

end

/-- A configuration is read section by section, for none of them is there twice. -/
theorem withEntries_eq_ok_iff {entries : Entries} (honce : entries.KeysOnce) {c c' : Config} :
    withEntries entries c = .ok c' ↔
      under "resources" rootOf c.root entries = .ok c'.root ∧
      under "cache" subdirOf c.subdir entries = .ok c'.subdir ∧
      under "options" Options.ofItem c.options entries = .ok c'.options := by
  induction entries generalizing c with
  | nil =>
      obtain ⟨root, subdir, options⟩ := c
      obtain ⟨root', subdir', options'⟩ := c'
      simp [withEntries, under]
  | cons entry rest ih =>
      obtain ⟨key, item⟩ := entry
      obtain ⟨hfirst, hrest⟩ := List.nodup_cons.mp honce
      have habsent : Entries.get? key.text rest = .none := Entries.get?_eq_none_iff.mpr hfirst
      have hstep : ∀ {α : Type} (read : Except Misfit α) (f : α → Config),
          (read.map f).bind (withEntries rest) = .ok c' ↔
            ∃ a, read = .ok a ∧ withEntries rest (f a) = .ok c' := by
        intro α read f
        cases read with
        | error misfit => exact ⟨fun h => (by cases h), fun ⟨a, h, _⟩ => (by cases h)⟩
        | ok a => exact ⟨fun h => ⟨a, rfl, h⟩, fun ⟨a', ha, h⟩ => (by cases ha; exact h)⟩
      rw [withEntries, withEntry, under, under, under]
      by_cases hresources : key.text = "resources"
      · rw [hresources] at habsent ⊢
        simp [hstep, ih hrest, under_of_none habsent]
      · by_cases hcache : key.text = "cache"
        · rw [hcache] at habsent ⊢
          simp [hstep, ih hrest, under_of_none habsent, and_left_comm]
        · by_cases hoptions : key.text = "options"
          · rw [hoptions] at habsent ⊢
            simp [hstep, ih hrest, under_of_none habsent, and_comm, and_left_comm, and_assoc]
          · simp only [if_neg hresources, if_neg hcache, if_neg hoptions]
            exact ih hrest

/-! ## Sections -/

/-- The entries of the sections that count. -/
structure Sections where
  resources : Entries
  cache : Entries
  options : Entries

namespace Sections

/-- These are the sections of a document, each of which is a table or not there. -/
structure IsOf (s : Sections) (d : Document) : Prop where
  resources : d.section? "resources" = some s.resources
  cache : d.section? "cache" = some s.cache
  options : d.section? "options" = some s.options

/-- What is known in the sections has the right type. -/
structure Typed (s : Sections) : Prop where
  root : s.resources.Textual "root"
  subdir : s.cache.Textual "subdir"
  path : s.options.Textual "path"

/-- The directory of the artifacts, the usual one if none is named. -/
def subdir (s : Sections) : Path := (s.cache.path? "subdir").getD defaultSubdir

/-- A configuration is what the sections say. -/
structure Describe (s : Sections) (c : Config) : Prop where
  root : c.root = s.resources.path? "root"
  subdir : c.subdir = s.subdir
  destination : c.options.destination = s.options.path? "path"
  extra : (Entries.erase "path" s.options).Say c.options.extra

theorem Describe.unique {s : Sections} {c c' : Config} (h : s.Describe c) (h' : s.Describe c') :
    c = c' := by
  obtain ⟨root, subdir, ⟨destination, extra⟩⟩ := c
  obtain ⟨root', subdir', ⟨destination', extra'⟩⟩ := c'
  have hroot : root = root' := h.root.trans h'.root.symm
  have hsubdir : subdir = subdir' := h.subdir.trans h'.subdir.symm
  have hdestination : destination = destination' := h.destination.trans h'.destination.symm
  have hextra : extra = extra' := h.extra.unique h'.extra
  subst hroot hsubdir hdestination hextra
  rfl

end Sections

section

variable {text : List Char} {d : Document} {s : Sections}

theorem root_eq_ok_iff (hs : s.IsOf d) {r : Option Path} :
    under "resources" rootOf .none d.entries = .ok r ↔
      s.resources.Textual "root" ∧ r = s.resources.path? "root" := by
  rw [← pathIn_eq_ok_iff]
  obtain ⟨hnil, hread⟩ | ⟨key, item, hitem, hread⟩ := under_of_section? hs.resources
  · rw [hread, hnil]
    rfl
  · rw [hread, rootOf_of_entries? hitem]

theorem subdir_eq_ok_iff (hs : s.IsOf d) {r : Path} :
    under "cache" subdirOf defaultSubdir d.entries = .ok r ↔
      s.cache.Textual "subdir" ∧ r = s.subdir := by
  have hmap : (pathIn "subdir" s.cache).map (fun path => path.getD defaultSubdir) = .ok r ↔
      s.cache.Textual "subdir" ∧ r = s.subdir := by
    have hpath : ∀ path, pathIn "subdir" s.cache = .ok path ↔
        s.cache.Textual "subdir" ∧ path = s.cache.path? "subdir" := fun _ => pathIn_eq_ok_iff
    unfold Sections.subdir
    cases hread : pathIn "subdir" s.cache with
    | error misfit =>
        refine ⟨fun h => (by cases h), fun h => ?_⟩
        rw [(hpath _).mpr ⟨h.1, rfl⟩] at hread
        cases hread
    | ok path =>
        obtain ⟨htext, rfl⟩ := (hpath _).mp hread
        exact ⟨fun h => ⟨htext, by cases h; rfl⟩, fun h => by rw [h.2]; rfl⟩
  rw [← hmap]
  obtain ⟨hnil, hread⟩ | ⟨key, item, hitem, hread⟩ := under_of_section? hs.cache
  · rw [hread, hnil]
    rfl
  · rw [hread, subdirOf, sectionPath_of_entries? hitem]

/-- The options section is as regular as the document. -/
theorem regular_options (hs : s.IsOf d) (honce : d.entries.Regular)
    (hunmarked : d.entries.Throughout Entries.Unmarked) :
    s.options.Regular ∧ s.options.Throughout Entries.Unmarked :=
  ⟨honce.of_section? List.nodup_nil hs.options,
    hunmarked.of_section? (fun _ hentry => by cases hentry) hs.options⟩

theorem options_eq_ok_iff (hs : s.IsOf d) (honce : d.entries.Regular)
    (hunmarked : d.entries.Throughout Entries.Unmarked) {o : Options} :
    under "options" Options.ofItem .none d.entries = .ok o ↔
      s.options.Textual "path" ∧ o.destination = s.options.path? "path" ∧
        (Entries.erase "path" s.options).Say o.extra := by
  obtain ⟨hregular, hclean⟩ := regular_options hs honce hunmarked
  have hread : ∃ place, under "options" Options.ofItem .none d.entries =
      Options.ofEntries place s.options := by
    obtain ⟨hnil, hread⟩ | ⟨key, item, hitem, hread⟩ := under_of_section? hs.options
    · exact ⟨⟨0, 0⟩, by rw [hread, hnil]; rfl⟩
    · exact ⟨_, by rw [hread, ofItem_of_entries? hitem]⟩
  obtain ⟨place, hread⟩ := hread
  rw [hread]
  exact ofEntries_eq_ok_iff hregular hclean

/-- A document is a configuration if the types are right, and then that which its sections say. -/
theorem ofDocument_eq_ok_iff (hs : s.IsOf d) (honce : d.entries.Regular)
    (hunmarked : d.entries.Throughout Entries.Unmarked) {c : Config} :
    ofDocument d = .ok c ↔ s.Typed ∧ s.Describe c := by
  unfold ofDocument
  rw [withEntries_eq_ok_iff honce.1]
  rw [show Config.none.root = Option.none from rfl, root_eq_ok_iff hs,
    show Config.none.subdir = defaultSubdir from rfl, subdir_eq_ok_iff hs,
    show Config.none.options = Options.none from rfl, options_eq_ok_iff hs honce hunmarked]
  constructor
  · rintro ⟨⟨hroot, hroot'⟩, ⟨hsubdir, hsubdir'⟩, hpath, hdestination, hextra⟩
    exact ⟨⟨hroot, hsubdir, hpath⟩, ⟨hroot', hsubdir', hdestination, hextra⟩⟩
  · rintro ⟨htyped, hc⟩
    exact ⟨⟨htyped.root, hc.root⟩, ⟨htyped.subdir, hc.subdir⟩, htyped.path, hc.destination, hc.extra⟩

/-- The sections say some configuration, whatever the types. -/
theorem exists_describe (hs : s.IsOf d) (honce : d.entries.Regular)
    (hunmarked : d.entries.Throughout Entries.Unmarked) : ∃ c, s.Describe c := by
  obtain ⟨hregular, hclean⟩ := regular_options hs honce hunmarked
  obtain ⟨pairs, -, hsay⟩ :=
    Entries.entryValues_say (hregular.erase "path") (Entries.unmarked_erase "path" hclean)
  exact ⟨⟨s.resources.path? "root", s.subdir, ⟨s.options.path? "path", Table.ofList pairs⟩⟩,
    rfl, rfl, rfl, hsay⟩

/-! ## Texts -/

/-- A path that names a directory and stays inside the one it is taken from. -/
structure Inside (p : Path) : Prop where
  nonempty : p.isEmpty = false
  relative : p.isAbsolute = false
  below : .up ∉ p.components

theorem check_eq_ok_iff {c c' : Config} : c.check = .ok c' ↔ c = c' ∧ Inside c.subdir := by
  unfold check
  constructor
  · intro h
    split at h
    · cases h
    · rename_i hempty
      split at h
      · cases h
      · rename_i habs
        split at h
        · cases h
        · rename_i hup
          cases h
          exact ⟨rfl, eq_false_of_ne_true hempty, eq_false_of_ne_true habs, by simpa using hup⟩
  · rintro ⟨rfl, hempty, habs, hup⟩
    rw [if_neg (by simp [hempty]), if_neg (by simp [habs]), if_neg (by simpa using hup)]

theorem check_of_isEmpty {c : Config} (h : c.subdir.isEmpty = true) :
    c.check = .error (.missingField "cache.subdir") := by
  unfold check
  exact if_pos h

/-- What is neither empty nor inside is rejected for its shape. -/
theorem check_of_outside {c : Config} (hfull : c.subdir.isEmpty = false)
    (hnot : ¬Inside c.subdir) : ∃ what, c.check = .error (.invalid what) := by
  unfold check
  rw [if_neg (by simp [hfull])]
  split
  · exact ⟨_, rfl⟩
  · rename_i habs
    split
    · exact ⟨_, rfl⟩
    · rename_i hup
      exact absurd ⟨hfull, eq_false_of_ne_true habs, by simpa using hup⟩ hnot

theorem ofText_eq_ok_iff (hd : Document.ofText? text = some d) {c : Config} :
    ofText text = .ok c ↔ ofDocument d = .ok c ∧ Inside c.subdir := by
  unfold ofText readDocument
  rw [hd]
  dsimp only
  cases ofDocument d with
  | error misfit =>
      dsimp only
      refine ⟨fun h => ?_, fun h => (by cases h.1)⟩
      split at h
      · rename_i c' hread
        split at hread
        · cases hread
        · cases hread
      · cases h
  | ok c' =>
      dsimp only
      rw [check_eq_ok_iff]
      constructor
      · rintro ⟨rfl, hinside⟩
        exact ⟨rfl, hinside⟩
      · rintro ⟨h, hinside⟩
        cases h
        exact ⟨rfl, hinside⟩

/-- Where the types are right, the described configuration is checked, and nothing else counts. -/
theorem ofText_of_describe (hd : Document.ofText? text = some d) {c : Config}
    (hc : ofDocument d = .ok c) : ofText text = c.check := by
  unfold ofText readDocument
  rw [hd]
  dsimp only
  rw [hc]

/-- The result of reading a text is decided by its sections. -/
structure DecidedBy (text : List Char) (s : Sections) : Prop where
  accepted : (∃ c, ofText text = .ok c) ↔ s.Typed ∧ Inside s.subdir
  result : ∀ c, ofText text = .ok c ↔ s.Typed ∧ Inside s.subdir ∧ s.Describe c
  empty : s.Typed → s.subdir.isEmpty = true → ofText text = .error (.missingField "cache.subdir")
  outside : s.Typed → s.subdir.isEmpty = false → ¬Inside s.subdir →
    ∃ what, ofText text = .error (.invalid what)
  /-- No other key plays a part. -/
  alone : s.Typed → ∀ c, s.Describe c → ofText text = c.check

/-- **A text is accepted just if its sections are right, and then it is what they describe.** -/
theorem ofText_exact (hd : Document.ofText? text = some d)
    (hunmarked : d.entries.Throughout Entries.Unmarked) (hs : s.IsOf d) : DecidedBy text s := by
  have honce := Document.regular_of_ofText? hd
  have hdocument := fun c => ofDocument_eq_ok_iff (c := c) hs honce hunmarked
  have hresult : ∀ c, ofText text = .ok c ↔ s.Typed ∧ Inside s.subdir ∧ s.Describe c := by
    intro c
    rw [ofText_eq_ok_iff hd, hdocument]
    constructor
    · rintro ⟨⟨htyped, hc⟩, hinside⟩
      exact ⟨htyped, hc.subdir ▸ hinside, hc⟩
    · rintro ⟨htyped, hinside, hc⟩
      exact ⟨⟨htyped, hc⟩, hc.subdir ▸ hinside⟩
  have halone : s.Typed → ∀ c, s.Describe c → ofText text = c.check := fun htyped c hc =>
    ofText_of_describe hd ((hdocument c).mpr ⟨htyped, hc⟩)
  obtain ⟨c, hc⟩ := exists_describe hs honce hunmarked
  refine ⟨⟨?_, fun h => ⟨c, (hresult c).mpr ⟨h.1, h.2, hc⟩⟩⟩, hresult, ?_, ?_, halone⟩
  · rintro ⟨c', hc'⟩
    obtain ⟨htyped, hinside, -⟩ := (hresult c').mp hc'
    exact ⟨htyped, hinside⟩
  · intro htyped hempty
    rw [halone htyped c hc]
    exact check_of_isEmpty (hc.subdir ▸ hempty)
  · intro htyped hfull hnot
    rw [halone htyped c hc]
    exact check_of_outside (hc.subdir ▸ hfull) (hc.subdir ▸ hnot)

end

/-! ### A text with much that is unknown -/

/-- A text with all three sections, and with keys that nobody asks for. -/
def crowdedText : List Char :=
  ("title = 1\n[resources]\nroot = \"/r\"\n[cache]\nsubdir = \"b/.\"\nage = 7\n" ++
    "[options]\npath = \"o\"\nx = \x7by = \x7bz = true\x7d\x7d\n").toList

def crowdedSections : Sections where
  resources := [(⟨"root", ⟨85, 81⟩⟩, .scalar (.string "/r") ⟨78, 74⟩)]
  cache := [(⟨"subdir", ⟨65, 59⟩⟩, .scalar (.string "b/.") ⟨56, 51⟩),
    (⟨"age", ⟨50, 47⟩⟩, .scalar (.integer 7) ⟨44, 43⟩)]
  options := [(⟨"path", ⟨32, 28⟩⟩, .scalar (.string "o") ⟨25, 22⟩),
    (⟨"x", ⟨21, 20⟩⟩, .braced [(⟨"y", ⟨16, 15⟩⟩, .braced
      [(⟨"z", ⟨11, 10⟩⟩, .scalar (.boolean true) ⟨7, 3⟩)] ⟨12, 2⟩)] ⟨17, 1⟩)]

def crowdedDocument : Document where
  text := crowdedText
  entries := [(⟨"title", ⟨107, 102⟩⟩, .scalar (.integer 1) ⟨99, 98⟩),
    (⟨"resources", ⟨96, 87⟩⟩, .table .stated (some ⟨97, 74⟩) crowdedSections.resources),
    (⟨"cache", ⟨72, 67⟩⟩, .table .stated (some ⟨73, 43⟩) crowdedSections.cache),
    (⟨"options", ⟨41, 34⟩⟩, .table .stated (some ⟨42, 1⟩) crowdedSections.options)]
  span := ⟨107, 98⟩

/-- What is known is taken over, the nested extra value with it. -/
theorem ofText_crowded :
    Document.ofText? crowdedText = some crowdedDocument ∧
    crowdedDocument.entries.Throughout Entries.Unmarked ∧
    crowdedSections.IsOf crowdedDocument ∧
    ∃ c, ofText crowdedText = .ok c ∧ c.root = some (.ofString "/r") ∧
      c.subdir = .ofString "b/." ∧ c.options.destination = some (.ofString "o") ∧
      Value.entriesEqual c.options.extra [("x", .table [("y", .table
        [("z", .scalar (.boolean true))])])] = true := by
  have hd : Document.ofText? crowdedText = some crowdedDocument := by rfl
  have hunmarked : crowdedDocument.entries.Throughout Entries.Unmarked := by decide
  have hs : crowdedSections.IsOf crowdedDocument := ⟨rfl, rfl, rfl⟩
  have hdecided := ofText_exact hd hunmarked hs
  have htyped : crowdedSections.Typed := ⟨by decide, by decide, by decide⟩
  have hinside : Inside crowdedSections.subdir := ⟨by decide, by decide, by decide⟩
  obtain ⟨c, hc⟩ := hdecided.accepted.mpr ⟨htyped, hinside⟩
  obtain ⟨-, -, hdescribe⟩ := (hdecided.result c).mp hc
  have hextra : (ofText crowdedText).toOption.map (fun c => Value.entriesEqual c.options.extra
      [("x", .table [("y", .table [("z", .scalar (.boolean true))])])]) = some true := by
    decide +kernel
  rw [hc] at hextra
  exact ⟨hd, hunmarked, hs, c, hc, hdescribe.root.trans rfl, hdescribe.subdir.trans rfl,
    hdescribe.destination.trans rfl, Option.some.inj hextra⟩

end Config

end TemplateCache
