import Mathlib.Data.List.Nodup
import TemplateCache.Toml.Read.Document

/-!
# Each key once

That a table has each key once is not in the type of its entries. It is so because the reader
refuses a text that says a key twice, by whichever of the ways in which tables come about: by a
header, on the way to one, by a dotted key, and between braces. All of them go through
`Entries.reach`, so one lemma about it carries the invariant through every statement of a text.
Main statement: `Document.regular_of_ofText?`.
-/

namespace TemplateCache.Toml

/-! ## All tables inside an item -/

mutual

/-- Every table in an item is of some kind, and so is the item if it is one. -/
def Item.Throughout (P : Entries → Prop) : Item → Prop
  | .scalar _ _ => True
  | .array items _ => itemsThroughout P items
  | .tables elements => itemsThroughout P elements
  | .braced entries _ => P entries ∧ entriesThroughout P entries
  | .table _ _ entries => P entries ∧ entriesThroughout P entries

def itemsThroughout (P : Entries → Prop) : List Item → Prop
  | [] => True
  | item :: rest => item.Throughout P ∧ itemsThroughout P rest

def entriesThroughout (P : Entries → Prop) : List (Key × Item) → Prop
  | [] => True
  | (_, item) :: rest => item.Throughout P ∧ entriesThroughout P rest

end

/-- Some entries are of some kind, and so is every table below them. -/
def Entries.Throughout (P : Entries → Prop) (entries : Entries) : Prop :=
  P entries ∧ ∀ entry ∈ entries, entry.2.Throughout P

section

variable {P : Entries → Prop}

theorem itemsThroughout_iff {items : List Item} :
    itemsThroughout P items ↔ ∀ item ∈ items, item.Throughout P := by
  induction items with
  | nil => simp [itemsThroughout]
  | cons item rest ih => simp [itemsThroughout, ih]

theorem entriesThroughout_iff {entries : Entries} :
    entriesThroughout P entries ↔ ∀ entry ∈ entries, entry.2.Throughout P := by
  induction entries with
  | nil => simp [entriesThroughout]
  | cons entry rest ih => simp [entriesThroughout, ih]

mutual

/-- It can be checked table by table. -/
def Item.decThroughout (P : Entries → Prop) [DecidablePred P] :
    (item : Item) → Decidable (item.Throughout P)
  | .scalar _ _ => .isTrue trivial
  | .array items _ => decItemsThroughout P items
  | .tables elements => decItemsThroughout P elements
  | .braced entries _ =>
      @instDecidableAnd _ _ (inferInstanceAs (Decidable (P entries))) (decEntriesThroughout P entries)
  | .table _ _ entries =>
      @instDecidableAnd _ _ (inferInstanceAs (Decidable (P entries))) (decEntriesThroughout P entries)

def decItemsThroughout (P : Entries → Prop) [DecidablePred P] :
    (items : List Item) → Decidable (itemsThroughout P items)
  | [] => .isTrue trivial
  | item :: rest => @instDecidableAnd _ _ (item.decThroughout P) (decItemsThroughout P rest)

def decEntriesThroughout (P : Entries → Prop) [DecidablePred P] :
    (entries : List (Key × Item)) → Decidable (entriesThroughout P entries)
  | [] => .isTrue trivial
  | (_, item) :: rest => @instDecidableAnd _ _ (item.decThroughout P) (decEntriesThroughout P rest)

end

instance [DecidablePred P] (entries : Entries) : Decidable (entries.Throughout P) :=
  have : Decidable (entriesThroughout P entries) := decEntriesThroughout P entries
  decidable_of_iff (P entries ∧ entriesThroughout P entries) (and_congr_right' entriesThroughout_iff)

@[simp] theorem Item.throughout_scalar (s : Scalar) (span : Span) :
    (Item.scalar s span).Throughout P := by
  rw [Throughout]
  trivial

@[simp] theorem Item.throughout_array {items : List Item} {span : Span} :
    (Item.array items span).Throughout P ↔ ∀ item ∈ items, item.Throughout P := by
  rw [Throughout, itemsThroughout_iff]

@[simp] theorem Item.throughout_tables {elements : List Item} :
    (Item.tables elements).Throughout P ↔ ∀ item ∈ elements, item.Throughout P := by
  rw [Throughout, itemsThroughout_iff]

@[simp] theorem Item.throughout_braced {entries : Entries} {span : Span} :
    (Item.braced entries span).Throughout P ↔ entries.Throughout P := by
  rw [Throughout, entriesThroughout_iff]
  rfl

@[simp] theorem Item.throughout_table {kind : TableKind} {span : Option Span}
    {entries : Entries} : (Item.table kind span entries).Throughout P ↔ entries.Throughout P := by
  rw [Throughout, entriesThroughout_iff]
  rfl

end

namespace Entries

/-! ## Keys of a table -/

/-- No key stands twice. -/
def KeysOnce (entries : Entries) : Prop := (entries.map fun entry => entry.1.text).Nodup

/-- No key stands twice, here or in a table below. -/
abbrev Regular (entries : Entries) : Prop := entries.Throughout KeysOnce

variable {entries : Entries} {name : String} {key : Key} {item : Item}

theorem get?_eq_none_iff :
    get? name entries = none ↔ name ∉ entries.map fun entry => entry.1.text := by
  induction entries with
  | nil => simp [get?]
  | cons entry rest ih =>
      rw [get?]
      split
      · rename_i hname
        simp [hname]
      · rename_i hname
        simp [ih, Ne.symm hname]

theorem mem_of_get? (h : get? name entries = some item) :
    ∃ key, key.text = name ∧ (key, item) ∈ entries := by
  induction entries with
  | nil => cases h
  | cons entry rest ih =>
      rw [get?] at h
      split at h
      · rename_i hname
        cases h
        exact ⟨_, hname, List.mem_cons_self⟩
      · obtain ⟨key, hname, hmem⟩ := ih h
        exact ⟨key, hname, List.mem_cons_of_mem _ hmem⟩

theorem map_text_set : (set name item entries).map (fun entry => entry.1.text) =
    entries.map fun entry => entry.1.text := by
  induction entries with
  | nil => rfl
  | cons entry rest ih =>
      rw [set]
      split
      · rfl
      · rw [List.map_cons, List.map_cons, ih]

theorem mem_set {entry : Key × Item} (h : entry ∈ set name item entries) :
    entry.2 = item ∨ entry ∈ entries := by
  induction entries with
  | nil => cases h
  | cons old rest ih =>
      rw [set] at h
      split at h
      · rcases List.mem_cons.mp h with rfl | h
        · exact .inl rfl
        · exact .inr (List.mem_cons_of_mem _ h)
      · rcases List.mem_cons.mp h with rfl | h
        · exact .inr List.mem_cons_self
        · exact (ih h).imp_right (List.mem_cons_of_mem _)

namespace Regular

theorem nil : Regular [] := ⟨List.nodup_nil, fun _ h => by cases h⟩

theorem of_get? (h : entries.Regular) (hget : get? name entries = some item) :
    item.Throughout KeysOnce := by
  obtain ⟨key, -, hmem⟩ := mem_of_get? hget
  exact h.2 _ hmem

theorem append (h : entries.Regular) (hnone : get? key.text entries = none)
    (hitem : item.Throughout KeysOnce) : Regular (entries ++ [(key, item)]) := by
  refine ⟨?_, List.forall_mem_append.mpr ⟨h.2, List.forall_mem_singleton.mpr hitem⟩⟩
  · unfold KeysOnce
    rw [List.map_append]
    refine List.nodup_append.mpr ⟨h.1, List.nodup_singleton _, fun a ha b hb => ?_⟩
    rw [List.map_singleton, List.mem_singleton] at hb
    rintro rfl
    exact get?_eq_none_iff.mp hnone (hb ▸ ha)

theorem set (h : entries.Regular) (hitem : item.Throughout KeysOnce) :
    Regular (set name item entries) := by
  refine ⟨?_, fun entry hentry => ?_⟩
  · unfold KeysOnce
    rw [map_text_set]
    exact h.1
  · rcases mem_set hentry with heq | hentry
    · rw [heq]
      exact hitem
    · exact h.2 _ hentry

theorem erase (name : String) (h : entries.Regular) : Regular (erase name entries) :=
  ⟨h.1.sublist (List.filter_sublist.map _), fun _ hentry => h.2 _ (List.mem_filter.mp hentry).1⟩

end Regular

/-! ## Edits -/

/-- An edit of a regular table leaves it regular, and what it takes out is so, too. -/
def Keeps {α : Type} (R : α → Prop) (edit : Bool → Entries → Option (α × Entries)) : Prop :=
  ∀ here entries r, edit here entries = some r → entries.Regular → R r.1 ∧ r.2.Regular

/-- So does the edit of a table that a path leads to. The induction is on the path. -/
theorem Keeps.reach {α : Type} {R : α → Prop} {dotted : Bool}
    {edit : Bool → Entries → Option (α × Entries)} (hedit : Keeps R edit) (path : List Key) :
    Keeps R fun here entries => Entries.reach dotted edit here path entries := by
  induction path with
  | nil =>
      intro here entries r h
      dsimp only at h
      rw [Entries.reach.eq_def] at h
      exact hedit here entries r h
  | cons key path ih =>
      intro here entries r h hregular
      dsimp only at h
      rw [Entries.reach.eq_def] at h
      dsimp only at h
      split at h
      -- nothing is under the key, and a table for it is made behind the others
      · rename_i hnone
        obtain ⟨r', hr', rfl⟩ := Option.map_eq_some_iff.mp h
        obtain ⟨hR, hinner⟩ := ih _ _ _ hr' .nil
        exact ⟨hR, hregular.append hnone (Item.throughout_table.mpr hinner)⟩
      · rename_i kind span inner hget
        split at h
        · cases h
        · obtain ⟨r', hr', rfl⟩ := Option.map_eq_some_iff.mp h
          obtain ⟨hR, hinner⟩ :=
            ih _ _ _ hr' (Item.throughout_table.mp (hregular.of_get? hget))
          exact ⟨hR, hregular.set (Item.throughout_table.mpr hinner)⟩
      -- of several tables the last is edited
      · rename_i elements hget
        have helements := Item.throughout_tables.mp (hregular.of_get? hget)
        split at h
        · rename_i kind span inner hlast
          have hmem := List.mem_of_getLast? hlast
          obtain ⟨r', hr', rfl⟩ := Option.map_eq_some_iff.mp h
          obtain ⟨hR, hinner⟩ := ih _ _ _ hr' (Item.throughout_table.mp (helements _ hmem))
          refine ⟨hR, hregular.set (Item.throughout_tables.mpr (List.forall_mem_append.mpr
            ⟨fun item hitem => helements item (List.dropLast_subset _ hitem), ?_⟩))⟩
          exact List.forall_mem_singleton.mpr (Item.throughout_table.mpr hinner)
        · cases h
      · cases h

theorem Regular.add {path : List Key} {entries' : Entries} (h : entries.Regular)
    (hitem : item.Throughout KeysOnce) (hadd : entries.add path key item = some entries') :
    entries'.Regular := by
  unfold Entries.add at hadd
  obtain ⟨r, hr, rfl⟩ := Option.map_eq_some_iff.mp hadd
  have hedit : Keeps (fun _ : Unit => True) fun (isDotted : Bool) (table : Entries) =>
      if isDotted == path.isEmpty ∨ (get? key.text table).isSome then none
      else some ((), table ++ [(key, item)]) := by
    intro here table r hr hregular
    dsimp only at hr
    split at hr
    · cases hr
    · rename_i hfree
      cases hr
      refine ⟨trivial, hregular.append ?_ hitem⟩
      rw [not_or] at hfree
      exact Option.not_isSome_iff_eq_none.mp hfree.2
  exact (hedit.reach path _ _ _ hr h).2

end Entries

/-! ## Statements -/

namespace Draft

open Entries

/-- What a draft holds has each key once. -/
structure Regular (d : Draft) : Prop where
  before : d.before.Regular
  current : d.current.Regular

variable {d d' : Draft}

theorem regular_start (length : Nat) : (start length).Regular := ⟨.nil, .nil⟩

theorem keeps_settle (oneOfMany : Bool) (key : Key) {table : Item}
    (htable : table.Throughout KeysOnce) :
    Keeps (fun _ : Unit => True) fun _ entries => settle oneOfMany key table entries := by
  intro here entries r h hregular
  dsimp only at h
  unfold settle at h
  split at h
  · rename_i hnone
    cases h
    refine ⟨trivial, hregular.append hnone ?_⟩
    cases oneOfMany with
    | false => exact htable
    | true => exact Item.throughout_tables.mpr (List.forall_mem_singleton.mpr htable)
  · rename_i elements hget
    split at h
    · cases h
      have helements := Item.throughout_tables.mp (hregular.of_get? hget)
      exact ⟨trivial, hregular.set (Item.throughout_tables.mpr (List.forall_mem_append.mpr
        ⟨helements, List.forall_mem_singleton.mpr htable⟩))⟩
    · cases h
  · cases h

/-- What a header takes out is regular as well. -/
theorem keeps_claims (oneOfMany : Bool) (key : Key) :
    Keeps Entries.Regular fun _ entries =>
      if oneOfMany then claimMany key entries else claim key entries := by
  intro here entries r h hregular
  dsimp only at h
  split at h
  · unfold claimMany at h
    split at h
    · rename_i hnone
      cases h
      exact ⟨.nil, hregular.append hnone (Item.throughout_tables.mpr fun _ h => by cases h)⟩
    · cases h
      exact ⟨.nil, hregular⟩
    · cases h
  · unfold claim at h
    split at h
    · cases h
      exact ⟨.nil, hregular⟩
    · rename_i span inner hget
      cases h
      exact ⟨Item.throughout_table.mp (hregular.of_get? hget), hregular.erase _⟩
    · cases h

theorem Regular.close (h : d.Regular) (hclose : d.close = some d') : d'.Regular := by
  unfold Draft.close at hclose
  split at hclose
  · cases hclose
    exact ⟨h.current, .nil⟩
  · rename_i path key hplace
    obtain ⟨r, hr, rfl⟩ := Option.map_eq_some_iff.mp hclose
    have htable : (Item.table .stated (some d.span) d.current).Throughout KeysOnce :=
      Item.throughout_table.mpr h.current
    exact ⟨((keeps_settle d.oneOfMany key htable).reach path _ _ _ hr h.before).2, .nil⟩

theorem Regular.header (h : d.Regular) {oneOfMany : Bool} {path : List Key} {key : Key}
    {span : Span} (hheader : d.header oneOfMany path key span = some d') : d'.Regular := by
  unfold Draft.header at hheader
  obtain ⟨closed, hclosed, hheader⟩ := Option.bind_eq_some_iff.mp hheader
  obtain ⟨r, hr, hheader⟩ := Option.bind_eq_some_iff.mp hheader
  cases hheader
  obtain ⟨hinner, hbefore⟩ := (keeps_claims oneOfMany key).reach _ _ _ _ hr (h.close hclosed).before
  exact ⟨hbefore, hinner⟩

theorem Regular.pair (h : d.Regular) {path : List Key} {key : Key} {item : Item} {stop : Nat}
    (hitem : item.Throughout KeysOnce) (hpair : d.pair path key item stop = some d') :
    d'.Regular := by
  unfold Draft.pair at hpair
  obtain ⟨current, hcurrent, hpair⟩ := Option.bind_eq_some_iff.mp hpair
  cases hpair
  exact ⟨h.before, h.current.add hitem hcurrent⟩

end Draft

/-! ## Texts -/

namespace Read

open Entries

/-- A reader of items from which only regular ones come. -/
def ReadsRegular (item : List Char → Option (Item × List Char)) : Prop :=
  ∀ text r, item text = some r → r.1.Throughout KeysOnce

variable {item : List Char → Option (Item × List Char)}

theorem regular_of_arrayItems? (h : ReadsRegular item) {fuel : Nat} {text : List Char}
    {r : List Item × List Char} (hr : arrayItems? item fuel text = some r) :
    ∀ x ∈ r.1, x.Throughout KeysOnce := by
  induction fuel generalizing text r with
  | zero => cases hr
  | succ fuel ih =>
      rw [arrayItems?] at hr
      split at hr
      · cases hr
        exact fun x hx => by cases hx
      · obtain ⟨⟨first, rest⟩, hfirst, hr⟩ := Option.bind_eq_some_iff.mp hr
        dsimp only at hr
        have hone := h _ _ hfirst
        split at hr
        · cases hr
          exact List.forall_mem_singleton.mpr hone
        · obtain ⟨⟨items, rest'⟩, hitems, hr⟩ := Option.bind_eq_some_iff.mp hr
          cases hr
          exact List.forall_mem_cons.mpr ⟨hone, ih hitems⟩
        · cases hr

theorem regular_of_pair? (h : ReadsRegular item) {text : List Char}
    {r : List Key × Key × Item × List Char} (hr : pair? item text = some r) :
    r.2.2.1.Throughout KeysOnce := by
  unfold pair? at hr
  obtain ⟨⟨path, key, rest⟩, -, hr⟩ := Option.bind_eq_some_iff.mp hr
  dsimp only at hr
  split at hr
  · obtain ⟨⟨value, rest'⟩, hvalue, hr⟩ := Option.bind_eq_some_iff.mp hr
    cases hr
    exact h _ _ hvalue
  · cases hr

theorem regular_of_bracedEntries? (h : ReadsRegular item) {fuel : Nat} {entries : Entries}
    {text : List Char} {r : Entries × List Char} (hentries : entries.Regular)
    (hr : bracedEntries? item fuel entries text = some r) : r.1.Regular := by
  induction fuel generalizing entries text r with
  | zero => cases hr
  | succ fuel ih =>
      rw [bracedEntries?] at hr
      obtain ⟨⟨path, key, value, rest⟩, hpair, hr⟩ := Option.bind_eq_some_iff.mp hr
      obtain ⟨more, hadd, hr⟩ := Option.bind_eq_some_iff.mp hr
      have hmore := hentries.add (regular_of_pair? h hpair) hadd
      split at hr
      · cases hr
        exact hmore
      · exact ih hmore hr
      · cases hr

theorem regular_of_braced? (h : ReadsRegular item) {text : List Char} {r : Entries × List Char}
    (hr : braced? item text = some r) : r.1.Regular := by
  unfold braced? at hr
  split at hr
  · cases hr
    exact .nil
  · exact regular_of_bracedEntries? h .nil hr

/-- The induction is on the number of brackets and braces that may be opened. -/
theorem readsRegular_item? (depth : Nat) : ReadsRegular (item? depth) := by
  have hscalar : ∀ {text : List Char} {r : Item × List Char},
      (scalar? text).map (fun r => (Item.scalar r.1 ⟨text.length, r.2.length⟩, r.2)) = some r →
      r.1.Throughout KeysOnce := by
    intro text r hr
    obtain ⟨s, -, rfl⟩ := Option.map_eq_some_iff.mp hr
    exact Item.throughout_scalar _ _
  induction depth with
  | zero =>
      intro text r hr
      rw [item?.eq_def] at hr
      dsimp only at hr
      split at hr
      · cases hr
      · cases hr
      · exact hscalar hr
  | succ depth ih =>
      intro text r hr
      rw [item?.eq_def] at hr
      dsimp only at hr
      split at hr
      · obtain ⟨read, hread, rfl⟩ := Option.map_eq_some_iff.mp hr
        exact Item.throughout_array.mpr (regular_of_arrayItems? ih hread)
      · obtain ⟨read, hread, rfl⟩ := Option.map_eq_some_iff.mp hr
        exact Item.throughout_braced.mpr (regular_of_braced? ih hread)
      · exact hscalar hr

variable {d : Draft} {text : List Char}

theorem regular_of_header? (h : d.Regular) {r : Draft × List Char}
    (hr : header? d text = some r) : r.1.Regular := by
  unfold header? at hr
  split at hr
  on_goal 3 => cases hr
  -- with one bracket or two
  all_goals
    obtain ⟨⟨path, key, rest⟩, -, hr⟩ := Option.bind_eq_some_iff.mp hr
    obtain ⟨d', hd', hr⟩ := Option.bind_eq_some_iff.mp hr
    obtain ⟨rest', -, hr⟩ := Option.bind_eq_some_iff.mp hr
    cases hr
    exact h.header hd'

theorem regular_of_pairLine? (h : d.Regular) {r : Draft × List Char}
    (hr : pairLine? d text = some r) : r.1.Regular := by
  unfold pairLine? at hr
  obtain ⟨⟨path, key, item, rest⟩, hpair, hr⟩ := Option.bind_eq_some_iff.mp hr
  obtain ⟨d', hd', hr⟩ := Option.bind_eq_some_iff.mp hr
  obtain ⟨rest', -, hr⟩ := Option.bind_eq_some_iff.mp hr
  cases hr
  exact h.pair (regular_of_pair? (readsRegular_item? _) hpair) hd'

theorem regular_of_statement? (h : d.Regular) {r : Draft × List Char}
    (hr : statement? d text = some r) : r.1.Regular := by
  unfold statement? at hr
  split at hr
  · exact regular_of_header? h hr
  · obtain ⟨rest, -, rfl⟩ := Option.map_eq_some_iff.mp hr
    exact h
  · cases hr
    exact h
  · obtain ⟨rest, -, rfl⟩ := Option.map_eq_some_iff.mp hr
    exact h
  · exact regular_of_pairLine? h hr

theorem regular_of_statements? {fuel : Nat} {d' : Draft} (h : d.Regular)
    (hd' : statements? fuel d text = some d') : d'.Regular := by
  induction fuel generalizing d text with
  | zero => cases hd'
  | succ fuel ih =>
      rw [statements?] at hd'
      split at hd'
      · cases hd'
        exact h
      · obtain ⟨⟨next, rest⟩, hnext, hd'⟩ := Option.bind_eq_some_iff.mp hd'
        exact ih (regular_of_statement? h hnext) hd'

end Read

/-- In a document that was read no key stands twice in any table. -/
theorem Document.regular_of_ofText? {text : List Char} {d : Document}
    (h : Document.ofText? text = some d) : d.entries.Regular := by
  unfold Document.ofText? at h
  obtain ⟨draft, hdraft, h⟩ := Option.bind_eq_some_iff.mp h
  obtain ⟨closed, hclosed, h⟩ := Option.bind_eq_some_iff.mp h
  cases h
  exact ((Read.regular_of_statements? (Draft.regular_start _) hdraft).close hclosed).before

end TemplateCache.Toml
