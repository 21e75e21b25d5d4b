import Mathlib.Data.List.Forall2
import TemplateCache.Proofs.Toml.KeysOnce
import TemplateCache.Proofs.Toml.Table
import TemplateCache.Toml.Shape

/-!
# What an item says

Reading an item as plain data goes through its tables in the order of the text and puts what it finds
into tables in the order of the keys. What comes out is said without either order by `Item.Says`:
scalars as they are, arrays item by item, and tables key by key, at every depth. An item says one
value at most, and where no table has the key that stands for date-times, reading finds it. Main
statements: `Item.Says.unique` and `Entries.entryValues_say`.
-/

namespace TemplateCache.Toml

/-- A value is what an item says, at every depth. -/
inductive Item.Says : Item → Value → Prop where
  | scalar {s : Scalar} {span : Span} : Says (.scalar s span) (.scalar s)
  | array {item : Item} {items : List Item} {values : List Value} :
      item.elements? = some items → values.length = items.length →
      (∀ (i : Nat) (x : Item) (v : Value), items[i]? = some x → values[i]? = some v → Says x v) →
      Says item (.array values)
  | table {item : Item} {entries : Entries} {t : Table} :
      item.entries? = some entries → t.Increasing →
      (∀ k, (t.get? k).isSome = (Entries.get? k entries).isSome) →
      (∀ (k : String) (x : Item) (v : Value),
        Entries.get? k entries = some x → t.get? k = some v → Says x v) →
      Says item (.table t)

/-- A table is what some entries say: in order, and under each key what the item there says. -/
structure Entries.Say (entries : Entries) (t : Table) : Prop where
  increasing : t.Increasing
  under : ∀ k, Option.Rel Item.Says (Entries.get? k entries) (t.get? k)

theorem rel_of_isSome_eq {α β : Type} {R : α → β → Prop} {a : Option α} {b : Option β}
    (hboth : b.isSome = a.isSome) (h : ∀ x y, a = some x → b = some y → R x y) :
    Option.Rel R a b := by
  cases a with
  | none =>
      cases b with
      | none => exact .none
      | some y => cases hboth
  | some x =>
      cases b with
      | none => cases hboth
      | some y => exact .some (h x y rfl rfl)

theorem Item.says_table_iff {item : Item} {entries : Entries} {t : Table}
    (h : item.entries? = some entries) : item.Says (.table t) ↔ entries.Say t := by
  constructor
  · intro hsays
    cases hsays with
    | @table _ entries' _ h' hincreasing hkeys hvalues =>
        rw [h] at h'
        cases h'
        exact ⟨hincreasing, fun k => rel_of_isSome_eq (hkeys k) (hvalues k)⟩
  · rintro ⟨hincreasing, hunder⟩
    refine .table h hincreasing (fun k => ?_) fun k x v hx hv => ?_
    · have hrel := hunder k
      generalize Entries.get? k entries = a at hrel ⊢
      generalize t.get? k = b at hrel ⊢
      cases hrel <;> rfl
    · have hrel := hunder k
      rw [hx, hv] at hrel
      cases hrel with
      | some hsays => exact hsays

/-! ## One value -/

/-- No item is an array and a table. -/
theorem Item.not_both {item : Item} {items : List Item} {entries : Entries}
    (hitems : item.elements? = some items) (hentries : item.entries? = some entries) : False := by
  cases item with
  | scalar s span => cases hitems
  | array items span => cases hentries
  | tables elements => cases hentries
  | braced entries span => cases hitems
  | table kind span entries => cases hitems

/-- An item says one value. The induction is on the first way of saying it. -/
theorem Item.Says.unique {item : Item} {v w : Value} (h : item.Says v) (h' : item.Says w) :
    v = w := by
  induction h generalizing w with
  | scalar =>
      cases h' with
      | scalar => rfl
      | array hitems _ _ => cases hitems
      | table hentries _ _ _ => cases hentries
  | @array item items values hitems hlength hvalues ih =>
      cases h' with
      | scalar => cases hitems
      | @array _ items' values' hitems' hlength' hvalues' =>
          rw [hitems] at hitems'
          cases hitems'
          refine congrArg Value.array (List.ext_getElem (by rw [hlength, hlength']) fun i hi hi' => ?_)
          have hx : items[i]? = some items[i] := List.getElem?_eq_getElem (hlength ▸ hi)
          exact ih i _ _ hx (List.getElem?_eq_getElem hi)
            (hvalues' i _ _ hx (List.getElem?_eq_getElem hi'))
      | table hentries _ _ _ => exact (Item.not_both hitems hentries).elim
  | @table item entries t hentries hincreasing hkeys hvalues ih =>
      cases h' with
      | scalar => cases hentries
      | array hitems _ _ => exact (Item.not_both hitems hentries).elim
      | @table _ entries' u hentries' hincreasing' hkeys' hvalues' =>
          rw [hentries] at hentries'
          cases hentries'
          refine congrArg Value.table (Table.ext hincreasing hincreasing' fun k => ?_)
          have hsame : Option.Rel (fun x v => ∀ w, x.Says w → v = w) (Entries.get? k entries)
              (t.get? k) := rel_of_isSome_eq (hkeys k) fun x v hx hv w hw => ih k x v hx hv hw
          have hsays := rel_of_isSome_eq (hkeys' k) (hvalues' k)
          generalize Entries.get? k entries = a at hsame hsays
          generalize t.get? k = b at hsame ⊢
          generalize u.get? k = c at hsays ⊢
          cases hsame with
          | none =>
              cases hsays with
              | none => rfl
          | some hone =>
              cases hsays with
              | some hw => rw [hone _ hw]

/-- Some entries say one table. -/
theorem Entries.Say.unique {entries : Entries} {t u : Table} (h : entries.Say t)
    (h' : entries.Say u) : t = u := by
  have hentries : (Item.table .stated none entries).entries? = some entries := rfl
  have hvalue := ((Item.says_table_iff hentries).mpr h).unique
    ((Item.says_table_iff hentries).mpr h')
  cases hvalue
  rfl

/-! ## Reading -/

/-- No key of a table is the one that stands for a date-time. -/
def Entries.Unmarked (entries : Entries) : Prop :=
  ∀ entry ∈ entries, entry.1.text ≠ datetimeKey

instance : DecidablePred Entries.Unmarked := fun entries =>
  inferInstanceAs (Decidable (∀ entry ∈ entries, entry.1.text ≠ datetimeKey))

theorem Entries.Unmarked.marked?_eq {entries : Entries} (h : entries.Unmarked) :
    marked? entries = none := by
  cases entries with
  | nil => rfl
  | cons entry rest =>
      obtain ⟨key, item⟩ := entry
      unfold marked?
      exact if_neg (h (key, item) List.mem_cons_self)

/-- Without a key twice, each pair is found under its key. -/
theorem Table.get?_ofList {pairs : List (String × Value)} (h : (pairs.map Prod.fst).Nodup)
    (k : String) : (ofList pairs).get? k = Table.get? k pairs := by
  have hfold : ∀ t : Table, Table.get? k (pairs.foldl (fun t pair => insert pair.1 pair.2 t) t) =
      (Table.get? k pairs).or (t.get? k) := by
    induction pairs with
    | nil => exact fun t => rfl
    | cons pair rest ih =>
        intro t
        obtain ⟨hfirst, hrest⟩ := List.nodup_cons.mp h
        rw [List.foldl_cons, ih hrest, get?_insert]
        by_cases hkey : pair.1 = k
        · have hnone : Table.get? k rest = none := by
            cases hget : Table.get? k rest with
            | none => rfl
            | some v => exact absurd (List.mem_map_of_mem (mem_of_get? hget)) (hkey ▸ hfirst)
          simp [hnone, hkey, get?]
        · simp [hkey, get?]
  rw [ofList, hfold]
  simp [get?]

/-- A pair has the key of an entry and the value that its item says. -/
def Matches (entry : Key × Item) (pair : String × Value) : Prop :=
  pair.1 = entry.1.text ∧ entry.2.Says pair.2

theorem Entries.say_ofList {entries : Entries} {pairs : List (String × Value)}
    (honce : entries.KeysOnce) (h : List.Forall₂ Matches entries pairs) :
    entries.Say (Table.ofList pairs) := by
  have hkeys : pairs.map Prod.fst = entries.map fun entry => entry.1.text := by
    induction h with
    | nil => rfl
    | cons hhead _ ih =>
        rw [List.map_cons, List.map_cons, hhead.1, ih (List.nodup_cons.mp honce).2]
  have hunder : ∀ k, Option.Rel Item.Says (Entries.get? k entries) (Table.get? k pairs) := by
    intro k
    clear hkeys honce
    induction h with
    | nil => exact .none
    | @cons entry pair _ _ hhead _ ih =>
        rw [Entries.get?, Table.get?, hhead.1]
        split
        · exact .some hhead.2
        · exact ih
  refine ⟨Table.increasing_ofList pairs, fun k => ?_⟩
  rw [Table.get?_ofList (hkeys ▸ honce)]
  exact hunder k

mutual

/-- Reading an item finds what it says. -/
theorem Item.value_says : ∀ {item : Item}, item.Throughout Entries.KeysOnce →
    item.Throughout Entries.Unmarked → ∃ v, item.value = .ok v ∧ item.Says v
  | .scalar s span, _, _ => ⟨_, by rw [Item.value], .scalar⟩
  | .array items span, honce, hunmarked => by
      rw [Item.Throughout] at honce hunmarked
      obtain ⟨values, hvalues, hlength, hsay⟩ := itemValues_say honce hunmarked
      exact ⟨_, by rw [Item.value, hvalues]; rfl, .array rfl hlength hsay⟩
  | .tables items, honce, hunmarked => by
      rw [Item.Throughout] at honce hunmarked
      obtain ⟨values, hvalues, hlength, hsay⟩ := itemValues_say honce hunmarked
      exact ⟨_, by rw [Item.value, hvalues]; rfl, .array rfl hlength hsay⟩
  | .braced entries span, honce, hunmarked => by
      rw [Item.Throughout] at honce hunmarked
      obtain ⟨pairs, hpairs, hmatch⟩ := entryValues_match honce.2 hunmarked.2
      refine ⟨.table (Table.ofList pairs), ?_,
        (Item.says_table_iff rfl).mpr (Entries.say_ofList honce.1 hmatch)⟩
      rw [Item.value, hunmarked.1.marked?_eq, hpairs]
      rfl
  | .table kind span entries, honce, hunmarked => by
      rw [Item.Throughout] at honce hunmarked
      obtain ⟨pairs, hpairs, hmatch⟩ := entryValues_match honce.2 hunmarked.2
      refine ⟨.table (Table.ofList pairs), ?_,
        (Item.says_table_iff rfl).mpr (Entries.say_ofList honce.1 hmatch)⟩
      rw [Item.value, hunmarked.1.marked?_eq, hpairs]
      rfl

theorem itemValues_say : ∀ {items : List Item}, itemsThroughout Entries.KeysOnce items →
    itemsThroughout Entries.Unmarked items → ∃ values, itemValues items = .ok values ∧
      values.length = items.length ∧
      ∀ (i : Nat) (x : Item) (v : Value), items[i]? = some x → values[i]? = some v → x.Says v
  | [], _, _ => ⟨[], by rw [itemValues], rfl, fun _ _ _ h => by cases h⟩
  | item :: rest, honce, hunmarked => by
      rw [itemsThroughout] at honce hunmarked
      obtain ⟨value, hvalue, hsays⟩ := Item.value_says honce.1 hunmarked.1
      obtain ⟨values, hvalues, hlength, hsay⟩ := itemValues_say honce.2 hunmarked.2
      refine ⟨value :: values, by rw [itemValues, hvalue, hvalues]; rfl, by simp [hlength], ?_⟩
      intro i x v hx hv
      cases i with
      | zero =>
          cases hx
          cases hv
          exact hsays
      | succ i => exact hsay i x v hx hv

theorem entryValues_match : ∀ {entries : List (Key × Item)},
    entriesThroughout Entries.KeysOnce entries → entriesThroughout Entries.Unmarked entries →
      ∃ pairs, entryValues entries = .ok pairs ∧ List.Forall₂ Matches entries pairs
  | [], _, _ => ⟨[], by rw [entryValues], .nil⟩
  | (key, item) :: rest, honce, hunmarked => by
      rw [entriesThroughout] at honce hunmarked
      obtain ⟨value, hvalue, hsays⟩ := Item.value_says honce.1 hunmarked.1
      obtain ⟨pairs, hpairs, hmatch⟩ := entryValues_match honce.2 hunmarked.2
      exact ⟨(key.text, value) :: pairs, by rw [entryValues, hvalue, hpairs]; rfl,
        .cons ⟨rfl, hsays⟩ hmatch⟩

end

/-- So does reading the entries of a table. -/
theorem Entries.entryValues_say {entries : Entries} (honce : entries.Regular)
    (hunmarked : entries.Throughout Unmarked) :
    ∃ pairs, entryValues entries = .ok pairs ∧ entries.Say (Table.ofList pairs) := by
  obtain ⟨pairs, hpairs, hmatch⟩ := entryValues_match (entriesThroughout_iff.mpr honce.2)
    (entriesThroughout_iff.mpr hunmarked.2)
  exact ⟨pairs, hpairs, say_ofList honce.1 hmatch⟩

end TemplateCache.Toml
