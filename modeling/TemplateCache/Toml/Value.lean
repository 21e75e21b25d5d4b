import TemplateCache.Toml.Datetime

/-!
# TOML values

A value is a scalar, an array or a table. A table has each key once, in increasing order;
`Table.insert` keeps it so. Two values are equal when they say the same: floats compare as
numbers, and an integer equals no float.
-/

namespace TemplateCache.Toml

/-- A value that holds no other. -/
inductive Scalar where
  | string (text : String)
  | integer (n : Int64)
  | float (f : Binary64)
  | boolean (b : Bool)
  | datetime (d : Datetime)
  deriving DecidableEq

inductive Value where
  | scalar (s : Scalar)
  | array (items : List Value)
  | table (entries : List (String × Value))

/-- Keys with their values, each key once and in increasing order. -/
abbrev Table := List (String × Value)

namespace Table

/-- A table with a value under a key, in place of the one it had. -/
def insert (key : String) (value : Value) : Table → Table
  | [] => [(key, value)]
  | (k, v) :: rest =>
      if key < k then (key, value) :: (k, v) :: rest
      else if key = k then (key, value) :: rest
      else (k, v) :: insert key value rest

/-- The value under a key. -/
def get? (key : String) : Table → Option Value
  | [] => none
  | (k, v) :: rest => if k = key then some v else get? key rest

/-- The table of a list of pairs; the last pair for a key counts. -/
def ofList (pairs : List (String × Value)) : Table :=
  pairs.foldl (fun t pair => insert pair.1 pair.2 t) []

/-- Inserting changes what is under one key and nothing else. -/
theorem get?_insert (t : Table) (key k : String) (value : Value) :
    (t.insert key value).get? k = if key = k then some value else t.get? k := by
  induction t with
  | nil => rfl
  | cons entry rest ih =>
      obtain ⟨l, v⟩ := entry
      by_cases hless : key < l
      · simp [insert, get?, hless]
      · by_cases hkey : key = l
        · subst hkey
          by_cases h : key = k <;> simp [insert, get?, h]
        · by_cases hl : l = k
          · subst hl
            simp [insert, get?, hless, hkey]
          · simp [insert, get?, hless, hkey, hl, ih]

end Table

/-- Whether two scalars are equal. -/
def Scalar.equal : Scalar → Scalar → Bool
  | .float f, .float g => f.equal g
  | s, t => s == t

namespace Value

mutual

/-- Whether two values are equal. -/
def equal : Value → Value → Bool
  | .scalar s, .scalar t => s.equal t
  | .array xs, .array ys => itemsEqual xs ys
  | .table ps, .table qs => entriesEqual ps qs
  | _, _ => false

/-- Whether two lists of values are equal item by item. -/
def itemsEqual : List Value → List Value → Bool
  | [], [] => true
  | x :: xs, y :: ys => equal x y && itemsEqual xs ys
  | _, _ => false

/-- Whether two tables have equal values under the same keys. -/
def entriesEqual : List (String × Value) → List (String × Value) → Bool
  | [], [] => true
  | (k, x) :: ps, (l, y) :: qs => k == l && equal x y && entriesEqual ps qs
  | _, _ => false

end

end Value

end TemplateCache.Toml
