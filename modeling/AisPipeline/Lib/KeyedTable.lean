import Mathlib.Data.List.Nodup
import Mathlib.Tactic

/-!
# Tables with a primary key

A table is a list of rows whose keys are distinct; the order of the rows means
nothing. A plain insert fails on a key that is taken, an upsert changes the row
that holds it.
-/

structure KeyedTable {ρ κ : Type*} (key : ρ → κ) where
  rows : List ρ
  distinct : (rows.map key).Nodup

namespace KeyedTable

variable {ρ κ α : Type*} [DecidableEq κ] {key : ρ → κ}

def empty : KeyedTable key := ⟨[], List.nodup_nil⟩

/-- The row with key `k`. -/
def row? (table : KeyedTable key) (k : κ) : Option ρ := table.rows.find? fun row => key row = k

/-- `INSERT` of several rows: all of them, or none if a key would occur twice. -/
def insertAll (table : KeyedTable key) (rows : List ρ) : Option (KeyedTable key) :=
  if distinct : ((table.rows ++ rows).map key).Nodup then some ⟨table.rows ++ rows, distinct⟩
  else none

private def upsertRows (key : ρ → κ) (row : ρ) (update : ρ → ρ) (rows : List ρ) : List ρ :=
  if key row ∈ rows.map key then rows.map fun old => if key old = key row then update old else old
  else rows ++ [row]

/-- `INSERT … ON CONFLICT (key) DO UPDATE`: the row that holds the key of `row` is updated, and
if there is none, `row` is added. An update leaves the key alone. -/
def upsert (table : KeyedTable key) (row : ρ) (update : ρ → ρ)
    (keeps : ∀ old, key (update old) = key old) : KeyedTable key where
  rows := upsertRows key row update table.rows
  distinct := by
    unfold upsertRows
    split
    · rw [List.map_map, List.map_congr_left (g := key)]
      · exact table.distinct
      · intro old _
        by_cases same : key old = key row <;> simp [same, keeps]
    -- a new row brings a key that no row has
    next fresh =>
      rw [List.map_append, List.nodup_append]
      refine ⟨table.distinct, by simp, fun k taken k' new same => fresh ?_⟩
      rw [List.map_singleton, List.mem_singleton] at new
      rwa [← new, ← same]

/-- `LEFT JOIN` on the key: each left row with its match, or with nothing. -/
def leftJoin (left : List α) (on : α → κ) (table : KeyedTable key) : List (α × Option ρ) :=
  left.flatMap fun a =>
    match table.rows.filter fun row => key row = on a with
    | [] => [(a, none)]
    | found => found.map fun row => (a, some row)

variable {table : KeyedTable key} {row : ρ} {k : κ}

theorem row?_eq_some_iff : table.row? k = some row ↔ row ∈ table.rows ∧ key row = k := by
  constructor
  · intro found
    exact ⟨List.mem_of_find?_eq_some found, by simpa using List.find?_some found⟩
  · rintro ⟨member, rfl⟩
    obtain ⟨before, after, at_row⟩ := List.append_of_mem member
    have distinct := table.distinct
    rw [at_row, List.map_append, List.map_cons, List.nodup_middle, List.nodup_cons] at distinct
    -- nothing in front of the row has its key
    rw [row?, at_row, List.find?_append, List.find?_eq_none.mpr, Option.none_or,
      List.find?_cons_of_pos (by simp)]
    intro other earlier
    have apart : key other ≠ key row := fun same =>
      distinct.1 (List.mem_append_left _ (same ▸ List.mem_map_of_mem earlier))
    simpa using apart

theorem row?_eq_none_iff : table.row? k = none ↔ k ∉ table.rows.map key := by
  simp [row?]

theorem row?_key (found : table.row? k = some row) : key row = k := (row?_eq_some_iff.mp found).2

private theorem find?_update (update : ρ → ρ) (keeps : ∀ old, key (update old) = key old) (k' : κ)
    (rows : List ρ) :
    (rows.map fun old => if key old = k' then update old else old).find? (fun row => key row = k) =
      (rows.find? fun row => key row = k).map fun old => if k = k' then update old else old := by
  induction rows with
  | nil => rfl
  | cons old rows ih =>
    have same_key : key (if key old = k' then update old else old) = key old := by
      split
      · exact keeps old
      · rfl
    by_cases found : key old = k
    · subst found
      simp [same_key]
    · simp [same_key, found, ih]

/-- An upsert touches the row of its own key only. -/
theorem row?_upsert {update : ρ → ρ} {keeps : ∀ old, key (update old) = key old} :
    (table.upsert row update keeps).row? k =
      if k = key row then some ((table.row? k).elim row update) else table.row? k := by
  by_cases taken : key row ∈ table.rows.map key
  -- conflict: the rows stay where they are and one is updated
  · have held : (table.upsert row update keeps).rows =
        table.rows.map fun old => if key old = key row then update old else old := if_pos taken
    rw [row?, held, find?_update update keeps, ← row?]
    by_cases own : k = key row
    · subst own
      obtain ⟨old, found⟩ := Option.ne_none_iff_exists'.mp (mt row?_eq_none_iff.mp (not_not.mpr taken))
      simp [found]
    · simp [own]
  -- no conflict: the row goes to the end
  · have held : (table.upsert row update keeps).rows = table.rows ++ [row] := if_neg taken
    rw [row?, held, List.find?_append, ← row?]
    by_cases own : k = key row
    · subst own
      rw [row?_eq_none_iff.mpr taken]
      simp
    · simp [own, Ne.symm own]

@[simp] theorem insertAll_nil : table.insertAll [] = some table := by
  simp [insertAll, table.distinct]

theorem insertAll_empty {rows : List ρ} (distinct : (rows.map key).Nodup) :
    (empty : KeyedTable key).insertAll rows = some ⟨rows, distinct⟩ := by
  simp [insertAll, empty, distinct]

/-- The rows with a key are the one row found by it, if there is one. -/
theorem filter_key : (table.rows.filter fun row => key row = k) = (table.row? k).toList := by
  have distinct : ((table.rows.filter fun row => key row = k).map key).Nodup :=
    (List.filter_sublist.map key).nodup table.distinct
  have own : ∀ row ∈ table.rows.filter (fun row => key row = k), key row = k := by
    intro row member
    simpa using (List.mem_filter.mp member).2
  rw [row?, ← List.head?_filter]
  cases found : table.rows.filter fun row => key row = k with
  | nil => rfl
  | cons row rest =>
    cases rest with
    | nil => rfl
    -- two rows of one key cannot be
    | cons other rest =>
      rw [found] at distinct own
      simp [own row (by simp), own other (by simp)] at distinct

/-- Keys being distinct, a left join adds to each left row the one row it can match. -/
theorem leftJoin_eq (left : List α) (on : α → κ) :
    leftJoin left on table = left.map fun a => (a, table.row? (on a)) := by
  rw [leftJoin, List.map_eq_flatMap]
  congr 1
  funext a
  rw [filter_key]
  cases table.row? (on a) with
  | none => rfl
  | some row => rfl

end KeyedTable
