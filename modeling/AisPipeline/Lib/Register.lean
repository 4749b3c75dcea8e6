import AisPipeline.Lib.Newest
import Mathlib.Data.List.Nodup

/-!
# Partial writes under one stamp

A row of nullable columns. Each write carries a stamp and some of the columns;
the row remembers the stamp of the last write it took, and a write with a lower
one is dropped with everything it carries. Writes that arrive in the order of
their stamps leave in each column the last value carried. Writes that arrive in
any order do so only where the newest write carries every column that matters.
-/
namespace Register

open Newest

variable {ι : Type*} {ν : ι → Type*} {τ : Type*}

/-- In `value`, `none` is a column the write does not carry and `some none` a NULL. -/
structure Write (ν : ι → Type*) (τ : Type*) where
  stamp : τ
  value : ∀ i, Option (Option (ν i))

structure Row (ν : ι → Type*) (τ : Type*) where
  stamp : τ
  value : ∀ i, Option (ν i)

/-- The row a first write makes; what it does not carry is NULL. -/
def Write.insert (w : Write ν τ) : Row ν τ := ⟨w.stamp, fun i => (w.value i).join⟩

def Write.overwrite (w : Write ν τ) (row : Row ν τ) : Row ν τ :=
  ⟨w.stamp, fun i => (w.value i).getD (row.value i)⟩

/-- The value a column has in a row that may not be there. -/
def valueOf (row : Option (Row ν τ)) (i : ι) : Option (ν i) := row.bind fun row => row.value i

/-! ### In order -/

/-- The last value carried, NULL if there is none. -/
def lastValue (writes : List (Write ν τ)) (i : ι) : Option (ν i) :=
  (writes.filterMap fun w => w.value i).getLast?.join

theorem lastValue_append (writes : List (Write ν τ)) (w : Write ν τ) (i : ι) :
    lastValue (writes ++ [w]) i = (w.value i).getD (lastValue writes i) := by
  unfold lastValue
  cases carried : w.value i with
  | none => simp [carried]
  | some value => simp [carried]

variable [LinearOrder τ]

def upsert (row : Option (Row ν τ)) (w : Write ν τ) : Row ν τ :=
  match row with
  | none => w.insert
  | some row => if row.stamp ≤ w.stamp then w.overwrite row else row

/-- The row after some writes, from no row. -/
def run (writes : List (Write ν τ)) : Option (Row ν τ) :=
  writes.foldl (fun row w => some (upsert row w)) none

@[simp] theorem run_append (writes : List (Write ν τ)) (w : Write ν τ) :
    run (writes ++ [w]) = some (upsert (run writes) w) := by
  simp [run]

/-- A write that is not older than the row is taken. -/
theorem upsert_eq {row : Option (Row ν τ)} {w : Write ν τ}
    (newer : ∀ old ∈ row, old.stamp ≤ w.stamp) :
    upsert row w = ⟨w.stamp, fun i => (w.value i).getD (valueOf row i)⟩ := by
  cases row with
  | none =>
    simp only [upsert, Write.insert, valueOf, Option.bind_none]
    congr 1
    funext i
    cases w.value i <;> rfl
  | some old => rw [upsert, if_pos (newer old rfl), Write.overwrite]; rfl

theorem run_eq_none_iff {writes : List (Write ν τ)} : run writes = none ↔ writes = [] := by
  induction writes using List.reverseRecOn with
  | nil => simp [run]
  | append_singleton writes w ih => simp

/-- The stamp of the row is that of a write. -/
theorem exists_stamp {writes : List (Write ν τ)} {row : Row ν τ} (found : run writes = some row) :
    ∃ w ∈ writes, w.stamp = row.stamp := by
  induction writes using List.reverseRecOn generalizing row with
  | nil => cases found
  | append_singleton writes w ih =>
    rw [run_append, Option.some.injEq] at found
    subst found
    cases before : run writes with
    | none => exact ⟨w, by simp, rfl⟩
    | some old =>
      obtain ⟨earlier, member, stamp⟩ := ih before
      simp only [upsert]
      split
      · exact ⟨w, by simp, rfl⟩
      · exact ⟨earlier, List.mem_append_left _ member, stamp⟩

/-- A value after a write comes from the write or was there before. -/
private theorem valueOf_upsert {row : Option (Row ν τ)} {w : Write ν τ} {i : ι} {value : ν i}
    (held : (upsert row w).value i = some value) :
    w.value i = some (some value) ∨ valueOf row i = some value := by
  cases row with
  | none => exact Or.inl (Option.join_eq_some_iff.mp held)
  | some old =>
    simp only [upsert] at held
    split at held
    · cases carried : w.value i with
      | none =>
        simp only [Write.overwrite, carried, Option.getD_none] at held
        exact Or.inr held
      | some value' =>
        simp only [Write.overwrite, carried, Option.getD_some] at held
        exact Or.inl (congrArg some held)
    · exact Or.inr held

/-- A value of the row is a value carried. -/
theorem exists_carried {writes : List (Write ν τ)} {i : ι} {value : ν i}
    (held : valueOf (run writes) i = some value) : ∃ w ∈ writes, w.value i = some (some value) := by
  induction writes using List.reverseRecOn with
  | nil => cases held
  | append_singleton writes w ih =>
    rw [run_append] at held
    rcases valueOf_upsert held with carries | earlier
    · exact ⟨w, by simp, carries⟩
    · obtain ⟨w', member, carries⟩ := ih earlier
      exact ⟨w', List.mem_append_left _ member, carries⟩

/-- Writes in the order of their stamps: the last value carried stays, and so does the last stamp. -/
theorem run_of_ordered {writes : List (Write ν τ)}
    (ordered : writes.Pairwise fun earlier later => earlier.stamp ≤ later.stamp) :
    run writes = writes.getLast?.map fun last => ⟨last.stamp, lastValue writes⟩ := by
  induction writes using List.reverseRecOn with
  | nil => rfl
  | append_singleton writes w ih =>
    rw [List.pairwise_append] at ordered
    have newer : ∀ old ∈ run writes, old.stamp ≤ w.stamp := by
      intro old found
      obtain ⟨earlier, member, stamp⟩ := exists_stamp found
      rw [← stamp]
      exact ordered.2.2 earlier member w (by simp)
    have values (i : ι) : valueOf (run writes) i = lastValue writes i := by
      rw [ih ordered.1]
      cases last : writes.getLast? with
      | none =>
        rw [List.getLast?_eq_none_iff.mp last]
        rfl
      | some last => rfl
    rw [run_append, upsert_eq newer, List.getLast?_concat, Option.map_some]
    congr 2
    funext i
    rw [values, lastValue_append]

/-! ### In any order -/

/-- The value of the newest write that carries column `i`, NULL if there is none. -/
def newestValue (writes : List (Write ν τ)) (i : ι) : Option (ν i) :=
  (newest Write.stamp (writes.filter fun w => (w.value i).isSome)).bind fun w => (w.value i).join

/-- The newest write carries every column in which any write has a value. -/
def NewestCovers (writes : List (Write ν τ)) : Prop :=
  ∀ latest ∈ writes, (∀ w ∈ writes, w.stamp ≤ latest.stamp) →
    ∀ i, latest.value i = none → ∀ w ∈ writes, (w.value i).join = none

private theorem run_append_older {front after : List (Write ν τ)} {row : Row ν τ}
    (found : run front = some row) (older : ∀ w ∈ after, w.stamp < row.stamp) :
    run (front ++ after) = some row := by
  induction after using List.reverseRecOn with
  | nil => rwa [List.append_nil]
  | append_singleton after w ih =>
    have earlier := ih fun w' member => older w' (List.mem_append_left _ member)
    rw [← List.append_assoc, run_append, earlier, upsert, if_neg (not_le.mpr (older w (by simp)))]

/-- The newest write decides the columns it carries; the others stay as they were when it came. -/
theorem run_around {before after : List (Write ν τ)} {latest : Write ν τ}
    (low : ∀ w ∈ before, w.stamp ≤ latest.stamp) (lower : ∀ w ∈ after, w.stamp < latest.stamp) :
    run (before ++ latest :: after) =
      some ⟨latest.stamp, fun i => (latest.value i).getD (valueOf (run before) i)⟩ := by
  have newer : ∀ old ∈ run before, old.stamp ≤ latest.stamp := by
    intro old found
    obtain ⟨w, member, stamp⟩ := exists_stamp found
    rw [← stamp]
    exact low w member
  have taken := run_append before latest
  rw [upsert_eq newer] at taken
  rw [← List.singleton_append, ← List.append_assoc]
  exact run_append_older taken lower

variable {writes : List (Write ν τ)} {latest : Write ν τ}

private theorem lt_latest (distinct : (writes.map Write.stamp).Nodup) (member : latest ∈ writes)
    (newest_of_all : ∀ w ∈ writes, w.stamp ≤ latest.stamp) {w : Write ν τ} (other : w ∈ writes)
    (apart : w ≠ latest) : w.stamp < latest.stamp :=
  lt_of_le_of_ne (newest_of_all w other) fun same =>
    apart (List.inj_on_of_nodup_map distinct other member same)

private theorem newestValue_of_carried (distinct : (writes.map Write.stamp).Nodup)
    (member : latest ∈ writes) (newest_of_all : ∀ w ∈ writes, w.stamp ≤ latest.stamp) {i : ι}
    {value : Option (ν i)} (carried : latest.value i = some value) : newestValue writes i = value := by
  have among : latest ∈ writes.filter fun w => (w.value i).isSome := by
    simp [member, carried]
  cases found : newest Write.stamp (writes.filter fun w => (w.value i).isSome) with
  | none => simp [newest_eq_none.mp found] at among
  | some best =>
    have is_newest := newest_eq_some_iff.mp found
    have in_writes := (List.mem_filter.mp is_newest.mem).1
    have same := le_antisymm (newest_of_all best in_writes) (is_newest.le among)
    obtain rfl : best = latest := List.inj_on_of_nodup_map distinct in_writes member same
    simp [newestValue, found, carried]

private theorem newestValue_of_null {i : ι} (nulls : ∀ w ∈ writes, (w.value i).join = none) :
    newestValue writes i = none := by
  rw [newestValue, Option.bind_eq_none_iff]
  intro best found
  have is_newest := newest_eq_some_iff.mp found
  exact nulls best (List.mem_filter.mp is_newest.mem).1

private theorem valueOf_of_null {i : ι} (nulls : ∀ w ∈ writes, (w.value i).join = none) :
    valueOf (run writes) i = none := by
  by_contra something
  obtain ⟨value, held⟩ := Option.ne_none_iff_exists'.mp something
  obtain ⟨w, member, carries⟩ := exists_carried held
  have null := nulls w member
  rw [carries] at null
  cases null

/-- Where the newest write covers the others, every order leaves the same row. -/
private theorem run_of_covers (distinct : (writes.map Write.stamp).Nodup) (member : latest ∈ writes)
    (newest_of_all : ∀ w ∈ writes, w.stamp ≤ latest.stamp) (covers : NewestCovers writes)
    {order : List (Write ν τ)} (perm : order.Perm writes) :
    run order = some ⟨latest.stamp, newestValue writes⟩ := by
  obtain ⟨before, after, rfl⟩ := List.append_of_mem (perm.mem_iff.mpr member)
  have apart := (perm.map Write.stamp).nodup_iff.mpr distinct
  rw [List.map_append, List.map_cons, List.nodup_middle, List.nodup_cons, ← List.map_append] at apart
  have others {w : Write ν τ} (in_rest : w ∈ before ++ after) : w.stamp < latest.stamp := by
    have in_order : w ∈ before ++ latest :: after := by
      rcases List.mem_append.mp in_rest with earlier | later
      · exact List.mem_append_left _ earlier
      · exact List.mem_append_right _ (List.mem_cons_of_mem _ later)
    apply lt_of_le_of_ne (newest_of_all w (perm.mem_iff.mp in_order))
    intro same
    exact apart.1 (same ▸ List.mem_map_of_mem in_rest)
  rw [run_around (fun w earlier => (others (List.mem_append_left _ earlier)).le)
    fun w later => others (List.mem_append_right _ later)]
  congr 2
  funext i
  cases carried : latest.value i with
  | some value => rw [Option.getD_some, newestValue_of_carried distinct member newest_of_all carried]
  | none =>
    have nulls := covers latest member newest_of_all i carried
    have earlier_nulls : ∀ w ∈ before, (w.value i).join = none := fun w earlier =>
      nulls w (perm.mem_iff.mp (List.mem_append_left _ earlier))
    rw [Option.getD_none, valueOf_of_null earlier_nulls, newestValue_of_null nulls]

/-- Where it does not, a column is NULL or not depending on which of two writes came first. -/
private theorem exists_orders_of_not_covers (distinct : (writes.map Write.stamp).Nodup)
    (uncovered : ¬ NewestCovers writes) :
    ∃ order order' i, order.Perm writes ∧ order'.Perm writes ∧
      valueOf (run order) i ≠ valueOf (run order') i := by
  simp only [NewestCovers, not_forall] at uncovered
  obtain ⟨latest, member, newest_of_all, i, not_carried, w, other, value⟩ := uncovered
  have apart : w ≠ latest := by
    rintro rfl
    rw [not_carried] at value
    exact value rfl
  obtain ⟨front, back, rfl⟩ := List.append_of_mem other
  have in_rest : latest ∈ front ++ back := by
    rw [List.mem_append, List.mem_cons] at member
    rw [List.mem_append]
    rcases member with earlier | rfl | later
    · exact Or.inl earlier
    · exact absurd rfl apart
    · exact Or.inr later
  obtain ⟨front', back', split⟩ := List.append_of_mem in_rest
  have perm : (w :: latest :: (front' ++ back')).Perm (front ++ w :: back) := by
    refine List.Perm.trans (List.Perm.cons w ?_) List.perm_middle.symm
    rw [split]
    exact List.perm_middle.symm
  have w_lower := lt_latest distinct member newest_of_all other apart
  have stamps := (perm.map Write.stamp).nodup_iff.mpr distinct
  rw [List.map_cons, List.map_cons, List.nodup_cons, List.nodup_cons] at stamps
  have lower : ∀ w' ∈ front' ++ back', w'.stamp < latest.stamp := by
    intro w' in_both
    have in_writes := perm.mem_iff.mp (List.mem_cons_of_mem w (List.mem_cons_of_mem latest in_both))
    exact lt_of_le_of_ne (newest_of_all w' in_writes) fun same =>
      stamps.2.1 (same ▸ List.mem_map_of_mem in_both)
  have swapped : (latest :: w :: (front' ++ back')).Perm (front ++ w :: back) :=
    (List.Perm.swap w latest _).trans perm
  refine ⟨w :: latest :: (front' ++ back'), latest :: w :: (front' ++ back'), i, perm, swapped, ?_⟩
  have first := @run_around _ _ _ _ [w] (front' ++ back') latest (by simpa using w_lower.le) lower
  have second := @run_around _ _ _ _ [] (w :: (front' ++ back')) latest (by simp)
    (List.forall_mem_cons.mpr ⟨w_lower, lower⟩)
  rw [List.singleton_append] at first
  rw [List.nil_append] at second
  have single : valueOf (run [w]) i = (w.value i).join := rfl
  rw [first, second]
  simp only [valueOf, Option.bind_some, not_carried, Option.getD_none]
  rw [← valueOf, single]
  exact value

/-- The row every order leaves, where the newest write covers the others. -/
theorem run_perm_of_covers (distinct : (writes.map Write.stamp).Nodup) (covers : NewestCovers writes)
    {order : List (Write ν τ)} (perm : order.Perm writes) :
    run order = (newest Write.stamp writes).map fun latest =>
      ⟨latest.stamp, newestValue writes⟩ := by
  cases found : newest Write.stamp writes with
  | none =>
    rw [newest_eq_none] at found
    subst found
    rw [perm.eq_nil]
    rfl
  | some latest =>
    have is_newest := newest_eq_some_iff.mp found
    exact run_of_covers distinct is_newest.mem (fun w member => is_newest.le member) covers perm

/-- All orders leave the same row exactly when the newest write covers the others. -/
theorem orders_agree_iff (distinct : (writes.map Write.stamp).Nodup) :
    (∀ order order' : List (Write ν τ), order.Perm writes → order'.Perm writes →
      run order = run order') ↔ NewestCovers writes := by
  constructor
  · intro agree
    by_contra uncovered
    obtain ⟨order, order', i, perm, perm', differ⟩ := exists_orders_of_not_covers distinct uncovered
    exact differ (by rw [agree order order' perm perm'])
  · intro covers order order' perm perm'
    rw [run_perm_of_covers distinct covers perm, run_perm_of_covers distinct covers perm']

/-- And only then each column holds the newest value carried, whatever the order. -/
theorem newest_values_iff (distinct : (writes.map Write.stamp).Nodup) :
    (∀ order : List (Write ν τ), order.Perm writes →
      ∀ i, valueOf (run order) i = newestValue writes i) ↔ NewestCovers writes := by
  constructor
  · intro newest_held
    by_contra uncovered
    obtain ⟨order, order', i, perm, perm', differ⟩ := exists_orders_of_not_covers distinct uncovered
    exact differ ((newest_held order perm i).trans (newest_held order' perm' i).symm)
  · intro covers order perm i
    rw [run_perm_of_covers distinct covers perm]
    cases found : newest Write.stamp writes with
    | some latest => rfl
    | none =>
      rw [newest_eq_none] at found
      subst found
      rfl

end Register
