import Mathlib.Data.List.Basic

/-!
# Grouping

A map from keys to lists of values that is filled one value at a time, with its
keys in the order they came in.
-/
namespace Grouping

variable {κ ν : Type*} [DecidableEq κ]

/-- The value goes to the end of its key's list, which is empty where the key is new. -/
def add : List (κ × List ν) → κ → ν → List (κ × List ν)
  | [], key, value => [(key, [value])]
  | (other, values) :: groups, key, value =>
    if other = key then (other, values ++ [value]) :: groups
    else (other, values) :: add groups key value

def addAll (groups : List (κ × List ν)) (items : List (κ × ν)) : List (κ × List ν) :=
  items.foldl (fun groups item => add groups item.1 item.2) groups

/-- The values of a key. -/
def group (groups : List (κ × List ν)) (key : κ) : List ν := (groups.lookup key).getD []

variable {groups : List (κ × List ν)} {key other : κ} {value : ν}

private theorem lookup_cons_of_ne {values : List ν} (different : other ≠ key) :
    ((key, values) :: groups).lookup other = groups.lookup other := by
  rw [List.lookup_cons, beq_false_of_ne different]

theorem lookup_add :
    (add groups key value).lookup other =
      if other = key then some (group groups key ++ [value]) else groups.lookup other := by
  induction groups with
  | nil =>
    by_cases same : other = key
    · subst same
      simp [add, group]
    · rw [add, lookup_cons_of_ne same, if_neg same]
  | cons first groups ih =>
    obtain ⟨here, values⟩ := first
    by_cases found : here = key
    · subst found
      rw [add, if_pos rfl]
      by_cases same : other = here
      · subst same
        simp [group]
      · rw [lookup_cons_of_ne same, lookup_cons_of_ne same, if_neg same]
    · rw [add, if_neg found]
      by_cases same : other = here
      · subst same
        simp [found]
      · have mine : group ((here, values) :: groups) key = group groups key := by
          rw [group, lookup_cons_of_ne (Ne.symm found), group]
        rw [lookup_cons_of_ne same, ih, mine, lookup_cons_of_ne same]

theorem group_add :
    group (add groups key value) other =
      group groups other ++ if other = key then [value] else [] := by
  rw [group, lookup_add]
  by_cases same : other = key
  · simp [same]
  · simp [same, group]

/-- A key's values are those that were added for it, in order. -/
theorem group_addAll (items : List (κ × ν)) :
    group (addAll groups items) key =
      group groups key ++ (items.filter fun item => item.1 = key).map Prod.snd := by
  induction items generalizing groups with
  | nil => simp [addAll]
  | cons item items ih =>
    rw [addAll, List.foldl_cons, ← addAll, ih, group_add, List.append_assoc]
    by_cases mine : item.1 = key
    · simp [mine]
    · simp [mine, Ne.symm mine]

theorem addAll_append (items later : List (κ × ν)) :
    addAll groups (items ++ later) = addAll (addAll groups items) later := List.foldl_append

/-- Every key has a value, and stands there once. -/
structure Proper (groups : List (κ × List ν)) : Prop where
  nodup : (groups.map Prod.fst).Nodup
  filled : ∀ entry ∈ groups, entry.2 ≠ []

theorem mem_add {entry : κ × List ν} (member : entry ∈ add groups key value) :
    (entry.1 = key ∧ entry.2 ≠ []) ∨ entry ∈ groups := by
  induction groups with
  | nil => exact .inl (by simp_all [add])
  | cons first groups ih =>
    rw [add] at member
    split at member
    next found =>
      rcases List.mem_cons.mp member with rfl | later
      · exact .inl ⟨found, by simp⟩
      · exact .inr (List.mem_cons_of_mem _ later)
    next =>
      rcases List.mem_cons.mp member with rfl | later
      · exact .inr List.mem_cons_self
      · exact (ih later).imp_right (List.mem_cons_of_mem _)

theorem Proper.add (proper : Proper groups) (key : κ) (value : ν) :
    Proper (add groups key value) := by
  refine ⟨?_, fun entry member => ?_⟩
  · have distinct := proper.nodup
    clear proper
    induction groups with
    | nil => simp [Grouping.add]
    | cons first groups ih =>
      rw [List.map_cons, List.nodup_cons] at distinct
      rw [Grouping.add]
      split
      next => exact List.nodup_cons.mpr distinct
      next different =>
        refine List.nodup_cons.mpr ⟨fun again => ?_, ih distinct.2⟩
        obtain ⟨entry, member, same⟩ := List.mem_map.mp again
        rcases mem_add member with mine | earlier
        · exact different (same.symm.trans mine.1)
        · exact distinct.1 (same ▸ List.mem_map_of_mem earlier)
  · rcases mem_add member with mine | earlier
    · exact mine.2
    · exact proper.filled entry earlier

theorem Proper.addAll (proper : Proper groups) (items : List (κ × ν)) :
    Proper (addAll groups items) := by
  induction items generalizing groups with
  | nil => exact proper
  | cons item items ih => exact ih (proper.add item.1 item.2)

omit [DecidableEq κ] in
theorem proper_nil : Proper ([] : List (κ × List ν)) := ⟨List.nodup_nil, by simp⟩

/-- The keys are those with a value. -/
theorem Proper.mem_keys (proper : Proper groups) :
    key ∈ groups.map Prod.fst ↔ group groups key ≠ [] := by
  rw [group]
  cases found : groups.lookup key with
  | none =>
    simp only [Option.getD_none, ne_eq, not_true, iff_false]
    intro member
    obtain ⟨entry, member, same⟩ := List.mem_map.mp member
    have missing := List.lookup_eq_none_iff.mp found entry member
    simp [same] at missing
  | some values =>
    obtain ⟨before, after, rfl, -⟩ := List.lookup_eq_some_iff.mp found
    have member : (key, values) ∈ before ++ (key, values) :: after := by simp
    exact ⟨fun _ => proper.filled _ member, fun _ => List.mem_map_of_mem member⟩

end Grouping
