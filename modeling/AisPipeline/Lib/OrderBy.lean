import Mathlib.Data.List.Sort
import Mathlib.Data.Prod.Lex

/-!
# Sorting by a key

`ORDER BY key DESC` fixes the order of the keys and leaves entries of one key in
any order. When the answer to a query with a LIMIT is nevertheless determined,
and when the first entry with some property is.
-/
namespace OrderBy

variable {α β γ : Type*} [LinearOrder β]

/-- `result` is `source` in descending order of `key`; ties come as they like. -/
structure Descending (key : α → β) (source result : List α) : Prop where
  perm : result.Perm source
  sorted : result.Pairwise fun a b => key b ≤ key a

/-- One such order. -/
def descending (key : α → β) (source : List α) : List α :=
  source.mergeSort fun a b => decide (key b ≤ key a)

variable {key : α → β} {source result ordered : List α}

theorem descending_spec : Descending key source (descending key source) where
  perm := List.mergeSort_perm _ _
  sorted := by
    have sorted : (descending key source).Pairwise fun a b => decide (key b ≤ key a) = true := by
      apply List.pairwise_mergeSort
      · intro a b c
        simpa using fun ba cb => cb.trans ba
      · intro a b
        simpa using le_total (key b) (key a)
    exact sorted.imp of_decide_eq_true

/-- A key that refines another orders by the other as well. -/
theorem Descending.fst [LinearOrder γ] {first : α → β} {second : α → γ}
    (held : Descending (fun a => toLex (first a, second a)) source result) :
    Descending first source result where
  perm := held.perm
  sorted := held.sorted.imp fun {_ _} lower => by
    rw [Prod.Lex.toLex_le_toLex] at lower
    rcases lower with below | ⟨same, -⟩
    · exact below.le
    · exact same.le

/-- The keys come in one order only. -/
theorem Descending.map_key (left : Descending key source result)
    (right : Descending key source ordered) : result.map key = ordered.map key := by
  apply List.Perm.eq_of_sortedGE
  · exact (List.pairwise_map.mpr left.sorted).sortedGE
  · exact (List.pairwise_map.mpr right.sorted).sortedGE
  · exact (left.perm.trans right.perm.symm).map key

/-- Two entries of one key may change places. -/
theorem Descending.swap {before between after : List α} {a b : α} (same : key a = key b)
    (held : Descending key source (before ++ a :: (between ++ b :: after))) :
    Descending key source (before ++ b :: (between ++ a :: after)) where
  perm := by
    have exchanged : (b :: (between ++ a :: after)).Perm (a :: (between ++ b :: after)) := by
      apply (List.perm_middle.cons b).trans
      apply (List.Perm.swap a b _).trans
      exact (List.perm_middle.cons a).symm
    exact (exchanged.append_left before).trans held.perm
  sorted := by
    have keys : (before ++ b :: (between ++ a :: after)).map key =
        (before ++ a :: (between ++ b :: after)).map key := by
      simp [same]
    have sorted : ((before ++ a :: (between ++ b :: after)).map key).Pairwise (· ≥ ·) :=
      List.pairwise_map.mpr held.sorted
    rw [← keys] at sorted
    exact List.pairwise_map.mp sorted

/-! ### The first entries -/

/-- Of an entry among the first `n` and another one the earlier is among the first `n`. -/
private theorem pair_cases {n : Nat} {entries : List α} {a b : α} (at_a : a ∈ entries.take n)
    (at_b : b ∈ entries) : a = b ∨ ∃ before between after, before.length < n ∧
      (entries = before ++ a :: (between ++ b :: after) ∨
        entries = before ++ b :: (between ++ a :: after)) := by
  obtain ⟨i, low, rfl⟩ := List.mem_take_iff_getElem.mp at_a
  have shape : entries = entries.take i ++ entries[i] :: entries.drop (i + 1) := by
    rw [List.getElem_cons_drop, List.take_append_drop]
  have short : (entries.take i).length < n := by
    rw [List.length_take]
    omega
  generalize entries[i] = a at shape ⊢
  generalize entries.take i = before at shape short
  generalize entries.drop (i + 1) = after at shape
  rw [shape] at at_b
  rcases List.mem_append.mp at_b with earlier | rest
  · obtain ⟨front, between, rfl⟩ := List.append_of_mem earlier
    refine .inr ⟨front, between, after, ?_, .inr (by simp [shape])⟩
    rw [List.length_append] at short
    omega
  · rcases List.mem_cons.mp rest with rfl | later
    · exact .inl rfl
    · obtain ⟨between, back, rfl⟩ := List.append_of_mem later
      exact .inr ⟨before, between, back, short, .inl shape⟩

/-- All answers of the first `n` entries show the same if no tie with one of them shows. -/
theorem take_map_eq_iff {n : Nat} {shown : α → γ} (held : Descending key source ordered) :
    (∀ result, Descending key source result → (result.take n).map shown = (ordered.take n).map shown) ↔
      ∀ a ∈ ordered.take n, ∀ b ∈ ordered, key a = key b → shown a = shown b := by
  constructor
  · intro determined a at_a b at_b same
    rcases pair_cases at_a at_b with rfl | ⟨before, between, after, short, shape⟩
    · rfl
    -- with the two exchanged, the other one is shown at that place
    · have at_place : ∀ c tail, ((before ++ c :: tail).take n).map shown =
          before.map shown ++ shown c :: ((tail.take (n - before.length - 1)).map shown) := by
        intro c tail
        rw [List.take_append, List.take_of_length_le short.le, List.map_append]
        obtain ⟨rest, rest_eq⟩ : ∃ rest, n - before.length = rest + 1 := ⟨n - before.length - 1, by omega⟩
        rw [rest_eq, List.take_succ_cons, List.map_cons, Nat.add_sub_cancel]
      rcases shape with rfl | rfl
      · have same_shown := determined _ (held.swap same)
        rw [at_place, at_place, List.append_cancel_left_eq] at same_shown
        exact (List.cons.inj same_shown).1.symm
      · have same_shown := determined _ (held.swap same.symm)
        rw [at_place, at_place, List.append_cancel_left_eq] at same_shown
        exact (List.cons.inj same_shown).1
  · intro tied result other
    have keys := other.map_key held
    have long : result.length = ordered.length := (other.perm.trans held.perm.symm).length_eq
    apply List.ext_getElem
    · simp [long]
    · intro i low low'
      simp only [List.length_map, List.length_take, Nat.lt_min] at low low'
      obtain ⟨first, in_result⟩ := low
      obtain ⟨-, in_ordered⟩ := low'
      simp only [List.getElem_map, List.getElem_take]
      have same : key ordered[i] = key result[i] := by
        have at_i := congrArg (fun keys => keys[i]?) keys
        simpa [in_result, in_ordered, eq_comm] using at_i
      have member : result[i] ∈ ordered :=
        (other.perm.trans held.perm.symm).mem_iff.mp (List.getElem_mem _)
      exact (tied _ (List.mem_take_iff_getElem.mpr ⟨i, by omega, rfl⟩) _ member same).symm

/-! ### The first entry with a property -/

/-- No entry with the property ranks above the first one. -/
theorem Descending.le_of_find? {p : α → Bool} {a b : α} (held : Descending key source result)
    (found : result.find? p = some a) (member : b ∈ result) (holds : p b) : key b ≤ key a := by
  obtain ⟨-, before, after, rfl, without⟩ := List.find?_eq_some_iff_append.mp found
  rcases List.mem_append.mp member with earlier | rest
  · exact absurd holds (by simpa using without b earlier)
  · rcases List.mem_cons.mp rest with rfl | later
    · exact le_rfl
    · have sorted := (List.pairwise_append.mp held.sorted).2.1
      exact (List.pairwise_cons.mp sorted).1 b later

/-- In all orders the first entry with a property shows the same if no tie with it shows. -/
theorem find?_map_eq_iff {p : α → Bool} {shown : α → γ} {a : α}
    (held : Descending key source ordered) (first : ordered.find? p = some a) :
    (∀ result, Descending key source result → (result.find? p).map shown = some (shown a)) ↔
      ∀ b ∈ ordered, p b → key b = key a → shown b = shown a := by
  constructor
  · intro determined b member holds same
    obtain ⟨-, before, after, rfl, without⟩ := List.find?_eq_some_iff_append.mp first
    rcases List.mem_append.mp member with earlier | rest
    · exact absurd holds (by simpa using without b earlier)
    · rcases List.mem_cons.mp rest with rfl | later
      · rfl
      · obtain ⟨between, back, rfl⟩ := List.append_of_mem later
        have swapped := determined _ (held.swap same.symm)
        have found : (before ++ b :: (between ++ a :: back)).find? p = some b :=
          List.find?_eq_some_iff_append.mpr ⟨holds, before, _, rfl, without⟩
        rw [found] at swapped
        exact Option.some.inj swapped
  · intro tied result other
    have same_entries := other.perm.trans held.perm.symm
    have in_ordered := List.mem_of_find?_eq_some first
    have holds := List.find?_some first
    obtain ⟨b, found⟩ := Option.isSome_iff_exists.mp
      (List.find?_isSome.mpr ⟨a, same_entries.mem_iff.mpr in_ordered, holds⟩)
    have in_result := same_entries.mem_iff.mp (List.mem_of_find?_eq_some found)
    have b_holds := List.find?_some found
    have same : key b = key a := le_antisymm (held.le_of_find? first in_result b_holds)
      (other.le_of_find? found (same_entries.mem_iff.mpr in_ordered) holds)
    rw [found, Option.map_some, tied b in_result b_holds same]

end OrderBy
