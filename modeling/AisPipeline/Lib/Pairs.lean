import Mathlib.Data.List.Basic

/-!
# Lists of named values

A list of pairs that is read by name, where a name may stand more than once.
Setting a name leaves one pair of it, in the place of the first; all other
pairs stay as they are.
-/
namespace Pairs

variable {κ ν : Type*} [DecidableEq κ]

/-- The first value of a name. -/
def get? (pairs : List (κ × ν)) (key : κ) : Option ν :=
  (pairs.find? fun pair => pair.1 = key).map Prod.snd

def set (pairs : List (κ × ν)) (key : κ) (value : ν) : List (κ × ν) :=
  match pairs with
  | [] => [(key, value)]
  | pair :: pairs =>
    if pair.1 = key then (key, value) :: pairs.filter fun pair => pair.1 ≠ key
    else pair :: set pairs key value

def delete (pairs : List (κ × ν)) (key : κ) : List (κ × ν) := pairs.filter fun pair => pair.1 ≠ key

variable {pairs : List (κ × ν)} {key other : κ} {value : ν}

@[simp] theorem get?_set_self : get? (set pairs key value) key = some value := by
  induction pairs with
  | nil => simp [set, get?]
  | cons pair pairs ih =>
    rw [set]
    split
    next => simp [get?]
    next different =>
      rw [get?, List.find?_cons_of_neg (by simpa using different)]
      exact ih

/-- What does not look at a name does not see it set. -/
theorem filter_set {test : κ × ν → Bool} (blind : ∀ value, test (key, value) = false) :
    (set pairs key value).filter test = pairs.filter test := by
  have hidden (pair : κ × ν) (same : pair.1 = key) : test pair = false := by
    rw [← blind pair.2, ← same]
  induction pairs with
  | nil => simp [set, blind]
  | cons pair pairs ih =>
    rw [set]
    split
    next same =>
      rw [List.filter_cons_of_neg (by simp [blind]), List.filter_cons_of_neg (by simp [hidden pair same]),
        List.filter_filter]
      apply List.filter_congr
      intro later _
      by_cases again : later.1 = key
      · simp [hidden later again]
      · simp [again]
    next different =>
      by_cases seen : test pair = true
      · rw [List.filter_cons_of_pos seen, List.filter_cons_of_pos seen, ih]
      · rw [List.filter_cons_of_neg seen, List.filter_cons_of_neg seen, ih]

theorem filter_delete {test : κ × ν → Bool} (blind : ∀ value, test (key, value) = false) :
    (delete pairs key).filter test = pairs.filter test := by
  rw [delete, List.filter_filter]
  apply List.filter_congr
  intro pair _
  by_cases same : pair.1 = key
  · have hidden : test pair = false := by rw [← blind pair.2, ← same]
    simp [hidden]
  · simp [same]

theorem get?_eq_head? (pairs : List (κ × ν)) (key : κ) :
    get? pairs key = ((pairs.filter fun pair => pair.1 = key).head?).map Prod.snd := by
  rw [get?, List.head?_filter]

theorem get?_set_other (different : other ≠ key) : get? (set pairs key value) other = get? pairs other := by
  rw [get?_eq_head?, get?_eq_head?, filter_set fun _ => by simpa using Ne.symm different]

@[simp] theorem get?_delete_self : get? (delete pairs key) key = none := by
  simp [get?, delete]

theorem get?_delete_other (different : other ≠ key) : get? (delete pairs key) other = get? pairs other := by
  rw [get?_eq_head?, get?_eq_head?, filter_delete fun _ => by simpa using Ne.symm different]

end Pairs
