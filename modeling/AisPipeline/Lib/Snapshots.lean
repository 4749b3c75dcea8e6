import Mathlib.Data.List.DropRight

/-!
# Stores that can lose their last commits

Every commit leaves a version behind it, which a crash may bring back until the
store has been synced. What is kept by every commit then holds of every version
that can come back, with the commits that led to it.
-/
namespace Snapshots

variable {δ υ : Type*}

/-- The current version, and those before it that can still come back, newest first. -/
structure Store (δ : Type*) where
  current : δ
  older : List δ := []

namespace Store

def commit (store : Store δ) (version : δ) : Store δ :=
  ⟨version, store.current :: store.older⟩

/-- Only the newest `kept` older versions can still come back. -/
def sync (store : Store δ) (kept : Nat) : Store δ := ⟨store.current, store.older.take kept⟩

/-- The last commits are undone, if so many can be. -/
def cut (store : Store δ) (lost : Nat) : Option (Store δ) :=
  match (store.current :: store.older).drop lost with
  | [] => none
  | version :: older => some ⟨version, older⟩

end Store

/-- What a history records. -/
inductive Change (υ : Type*) where
  | committed (unit : υ)
  | lost (count : Nat)

def Change.apply (units : List υ) : Change υ → List υ
  | .committed unit => units ++ [unit]
  | .lost count => units.rdrop count

/-- The commits that are left. -/
def surviving (changes : List (Change υ)) : List υ := changes.foldl Change.apply []

@[simp] theorem surviving_append (changes : List (Change υ)) (change : Change υ) :
    surviving (changes ++ [change]) = change.apply (surviving changes) := by
  simp [surviving]

/-- What nothing is lost of is left. -/
theorem surviving_append_committed (changes : List (Change υ)) (units : List υ) :
    surviving (changes ++ units.map .committed) = surviving changes ++ units := by
  induction units using List.reverseRecOn with
  | nil => simp
  | append_singleton units unit ih =>
    rw [List.map_append, ← List.append_assoc, List.map_singleton, surviving_append, ih,
      Change.apply, List.append_assoc]

/-- Each version satisfies `Inv` with the commits up to it. -/
structure Store.Holds (Inv : List υ → δ → Prop) (units : List υ) (store : Store δ) : Prop where
  enough : store.older.length ≤ units.length
  versions : ∀ lost version, (store.current :: store.older)[lost]? = some version →
    Inv (units.rdrop lost) version

namespace Store.Holds

variable {Inv : List υ → δ → Prop} {units : List υ} {store : Store δ}

theorem start {version : δ} (holds : Inv [] version) : Holds Inv [] ⟨version, []⟩ where
  enough := le_rfl
  versions lost found at_ := by
    obtain ⟨-, rfl⟩ := List.getElem?_eq_some_iff.mp at_
    simpa using holds

theorem current (holds : Holds Inv units store) : Inv units store.current := by
  simpa using holds.versions 0 store.current rfl

theorem commit (holds : Holds Inv units store) {unit : υ} {version : δ}
    (kept : Inv (units ++ [unit]) version) : Holds Inv (units ++ [unit]) (store.commit version) where
  enough := by
    have enough := holds.enough
    simp only [Store.commit, List.length_cons, List.length_append, List.length_nil]
    omega
  versions lost found at_ := by
    cases lost with
    | zero =>
      cases at_
      rwa [List.rdrop_zero]
    | succ lost =>
      rw [List.rdrop_concat_succ]
      exact holds.versions lost found at_

theorem sync (holds : Holds Inv units store) (kept : Nat) : Holds Inv units (store.sync kept) where
  enough := (List.take_sublist kept store.older).length_le.trans holds.enough
  versions lost found at_ := by
    refine holds.versions lost found ?_
    cases lost with
    | zero => exact at_
    | succ lost =>
      have found_at : (store.older.take kept)[lost]? = some found := at_
      rw [List.getElem?_take] at found_at
      split at found_at
      next => exact found_at
      next => cases found_at

/-- An older version comes back together with the commits it had. -/
theorem cut (holds : Holds Inv units store) {lost : Nat} {left : Store δ}
    (undone : store.cut lost = some left) : Holds Inv (units.rdrop lost) left := by
  have shape : (store.current :: store.older).drop lost = left.current :: left.older := by
    unfold Store.cut at undone
    split at undone
    next => cases undone
    next version older shape =>
      cases undone
      exact shape
  constructor
  · have lengths := congrArg List.length shape
    have enough := holds.enough
    simp only [List.length_drop, List.length_cons, List.rdrop, List.length_take] at lengths ⊢
    omega
  · intro further version at_
    rw [← shape, List.getElem?_drop] at at_
    have found := holds.versions (lost + further) version at_
    have same : (units.rdrop lost).rdrop further = units.rdrop (lost + further) := by
      simp only [List.rdrop, List.take_take, List.length_take]
      congr 1
      omega
    rwa [same]

end Store.Holds

end Snapshots
