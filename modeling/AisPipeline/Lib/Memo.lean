import Mathlib.Data.Finset.Card

/-!
# Tables that build a value once

A request gets the value that was built for its key before, or builds it and
keeps it. A computation that goes through the table request by request may count
on what it has been given: nothing is built again or taken away.
-/

/-- The values in the order they were built. The place of a value is its identity. -/
structure Memo (κ ν : Type) where
  built : List (κ × ν) := []

namespace Memo

variable {κ ν α β γ : Type}

def request [DecidableEq κ] (key : κ) (value : ν) : StateM (Memo κ ν) Nat := fun memo =>
  match memo.built.findIdx? fun entry => entry.1 = key with
  | some i => (i, memo)
  | none => (memo.built.length, ⟨memo.built ++ [(key, value)]⟩)

/-! ### Growing -/

/-- Nothing that was built is gone or has moved. -/
def Grows (before after : Memo κ ν) : Prop := before.built <+: after.built

theorem Grows.refl (memo : Memo κ ν) : memo.Grows memo := List.prefix_refl _

theorem Grows.trans {first second third : Memo κ ν} (grows : first.Grows second)
    (later : second.Grows third) : first.Grows third :=
  List.IsPrefix.trans grows later

/-- The value of a request is at this place. -/
def Holds (memo : Memo κ ν) (i : Nat) (key : κ) (value : ν) : Prop :=
  memo.built[i]? = some (key, value)

theorem Grows.holds {before after : Memo κ ν} (grows : before.Grows after) {i : Nat} {key : κ}
    {value : ν} (holds : before.Holds i key value) : after.Holds i key value := by
  obtain ⟨later, same⟩ := grows
  have inside : i < before.built.length := (List.getElem?_eq_some_iff.mp holds).1
  rw [Holds, ← same, List.getElem?_append_left inside]
  exact holds

/-! ### Computations -/

/-- From every table with `Inv` the computation leads to a larger one with `Inv`, and its result is
as said. -/
def Yields (Inv : Memo κ ν → Prop) (computation : StateM (Memo κ ν) γ) (said : Memo κ ν → γ → Prop) :
    Prop :=
  ∀ memo, Inv memo → Inv (computation memo).2 ∧ memo.Grows (computation memo).2 ∧
    said (computation memo).2 (computation memo).1

/-- What is said of a result stays true while the table grows. -/
def Lasting (said : Memo κ ν → γ → Prop) : Prop :=
  ∀ {before after result}, before.Grows after → said before result → said after result

variable {Inv : Memo κ ν → Prop}

theorem Yields.map {computation : StateM (Memo κ ν) γ} {said : Memo κ ν → γ → Prop}
    {said' : Memo κ ν → β → Prop} (yields : Yields Inv computation said) (f : γ → β)
    (implies : ∀ memo result, said memo result → said' memo (f result)) :
    Yields Inv (f <$> computation) said' := by
  intro memo inv
  obtain ⟨kept, grows, holds⟩ := yields memo inv
  exact ⟨kept, grows, implies _ _ holds⟩

/-- A computation for each element of a list, one after the other. -/
theorem Yields.mapM {computation : α → StateM (Memo κ ν) γ} {said : α → Memo κ ν → γ → Prop}
    {elements : List α} (lasting : ∀ a, Lasting (said a))
    (yields : ∀ a ∈ elements, Yields Inv (computation a) (said a)) :
    Yields Inv (elements.mapM computation) fun memo results =>
      List.Forall₂ (fun a result => said a memo result) elements results := by
  induction elements with
  | nil => exact fun memo inv => ⟨inv, .refl memo, .nil⟩
  | cons a elements ih =>
    intro memo inv
    rw [List.mapM_cons]
    obtain ⟨kept, grows, holds⟩ := yields a List.mem_cons_self memo inv
    obtain ⟨kept', grows', rest⟩ := ih (fun a member => yields a (List.mem_cons_of_mem _ member)) _ kept
    -- the first result outlives what the rest of the list builds
    exact ⟨kept', grows.trans grows', .cons (lasting a grows' holds) rest⟩

/-! ### What is in the table -/

/-- Each key is there once, with the value of something that was asked for. -/
structure Sound (key : α → κ) (value : α → ν) (Asked : α → Prop) (memo : Memo κ ν) : Prop where
  once : (memo.built.map Prod.fst).Nodup
  made : ∀ entry ∈ memo.built, ∃ a, Asked a ∧ entry = (key a, value a)

variable {key : α → κ} {value : α → ν} {Asked : α → Prop} {memo : Memo κ ν}

theorem sound_empty : Sound key value Asked ({} : Memo κ ν) where
  once := List.nodup_nil
  made := fun _ member => absurd member List.not_mem_nil

/-- Where the keys tell the values apart, every request gets its own value. -/
theorem request_yields [DecidableEq κ]
    (apart : ∀ a b, Asked a → Asked b → key a = key b → value a = value b) {a : α} (asked : Asked a) :
    Yields (Sound key value Asked) (request (key a) (value a)) fun memo i =>
      memo.Holds i (key a) (value a) := by
  intro memo sound
  rw [request]
  split
  next i found =>
    -- a hit: what is there was built for something with the same key
    obtain ⟨inside, hit, -⟩ := List.findIdx?_eq_some_iff_getElem.mp found
    obtain ⟨b, asked', made⟩ := sound.made _ (List.getElem_mem inside)
    have keys : key b = key a := by simpa [made] using hit
    refine ⟨sound, .refl memo, (List.getElem?_eq_getElem inside).trans ?_⟩
    rw [made, keys, apart b a asked' asked keys]
  next missing =>
    -- a miss: the key is new, so it is there once
    have absent : ∀ entry ∈ memo.built, entry.1 ≠ key a := by
      simpa using List.findIdx?_eq_none_iff.mp missing
    refine ⟨⟨?_, fun entry member => ?_⟩, List.prefix_append _ _, List.getElem?_concat_length ..⟩
    · rw [List.map_append, List.nodup_append]
      refine ⟨sound.once, List.nodup_singleton _, ?_⟩
      rintro _ old _ new rfl
      obtain ⟨entry, member, rfl⟩ := List.mem_map.mp old
      exact absent entry member (List.mem_singleton.mp new)
    · rcases List.mem_append.mp member with old | new
      · exact sound.made entry old
      · exact ⟨a, asked, List.mem_singleton.mp new⟩

/-- Two requests get the same value, not only equal ones, if their keys are the same. -/
theorem Sound.same_iff (sound : Sound key value Asked memo) {i j : Nat} {first second : κ} {v w : ν}
    (holds : memo.Holds i first v) (holds' : memo.Holds j second w) : i = j ↔ first = second := by
  constructor
  · rintro rfl
    exact congrArg Prod.fst (Option.some.inj (holds.symm.trans holds'))
  · rintro rfl
    have at_i : (memo.built.map Prod.fst)[i]? = some first := by rw [List.getElem?_map, holds]; rfl
    have at_j : (memo.built.map Prod.fst)[j]? = some first := by rw [List.getElem?_map, holds']; rfl
    have inside : i < (memo.built.map Prod.fst).length := (List.getElem?_eq_some_iff.mp at_i).1
    exact (List.getElem?_inj inside sound.once).mp (at_i.trans at_j.symm)

/-- No more is built than there are keys to ask for. -/
theorem Sound.length_le [DecidableEq κ] (sound : Sound key value Asked memo) (keys : Finset κ)
    (few : ∀ a, Asked a → key a ∈ keys) : memo.built.length ≤ keys.card := by
  have inside : (memo.built.map Prod.fst).toFinset ⊆ keys := by
    intro k member
    obtain ⟨entry, held, rfl⟩ := List.mem_map.mp (List.mem_toFinset.mp member)
    obtain ⟨a, asked, rfl⟩ := sound.made entry held
    exact few a asked
  have counted := Finset.card_le_card inside
  rwa [List.toFinset_card_of_nodup sound.once, List.length_map] at counted

end Memo
