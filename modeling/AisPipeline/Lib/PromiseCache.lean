import Mathlib.Data.List.Basic
import Mathlib.Logic.Function.Basic

/-!
# Caches of promises

A request for a key gets the promise the cache holds for it, or starts a fetch
and puts its promise there. A fetch that fails takes its promise out again, so
that the next request tries anew. Of all fetches of a key at most one is then
out or has succeeded.
-/
namespace PromiseCache

variable {κ ν ε : Type*}

inductive Promise (ν ε : Type*) where
  | pending
  | fulfilled (value : ν)
  | rejected (err : ε)

structure Fetch (κ ν ε : Type*) where
  key : κ
  promise : Promise ν ε := .pending

/-- All fetches, the oldest first, and where the promise held for a key is among them. -/
structure Cache (κ ν ε : Type*) where
  fetches : List (Fetch κ ν ε) := []
  cached : κ → Option Nat := fun _ => none

namespace Cache

def settle (cache : Cache κ ν ε) (i : Nat) (promise : Promise ν ε) : Cache κ ν ε :=
  { cache with fetches := cache.fetches.modify i fun fetch => { fetch with promise := promise } }

/-- What the promise has come to. -/
def value? (cache : Cache κ ν ε) (i : Nat) : Option ν :=
  match cache.fetches[i]? with
  | some ⟨_, .fulfilled value⟩ => some value
  | _ => none

variable [DecidableEq κ]

/-- The promise for a key. -/
def request (cache : Cache κ ν ε) (key : κ) : Cache κ ν ε × Nat :=
  match cache.cached key with
  | some i => (cache, i)
  | none =>
    ({ fetches := cache.fetches ++ [{ key := key }]
       cached := Function.update cache.cached key (some cache.fetches.length) },
      cache.fetches.length)

/-- One request after the other. -/
def requestAll (cache : Cache κ ν ε) : List κ → Cache κ ν ε × List (κ × Nat)
  | [] => (cache, [])
  | key :: keys =>
    let (cache, i) := cache.request key
    let (cache, rest) := cache.requestAll keys
    (cache, (key, i) :: rest)

/-- A fetch fails, and its key is deleted. -/
def fail (cache : Cache κ ν ε) (i : Nat) (key : κ) (err : ε) : Cache κ ν ε :=
  { cache.settle i (.rejected err) with cached := Function.update cache.cached key none }

end Cache

/-- The fetch has not failed. -/
def Fetch.Live (fetch : Fetch κ ν ε) : Prop := ∀ err, fetch.promise ≠ .rejected err

theorem Fetch.not_live_iff {fetch : Fetch κ ν ε} :
    ¬ fetch.Live ↔ ∃ err, fetch.promise = .rejected err := by
  simp [Fetch.Live]

/-- The cache holds the promises of the fetches that have not failed, and a key was fetched again
only when its last fetch had failed. -/
structure Cache.Sound (cache : Cache κ ν ε) : Prop where
  held : ∀ key i, cache.cached key = some i ↔
    ∃ fetch, cache.fetches[i]? = some fetch ∧ fetch.key = key ∧ fetch.Live
  retried : ∀ (i j : Nat) (first second : Fetch κ ν ε), i < j → cache.fetches[i]? = some first →
    cache.fetches[j]? = some second → first.key = second.key → ¬ first.Live

/-- One state of the cache after another: no fetch is forgotten, and what has been settled stays. -/
def Cache.Grows (before after : Cache κ ν ε) : Prop :=
  ∀ (i : Nat) fetch, before.fetches[i]? = some fetch →
    ∃ later, after.fetches[i]? = some later ∧ later.key = fetch.key ∧
      (fetch.promise = .pending ∨ later.promise = fetch.promise)

namespace Cache

variable {cache : Cache κ ν ε}

theorem sound_empty : Sound ({} : Cache κ ν ε) := ⟨by simp, by simp⟩

/-- One fetch of a key is live at most. -/
theorem Sound.unique (sound : cache.Sound) {i j : Nat} {first second : Fetch κ ν ε}
    (at_i : cache.fetches[i]? = some first) (at_j : cache.fetches[j]? = some second)
    (same : first.key = second.key) (live : first.Live) (live' : second.Live) : i = j := by
  have held := (sound.held first.key i).mpr ⟨first, at_i, rfl, live⟩
  have held' := (sound.held first.key j).mpr ⟨second, at_j, same.symm, live'⟩
  exact Option.some.inj (held.symm.trans held')

theorem value?_eq_some_iff {i : Nat} {value : ν} :
    cache.value? i = some value ↔
      ∃ fetch, cache.fetches[i]? = some fetch ∧ fetch.promise = .fulfilled value := by
  unfold value?
  cases cache.fetches[i]? with
  | none => simp
  | some fetch =>
    obtain ⟨key, promise⟩ := fetch
    cases promise <;> simp

/-! ### Growing -/

theorem Grows.refl (cache : Cache κ ν ε) : cache.Grows cache :=
  fun _ fetch at_i => ⟨fetch, at_i, rfl, .inr rfl⟩

theorem Grows.trans {a b c : Cache κ ν ε} (first : a.Grows b) (second : b.Grows c) : a.Grows c := by
  intro i fetch at_i
  obtain ⟨middle, at_middle, key, settled⟩ := first i fetch at_i
  obtain ⟨later, at_later, key', settled'⟩ := second i middle at_middle
  refine ⟨later, at_later, key'.trans key, ?_⟩
  rcases settled with pending | same
  · exact .inl pending
  · exact settled'.imp same.symm.trans fun same' => same'.trans same

theorem Grows.value? {after : Cache κ ν ε} (grows : cache.Grows after) {i : Nat} {value : ν}
    (fulfilled : cache.value? i = some value) : after.value? i = some value := by
  obtain ⟨fetch, at_i, promise⟩ := value?_eq_some_iff.mp fulfilled
  obtain ⟨later, at_later, -, pending | same⟩ := grows i fetch at_i
  · rw [promise] at pending
    cases pending
  · exact value?_eq_some_iff.mpr ⟨later, at_later, same.trans promise⟩

/-! ### Settling -/

theorem getElem?_settle (cache : Cache κ ν ε) (i j : Nat) (promise : Promise ν ε) :
    (cache.settle i promise).fetches[j]? =
      (cache.fetches[j]?).map fun fetch =>
        if i = j then { fetch with promise := promise } else fetch := by
  rw [settle, List.getElem?_modify]
  cases cache.fetches[j]? with
  | none => rfl
  | some fetch => split <;> rfl

/-- Settling touches no key. -/
theorem mem_settle {i : Nat} {promise : Promise ν ε} {fetch : Fetch κ ν ε}
    (member : fetch ∈ (cache.settle i promise).fetches) :
    ∃ old ∈ cache.fetches, fetch.key = old.key := by
  obtain ⟨j, at_j⟩ := List.mem_iff_getElem?.mp member
  rw [getElem?_settle, Option.map_eq_some_iff] at at_j
  obtain ⟨old, found, rfl⟩ := at_j
  refine ⟨old, List.mem_of_getElem? found, ?_⟩
  split
  · rfl
  · rfl

theorem grows_settle {i : Nat} {fetch : Fetch κ ν ε} (at_i : cache.fetches[i]? = some fetch)
    (pending : fetch.promise = .pending) (promise : Promise ν ε) :
    cache.Grows (cache.settle i promise) := by
  intro j other at_j
  rw [getElem?_settle, at_j, Option.map_some]
  by_cases same : i = j
  · subst same
    obtain rfl := Option.some.inj (at_i.symm.trans at_j)
    exact ⟨_, rfl, by rw [if_pos rfl], .inl pending⟩
  · exact ⟨_, rfl, by rw [if_neg same], .inr (by rw [if_neg same])⟩

/-- Settling one fetch leaves those that have failed before as they are. -/
private theorem Sound.retried_settle (sound : cache.Sound) {n : Nat} {fetch : Fetch κ ν ε}
    (at_n : cache.fetches[n]? = some fetch) (pending : fetch.promise = .pending)
    (promise : Promise ν ε) (i j : Nat) (first second : Fetch κ ν ε) (before : i < j)
    (at_i : (cache.settle n promise).fetches[i]? = some first)
    (at_j : (cache.settle n promise).fetches[j]? = some second) (same : first.key = second.key) :
    ¬ first.Live := by
  rw [getElem?_settle, Option.map_eq_some_iff] at at_i at_j
  obtain ⟨first', was, rfl⟩ := at_i
  obtain ⟨second', was', rfl⟩ := at_j
  have keys : first'.key = second'.key := by
    split at same
    · split at same
      · exact same
      · exact same
    · split at same
      · exact same
      · exact same
  have failed := sound.retried i j first' second' before was was' keys
  split
  next here =>
    subst here
    obtain rfl := Option.some.inj (at_n.symm.trans was)
    exact absurd (by simp [Fetch.Live, pending]) failed
  next => exact failed

theorem Sound.fulfil (sound : cache.Sound) {i : Nat} {fetch : Fetch κ ν ε}
    (at_i : cache.fetches[i]? = some fetch) (pending : fetch.promise = .pending) (value : ν) :
    (cache.settle i (.fulfilled value)).Sound := by
  refine ⟨fun key j => ?_, sound.retried_settle at_i pending _⟩
  rw [settle, ← settle, getElem?_settle]
  refine (sound.held key j).trans ?_
  by_cases same : i = j
  · subst same
    simp [at_i, Fetch.Live, pending]
  · simp [same]

variable [DecidableEq κ]

theorem cached_fail (cache : Cache κ ν ε) (i : Nat) (key other : κ) (err : ε) :
    (cache.fail i key err).cached other = if other = key then none else cache.cached other :=
  Function.update_apply ..

theorem Sound.fail (sound : cache.Sound) {i : Nat} {fetch : Fetch κ ν ε}
    (at_i : cache.fetches[i]? = some fetch) (pending : fetch.promise = .pending) (err : ε) :
    (cache.fail i fetch.key err).Sound := by
  have held := (sound.held fetch.key i).mpr ⟨fetch, at_i, rfl, by simp [Fetch.Live, pending]⟩
  refine ⟨fun key j => ?_, sound.retried_settle at_i pending _⟩
  have settled : (cache.fail i fetch.key err).fetches[j]? = _ :=
    getElem?_settle cache i j (.rejected err)
  rw [settled, cached_fail]
  by_cases same : i = j
  · subst same
    split
    next mine => simp [at_i, Fetch.Live]
    next other =>
      have elsewhere : cache.cached key ≠ some i := by
        rw [Ne, sound.held key i, at_i]
        rintro ⟨_, ⟨⟩, mine, -⟩
        exact other mine.symm
      simp [at_i, Fetch.Live, elsewhere]
  · simp only [same, if_false, Option.map_id']
    split
    next mine =>
      -- the promise held for the key is the one that fails
      subst mine
      constructor
      · nofun
      · intro found
        exact absurd (Option.some.inj (held.symm.trans ((sound.held _ j).mpr found))) same
    next other => exact sound.held key j

/-! ### Requesting -/

/-- What `request` does: it hands out a promise, or starts a fetch. -/
theorem request_cases (cache : Cache κ ν ε) (key : κ) :
    (∃ i, cache.cached key = some i ∧ cache.request key = (cache, i)) ∨
    (cache.cached key = none ∧ cache.request key =
      ({ fetches := cache.fetches ++ [{ key := key }]
         cached := Function.update cache.cached key (some cache.fetches.length) },
        cache.fetches.length)) := by
  cases held : cache.cached key with
  | some i => exact .inl ⟨i, rfl, by simp [request, held]⟩
  | none => exact .inr ⟨rfl, by simp [request, held]⟩

theorem grows_request (cache : Cache κ ν ε) (key : κ) : cache.Grows (cache.request key).1 := by
  rcases cache.request_cases key with ⟨i, -, same⟩ | ⟨-, started⟩
  · rw [same]
    exact .refl cache
  · rw [started]
    intro i fetch at_i
    refine ⟨fetch, ?_, rfl, .inr rfl⟩
    rw [List.getElem?_append_left (List.getElem?_eq_some_iff.mp at_i).1]
    exact at_i

theorem Sound.request (sound : cache.Sound) (key : κ) : (cache.request key).1.Sound := by
  rcases cache.request_cases key with ⟨i, -, same⟩ | ⟨missing, started⟩
  · rw [same]
    exact sound
  · rw [started]
    refine ⟨fun other i => ?_, fun i j first second before at_i at_j same => ?_⟩
    · simp only [Function.update_apply]
      have absent : cache.fetches[cache.fetches.length]? = none := List.getElem?_eq_none (Nat.le_refl _)
      by_cases last : i = cache.fetches.length
      · subst last
        rw [List.getElem?_concat_length]
        split
        next mine => simp [mine, Fetch.Live]
        next elsewhere =>
          have unheld : cache.cached other ≠ some cache.fetches.length := by
            rw [Ne, sound.held other, absent]
            nofun
          simp [unheld, Ne.symm elsewhere]
      · have before : (cache.fetches ++ [{ key := key }])[i]? = cache.fetches[i]? := by
          rcases Nat.lt_or_gt_of_ne last with inside | beyond
          · exact List.getElem?_append_left inside
          · rw [List.getElem?_eq_none (by simp; omega), List.getElem?_eq_none (by omega)]
        rw [before]
        split
        next mine =>
          subst mine
          rw [← sound.held other i, missing]
          simp [Ne.symm last]
        next elsewhere => exact sound.held other i
    · -- the key had no live fetch
      have inside := (List.getElem?_eq_some_iff.mp at_j).1
      rw [List.length_append, List.length_singleton] at inside
      have was : (cache.fetches ++ [{ key := key }])[i]? = cache.fetches[i]? :=
        List.getElem?_append_left (by omega)
      rw [was] at at_i
      by_cases last : j = cache.fetches.length
      · subst last
        rw [List.getElem?_concat_length] at at_j
        obtain rfl := Option.some.inj at_j
        intro live
        have held := (sound.held key i).mpr ⟨first, at_i, same, live⟩
        rw [missing] at held
        cases held
      · have was' : (cache.fetches ++ [{ key := key }])[j]? = cache.fetches[j]? :=
          List.getElem?_append_left (by omega)
        rw [was'] at at_j
        exact sound.retried i j first second before at_i at_j same

/-- The promise handed out belongs to a fetch of the key. -/
theorem Sound.request_key (sound : cache.Sound) (key : κ) :
    ∃ fetch, (cache.request key).1.fetches[(cache.request key).2]? = some fetch ∧
      fetch.key = key := by
  rcases cache.request_cases key with ⟨i, held, same⟩ | ⟨-, started⟩
  · rw [same]
    obtain ⟨fetch, at_i, mine, -⟩ := (sound.held key i).mp held
    exact ⟨fetch, at_i, mine⟩
  · rw [started]
    exact ⟨{ key := key }, List.getElem?_concat_length, rfl⟩

/-- A fetch is one there was, or of the key. -/
theorem mem_request {key : κ} {fetch : Fetch κ ν ε} (member : fetch ∈ (cache.request key).1.fetches) :
    fetch ∈ cache.fetches ∨ fetch.key = key := by
  rcases cache.request_cases key with ⟨i, -, same⟩ | ⟨-, started⟩
  · rw [same] at member
    exact .inl member
  · rw [started] at member
    rcases List.mem_append.mp member with earlier | new
    · exact .inl earlier
    · exact .inr (by rw [List.mem_singleton.mp new])

/-- The promises handed out for some keys belong to fetches of these keys, in their order. -/
theorem Sound.requestAll (sound : cache.Sound) (keys : List κ) :
    (cache.requestAll keys).1.Sound ∧ cache.Grows (cache.requestAll keys).1 ∧
      (cache.requestAll keys).2.map Prod.fst = keys ∧
      (∀ wait ∈ (cache.requestAll keys).2, ∃ fetch,
        (cache.requestAll keys).1.fetches[wait.2]? = some fetch ∧ fetch.key = wait.1) ∧
      ∀ fetch ∈ (cache.requestAll keys).1.fetches, fetch ∈ cache.fetches ∨ fetch.key ∈ keys := by
  induction keys generalizing cache with
  | nil => exact ⟨sound, .refl cache, rfl, by simp [Cache.requestAll], fun _ member => .inl member⟩
  | cons key keys ih =>
    obtain ⟨later, grows, waits, mine, members⟩ := ih (sound.request key)
    refine ⟨later, (cache.grows_request key).trans grows, ?_, ?_, ?_⟩
    · simp only [Cache.requestAll, List.map_cons, waits]
    · intro wait member
      rcases List.mem_cons.mp member with rfl | rest
      · obtain ⟨fetch, at_i, same⟩ := sound.request_key key
        obtain ⟨later, at_later, still, -⟩ := grows _ _ at_i
        exact ⟨later, at_later, still.trans same⟩
      · exact mine wait rest
    · intro fetch member
      rcases members fetch member with earlier | new
      · exact (mem_request earlier).imp_right fun same => List.mem_cons.mpr (.inl same)
      · exact .inr (List.mem_cons_of_mem key new)

end Cache

end PromiseCache
