import Mathlib.Data.Set.Finite.Lemmas
import Mathlib.Order.Interval.Set.Basic

/-!
# The gaps of a set

Two members of a set in a linear order with none between them. A new member
splits the gap it falls into and leaves the others alone.
-/
namespace Gaps

variable {α : Type*} [LinearOrder α]

/-- Neighbouring members of the set. -/
structure Gap (s : Set α) (low high : α) : Prop where
  low_mem : low ∈ s
  high_mem : high ∈ s
  lt : low < high
  empty : ∀ x ∈ Set.Ioo low high, x ∉ s

variable {s : Set α} {low high a b x : α}

/-- A point lies in one gap at most. -/
theorem Gap.unique (one : Gap s low high) (other : Gap s a b) (inOne : x ∈ Set.Ioo low high)
    (inOther : x ∈ Set.Ioo a b) : a = low ∧ b = high := by
  constructor
  · rcases lt_trichotomy a low with before | same | after
    · exact absurd one.low_mem (other.empty low ⟨before, inOne.1.trans inOther.2⟩)
    · exact same
    · exact absurd other.low_mem (one.empty a ⟨after, inOther.1.trans inOne.2⟩)
  · rcases lt_trichotomy b high with before | same | after
    · exact absurd other.high_mem (one.empty b ⟨inOne.1.trans inOther.2, before⟩)
    · exact same
    · exact absurd one.high_mem (other.empty high ⟨inOther.1.trans inOne.2, after⟩)

/-- A new member turns the gap around it into two. -/
theorem Gap.insert_iff (gap : Gap s low high) (inside : x ∈ Set.Ioo low high) :
    Gap (insert x s) a b ↔
      (Gap s a b ∧ ¬ (a = low ∧ b = high)) ∨ (a = low ∧ b = x) ∨ (a = x ∧ b = high) := by
  have fresh : x ∉ s := gap.empty x inside
  constructor
  · rintro ⟨low_mem, high_mem, lt, empty⟩
    have without (y : α) (between : y ∈ Set.Ioo a b) : y ∉ s :=
      fun member => empty y between (Set.mem_insert_of_mem x member)
    rcases low_mem with rfl | low_mem
    · -- the gap above the new member
      right
      right
      refine ⟨rfl, ?_⟩
      rcases high_mem with rfl | high_mem
      · exact absurd lt (lt_irrefl _)
      · rcases lt_trichotomy b high with before | same | after
        · exact absurd high_mem (gap.empty b ⟨inside.1.trans lt, before⟩)
        · exact same
        · exact absurd gap.high_mem (without high ⟨inside.2, after⟩)
    · rcases high_mem with rfl | high_mem
      · -- the gap below it
        right
        left
        refine ⟨?_, rfl⟩
        rcases lt_trichotomy a low with before | same | after
        · exact absurd gap.low_mem (without low ⟨before, inside.1⟩)
        · exact same
        · exact absurd low_mem (gap.empty a ⟨after, lt.trans inside.2⟩)
      · left
        refine ⟨⟨low_mem, high_mem, lt, without⟩, ?_⟩
        rintro ⟨rfl, rfl⟩
        exact empty x inside (Set.mem_insert x s)
  · rintro (⟨other, distinct⟩ | ⟨rfl, rfl⟩ | ⟨rfl, rfl⟩)
    · refine ⟨Set.mem_insert_of_mem x other.low_mem, Set.mem_insert_of_mem x other.high_mem, other.lt, ?_⟩
      rintro y between (rfl | member)
      · exact distinct (gap.unique other inside between)
      · exact other.empty y between member
    · refine ⟨Set.mem_insert_of_mem b gap.low_mem, Set.mem_insert b s, inside.1, ?_⟩
      rintro y between (rfl | member)
      · exact lt_irrefl _ between.2
      · exact gap.empty y ⟨between.1, between.2.trans inside.2⟩ member
    · refine ⟨Set.mem_insert a s, Set.mem_insert_of_mem a gap.high_mem, inside.2, ?_⟩
      rintro y between (rfl | member)
      · exact lt_irrefl _ between.1
      · exact gap.empty y ⟨inside.1.trans between.1, between.2⟩ member

/-- A point outside a finite set, with members on both sides, lies in a gap. -/
theorem exists_gap (finite : s.Finite) (outside : x ∉ s) (below : ∃ y ∈ s, y < x)
    (above : ∃ y ∈ s, x < y) : ∃ low high, Gap s low high ∧ x ∈ Set.Ioo low high := by
  obtain ⟨low, ⟨low_mem, low_lt⟩, greatest⟩ :=
    Set.exists_max_image {y ∈ s | y < x} id (finite.subset (Set.sep_subset ..)) below
  obtain ⟨high, ⟨high_mem, lt_high⟩, least⟩ :=
    Set.exists_min_image {y ∈ s | x < y} id (finite.subset (Set.sep_subset ..)) above
  refine ⟨low, high, ⟨low_mem, high_mem, low_lt.trans lt_high, ?_⟩, low_lt, lt_high⟩
  intro y between member
  rcases lt_trichotomy y x with before | same | after
  · exact absurd (greatest y ⟨member, before⟩) (not_le.mpr between.1)
  · exact outside (same ▸ member)
  · exact absurd (least y ⟨member, after⟩) (not_le.mpr between.2)

end Gaps
