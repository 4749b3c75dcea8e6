import Mathlib.Data.List.Infix

/-!
# Delimited stretches of a stream

The stretches of a text between an opening and a closing tag. A reader of a
stream that has dealt with the complete ones can go on from an unfinished one,
or from a tail as long as an opening tag.
-/
namespace Delimited

variable {α : Type*}

/-! ### Searching -/

/-- The text contains the other from this place on. -/
def OccursAt (needle text : List α) (i : Nat) : Prop := needle <+: text.drop i

section Occurrences

variable {needle text more : List α} {i : Nat}

/-- An occurrence of something ends inside the text. -/
theorem OccursAt.le (occurs : OccursAt needle text i) (nonempty : needle ≠ []) :
    i + needle.length ≤ text.length := by
  have size := occurs.length_le
  have positive := List.length_pos_of_ne_nil nonempty
  rw [List.length_drop] at size
  omega

/-- More text behind an occurrence leaves it where it is. -/
theorem OccursAt.append (occurs : OccursAt needle text i) (inside : i ≤ text.length) (more : List α) :
    OccursAt needle (text ++ more) i := by
  rw [OccursAt, List.drop_append_of_le_length inside]
  exact occurs.trans (List.prefix_append _ _)

/-- An occurrence that ends in the first part of a text is one in that part. -/
theorem OccursAt.of_append (occurs : OccursAt needle (text ++ more) i)
    (inside : i + needle.length ≤ text.length) : OccursAt needle text i := by
  rw [OccursAt, List.drop_append_of_le_length (by omega)] at occurs
  apply List.prefix_of_prefix_length_le occurs (List.prefix_append _ _)
  rw [List.length_drop]
  omega

end Occurrences

variable [DecidableEq α] {needle text more : List α} {i : Nat}

/-- The place where a text first contains another. -/
def first (needle text : List α) : Option Nat :=
  text.tails.findIdx? fun rest => decide (needle <+: rest)

theorem first_eq_some_iff :
    first needle text = some i ↔
      i ≤ text.length ∧ OccursAt needle text i ∧ ∀ j < i, ¬ OccursAt needle text j := by
  simp only [first, List.findIdx?_eq_some_iff_getElem, List.length_tails, List.getElem_tails,
    decide_eq_true_eq, OccursAt]
  constructor
  · rintro ⟨inside, occurs, before⟩
    exact ⟨Nat.le_of_lt_succ inside, occurs, before⟩
  · rintro ⟨inside, occurs, before⟩
    exact ⟨Nat.lt_succ_of_le inside, occurs, before⟩

theorem first_eq_none_iff : first needle text = none ↔ ∀ i, ¬ OccursAt needle text i := by
  rw [first, List.findIdx?_eq_none_iff]
  simp only [decide_eq_false_iff_not, List.mem_tails, OccursAt]
  constructor
  · intro absent i
    exact absent _ (List.drop_suffix i text)
  · rintro absent rest ⟨front, rfl⟩
    have here := absent front.length
    rwa [List.drop_left] at here

/-- What is found in a text is found there whatever follows. -/
theorem first_append (nonempty : needle ≠ []) (found : first needle text = some i) (more : List α) :
    first needle (text ++ more) = some i := by
  obtain ⟨inside, occurs, before⟩ := first_eq_some_iff.mp found
  refine first_eq_some_iff.mpr ⟨by rw [List.length_append]; omega, occurs.append inside more, ?_⟩
  intro j earlier again
  have ends := occurs.le nonempty
  exact before j earlier (again.of_append (by omega))

/-- A stretch in which nothing starts can be left out of a search. -/
theorem first_skip {skipped : Nat} (inside : skipped ≤ text.length)
    (absent : ∀ j < skipped, ¬ OccursAt needle text j) :
    first needle text = (first needle (text.drop skipped)).map (skipped + ·) := by
  have shifted (j : Nat) : OccursAt needle (text.drop skipped) j ↔ OccursAt needle text (skipped + j) := by
    rw [OccursAt, OccursAt, List.drop_drop]
  cases later : first needle (text.drop skipped) with
  | none =>
    rw [Option.map_none, first_eq_none_iff]
    rw [first_eq_none_iff] at later
    intro j occurs
    by_cases early : j < skipped
    · exact absent j early occurs
    · refine later (j - skipped) ((shifted _).mpr ?_)
      rwa [Nat.add_sub_of_le (not_lt.mp early)]
  | some j =>
    obtain ⟨fits, occurs, before⟩ := first_eq_some_iff.mp later
    rw [List.length_drop] at fits
    rw [Option.map_some, first_eq_some_iff]
    refine ⟨by omega, (shifted j).mp occurs, ?_⟩
    intro k earlier again
    by_cases early : k < skipped
    · exact absent k early again
    · refine before (k - skipped) (by omega) ((shifted _).mpr ?_)
      rwa [Nat.add_sub_of_le (not_lt.mp early)]

/-! ### The delimited stretches -/

/-- Two tags that start with the same mark. The closing tag has it nowhere else, and is longer than
the opening one. -/
structure Tags (α : Type*) where
  mark : α
  openRest : List α
  closeRest : List α
  mark_once : mark ∉ closeRest
  longer : openRest.length < closeRest.length

namespace Tags

def opening (tags : Tags α) : List α := tags.mark :: tags.openRest

def closing (tags : Tags α) : List α := tags.mark :: tags.closeRest

variable (tags : Tags α)

/-- The first complete stretch, from its opening tag up to its closing tag, and the text after. -/
def next (text : List α) : Option (List α × List α) :=
  match first tags.opening text with
  | none => none
  | some start =>
    match first tags.closing (text.drop start) with
    | none => none
    | some size =>
      some ((text.drop start).take size, text.drop (start + (size + tags.closing.length)))

variable {tags}

theorem next_eq_some_iff {feature rest : List α} :
    tags.next text = some (feature, rest) ↔ ∃ start size, first tags.opening text = some start ∧
      first tags.closing (text.drop start) = some size ∧ feature = (text.drop start).take size ∧
        rest = text.drop (start + (size + tags.closing.length)) := by
  rw [next]
  cases first tags.opening text with
  | none => simp
  | some start =>
    cases found : first tags.closing (text.drop start) with
    | none => simp [found]
    | some size => simp [found, eq_comm]

/-- A stretch ends with its closing tag, and the rest follows. -/
theorem next_split {feature rest : List α} (found : tags.next text = some (feature, rest)) :
    ∃ front, text = front ++ tags.closing ++ rest := by
  obtain ⟨start, size, -, closes, -, rfl⟩ := next_eq_some_iff.mp found
  obtain ⟨-, ⟨after, split⟩, -⟩ := first_eq_some_iff.mp closes
  rw [List.drop_drop] at split
  refine ⟨text.take (start + size), ?_⟩
  rw [← Nat.add_assoc, ← List.drop_drop, ← split, List.drop_left, List.append_assoc, split,
    List.take_append_drop]

theorem next_shorter {feature rest : List α} (found : tags.next text = some (feature, rest)) :
    rest.length < text.length := by
  obtain ⟨front, rfl⟩ := next_split found
  simp only [List.length_append, closing, List.length_cons]
  omega

variable (tags) in
/-- All complete stretches, in order. -/
def features (text : List α) : List (List α) :=
  match _ : tags.next text with
  | none => []
  | some (feature, rest) => feature :: features rest
termination_by text.length
decreasing_by exact next_shorter ‹_›

variable (tags) in
/-- The text behind the last complete stretch. -/
def remainder (text : List α) : List α :=
  match _ : tags.next text with
  | none => text
  | some (_, rest) => remainder rest
termination_by text.length
decreasing_by exact next_shorter ‹_›

variable (tags) in
/-- What a reader keeps of a text: a stretch that is not finished, or a tail of the text as long as
an opening tag. -/
def keep (text : List α) : List α :=
  match first tags.opening (tags.remainder text) with
  | some start => (tags.remainder text).drop start
  | none => text.drop (text.length - tags.opening.length)

theorem features_of_none (found : tags.next text = none) : tags.features text = [] := by
  rw [features]
  split
  · rfl
  next feature rest other =>
    rw [found] at other
    cases other

theorem features_of_some {feature rest : List α} (found : tags.next text = some (feature, rest)) :
    tags.features text = feature :: tags.features rest := by
  rw [features]
  split
  next other =>
    rw [found] at other
    cases other
  next other =>
    rw [found] at other
    cases other
    rfl

theorem remainder_of_none (found : tags.next text = none) : tags.remainder text = text := by
  rw [remainder]
  split
  · rfl
  next other =>
    rw [found] at other
    cases other

theorem remainder_of_some {feature rest : List α} (found : tags.next text = some (feature, rest)) :
    tags.remainder text = tags.remainder rest := by
  rw [remainder]
  split
  next other =>
    rw [found] at other
    cases other
  next other =>
    rw [found] at other
    cases other
    rfl

variable (tags) in
/-- A text without a complete stretch, or one and the rest of the text. -/
theorem text_induction {motive : List α → Prop}
    (unfinished : ∀ text, tags.next text = none → motive text)
    (finished : ∀ text feature rest, tags.next text = some (feature, rest) → motive rest → motive text)
    (text : List α) : motive text := by
  cases found : tags.next text with
  | none => exact unfinished text found
  | some split =>
    have shorter : split.2.length < text.length := next_shorter found
    exact finished text split.1 split.2 found (text_induction unfinished finished split.2)
termination_by text.length

/-- A complete stretch is complete whatever follows. -/
theorem next_append {feature rest : List α} (found : tags.next text = some (feature, rest))
    (more : List α) : tags.next (text ++ more) = some (feature, rest ++ more) := by
  obtain ⟨start, size, opens, closes, rfl, rfl⟩ := next_eq_some_iff.mp found
  have open_nonempty : tags.opening ≠ [] := List.cons_ne_nil _ _
  have close_nonempty : tags.closing ≠ [] := List.cons_ne_nil _ _
  have started := (first_eq_some_iff.mp opens).1
  have closed := (first_eq_some_iff.mp closes).2.1.le close_nonempty
  rw [List.length_drop] at closed
  refine next_eq_some_iff.mpr ⟨start, size, first_append open_nonempty opens more, ?_, ?_, ?_⟩
  · rw [List.drop_append_of_le_length started]
    exact first_append close_nonempty closes more
  · rw [List.drop_append_of_le_length started, List.take_append_of_le_length]
    rw [List.length_drop]
    omega
  · rw [List.drop_append_of_le_length (by omega)]

/-- The stretches of a longer text are those so far and those from the remainder on. -/
theorem features_append (text more : List α) :
    tags.features (text ++ more) = tags.features text ++ tags.features (tags.remainder text ++ more) := by
  induction text using text_induction tags with
  | unfinished text found => rw [features_of_none found, remainder_of_none found, List.nil_append]
  | finished text feature rest found ih =>
    rw [features_of_some (next_append found more), features_of_some found, remainder_of_some found, ih,
      List.cons_append]

/-- A start in which no stretch opens plays no part. -/
theorem features_skip {skipped : Nat} (inside : skipped ≤ text.length)
    (absent : ∀ j < skipped, ¬ OccursAt tags.opening text j) :
    tags.features text = tags.features (text.drop skipped) := by
  have same : tags.next text = tags.next (text.drop skipped) := by
    rw [next, next, first_skip inside absent]
    cases first tags.opening (text.drop skipped) with
    | none => rfl
    | some start => simp only [Option.map_some, List.drop_drop, Nat.add_assoc]
  cases found : tags.next text with
  | none => rw [features_of_none found, features_of_none (same ▸ found)]
  | some split =>
    have later : tags.next (text.drop skipped) = some (split.1, split.2) := same ▸ found
    rw [features_of_some later, features_of_some (same.trans later)]

variable (tags) in
/-- What comes before the remainder is nothing, or ends with a closing tag. -/
theorem remainder_split (text : List α) :
    ∃ done, text = done ++ tags.remainder text ∧ (done = [] ∨ ∃ front, done = front ++ tags.closing) := by
  induction text using text_induction tags with
  | unfinished text found => exact ⟨[], by rw [remainder_of_none found, List.nil_append], Or.inl rfl⟩
  | finished text feature rest found ih =>
    obtain ⟨front, split⟩ := next_split found
    obtain ⟨done, cut, ends⟩ := ih
    refine ⟨front ++ tags.closing ++ done, ?_, Or.inr ?_⟩
    · rw [remainder_of_some found, List.append_assoc, ← cut, split]
    · rcases ends with rfl | ⟨last, rfl⟩
      · exact ⟨front, List.append_nil _⟩
      · exact ⟨front ++ tags.closing ++ last, (List.append_assoc ..).symm⟩

omit [DecidableEq α] in
/-- Only a mark opens a stretch. -/
private theorem mark_of_occursAt (occurs : OccursAt tags.opening text i) (inside : i < text.length) :
    text[i] = tags.mark := by
  obtain ⟨rest, split⟩ := occurs
  rw [List.drop_eq_getElem_cons inside] at split
  exact (List.cons.inj split).1.symm

omit [DecidableEq α] in
/-- The last of what came before the remainder has no mark in it. -/
private theorem mark_not_mem_done {done : List α} (ends : done = [] ∨ ∃ front, done = front ++ tags.closing)
    {dropped : Nat} (short : done.length - dropped ≤ tags.closeRest.length) :
    tags.mark ∉ done.drop dropped := by
  rcases ends with rfl | ⟨front, rfl⟩
  · rw [List.drop_nil]
    exact List.not_mem_nil
  · have suffix : (front ++ tags.closing).drop dropped <:+ tags.closeRest := by
      apply List.suffix_of_suffix_length_le (List.drop_suffix _ _)
      · exact ⟨front ++ [tags.mark], by rw [closing, List.append_assoc, List.singleton_append]⟩
      · rwa [List.length_drop]
    exact fun member => tags.mark_once (suffix.mem member)

/-- The kept text stands for the remainder, whatever follows. -/
theorem features_keep (text more : List α) :
    tags.features (tags.keep text ++ more) = tags.features (tags.remainder text ++ more) := by
  have size : tags.opening.length ≤ tags.closeRest.length := tags.longer
  have nonempty : tags.opening ≠ [] := List.cons_ne_nil _ _
  -- nothing can open so early in the remainder that more text is not needed for it
  have early {skipped : Nat} (room : skipped + tags.opening.length ≤ (tags.remainder text).length)
      (absent : ∀ j < skipped, ¬ OccursAt tags.opening (tags.remainder text) j) :
      tags.features ((tags.remainder text).drop skipped ++ more) =
        tags.features (tags.remainder text ++ more) := by
    rw [← List.drop_append_of_le_length (by omega)]
    refine (features_skip (by rw [List.length_append]; omega) ?_).symm
    intro j before occurs
    exact absent j before (occurs.of_append (by omega))
  rw [keep]
  obtain ⟨done, split, ends⟩ := remainder_split tags text
  generalize tags.remainder text = rest at *
  subst split
  cases opens : first tags.opening rest with
  | some start =>
    obtain ⟨-, occurs, before⟩ := first_eq_some_iff.mp opens
    exact early (occurs.le nonempty) before
  | none =>
    rw [first_eq_none_iff] at opens
    simp only [List.length_append]
    by_cases long : tags.opening.length ≤ rest.length
    · -- the tail is all from the remainder
      rw [show done.length + rest.length - tags.opening.length =
        done.length + (rest.length - tags.opening.length) by omega, List.drop_length_add_append]
      exact early (by omega) fun j _ => opens j
    · -- the tail starts inside the last closing tag
      rw [List.drop_append_of_le_length (by omega), List.append_assoc]
      generalize dropping : done.length + rest.length - tags.opening.length = dropped
      have inside : (done.drop dropped).length ≤ (done.drop dropped ++ (rest ++ more)).length := by simp
      refine (features_skip inside ?_).trans (by rw [List.drop_left])
      intro j before occurs
      have here := mark_of_occursAt occurs (by rw [List.length_append]; omega)
      rw [List.getElem_append_left before] at here
      have short : done.length - dropped ≤ tags.closeRest.length := by omega
      exact mark_not_mem_done ends short (here ▸ List.getElem_mem before)

/-- A reader that has kept what it should goes on with the stretches of the longer text. -/
theorem features_chunk (text more : List α) :
    tags.features (text ++ more) = tags.features text ++ tags.features (tags.keep text ++ more) := by
  rw [features_append, features_keep]

/-- No complete stretch is kept. -/
theorem features_keep_nil (text : List α) : tags.features (tags.keep text) = [] := by
  have whole : tags.features (text ++ []) = _ := features_chunk text []
  rw [List.append_nil, List.append_nil] at whole
  exact List.self_eq_append_right.mp whole

end Tags

end Delimited
