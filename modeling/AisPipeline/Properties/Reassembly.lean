import AisPipeline.Decoder.SentenceAssembler
import Mathlib.Data.List.DropRight

/-!
# Reassembly, exactly

The pending group of a key is the longest consecutively numbered run that ends
the key's own history and has not been completed. What `add` returns follows
from that alone, for any calls at all.
-/
namespace Ais.SentenceAssembler

open Cpp

/-- The sentences of one key along a list of calls. -/
def keyHistory (key : FragmentKey) (calls : List Call) : List Sentence :=
  (calls.filter fun call => call.key = some key).map Call.sentence

/-- Numbered 1, 2, … in order. -/
def Numbered (fragments : List Sentence) : Prop :=
  ∀ i (_ : i < fragments.length), fragments[i].fragmentNumber.toInt = i + 1

/-- No fragment after the first is the last of its message by its own account. -/
def Open (fragments : List Sentence) : Prop :=
  ∀ i (_ : i < fragments.length), 0 < i → fragments[i].fragmentCount.toInt ≠ i + 1

instance (fragments : List Sentence) : Decidable (Numbered fragments) :=
  inferInstanceAs (Decidable (∀ i (_ : i < fragments.length), _))

/-- `sentence` ends a complete message: it is number `n` of `n`, the last `n` sentences of
its history are numbered 1 to `n`, and none strictly between the first and the last
claims to be the end. -/
def Completes (history : List Sentence) (sentence : Sentence) (payload : Payload) : Prop :=
  ∃ n : Nat, 2 ≤ n ∧ n ≤ history.length ∧
    sentence.fragmentNumber.toInt = n ∧ sentence.fragmentCount.toInt = n ∧
    Numbered (history.rtake n) ∧
    (∀ s ∈ history.rtake n, 2 ≤ s.fragmentNumber.toInt → s.fragmentNumber.toInt < n →
      s.fragmentCount ≠ s.fragmentNumber) ∧
    payload = Payload.ofArmored ((history.rtake n).flatMap Sentence.payload) sentence.fillBits

/-! ### Consecutive runs -/

theorem numbered_append {run : List Sentence} {s : Sentence} :
    Numbered (run ++ [s]) ↔ Numbered run ∧ s.fragmentNumber.toInt = run.length + 1 := by
  constructor
  · intro numbered
    constructor
    · intro i inside
      have here := numbered i (by simp; omega)
      rwa [List.getElem_append_left inside] at here
    · simpa using numbered run.length (by simp)
  · rintro ⟨numbered, last⟩ i inside
    -- the new sentence stands at the one position the run does not have
    by_cases early : i < run.length
    · rw [List.getElem_append_left early]
      exact numbered i early
    · have at_end : i = run.length := by
        rw [List.length_append, List.length_singleton] at inside
        omega
      subst at_end
      simpa using last

private theorem open_append {run : List Sentence} {s : Sentence} :
    Open (run ++ [s]) ↔ Open run ∧ (run ≠ [] → s.fragmentCount.toInt ≠ run.length + 1) := by
  constructor
  · intro unended
    constructor
    · intro i inside positive
      have here := unended i (by simp; omega) positive
      rwa [List.getElem_append_left inside] at here
    · intro nonempty
      simpa using unended run.length (by simp) (List.length_pos_of_ne_nil nonempty)
  · rintro ⟨unended, last⟩ i inside positive
    by_cases early : i < run.length
    · rw [List.getElem_append_left early]
      exact unended i early positive
    · have at_end : i = run.length := by
        rw [List.length_append, List.length_singleton] at inside
        omega
      subst at_end
      simpa using last (List.ne_nil_of_length_pos positive)

theorem numbered_of_prefix {run longer : List Sentence} (part : run <+: longer)
    (numbered : Numbered longer) : Numbered run := by
  intro i inside
  rw [part.getElem inside]
  exact numbered i (lt_of_lt_of_le inside part.length_le)

/-- Fragment numbers are `int`s, so a numbered run is short. -/
private theorem numbered_length {run : List Sentence} (numbered : Numbered run) :
    run.length < 2 ^ 31 := by
  rcases List.eq_nil_or_concat' run with rfl | ⟨front, s, rfl⟩
  · simp
  · have last := (numbered_append.mp numbered).2
    have bound := s.fragmentNumber.toInt_lt
    rw [List.length_append, List.length_singleton]
    omega

private theorem suffix_append_singleton {history run : List Sentence} {s : Sentence} :
    run <:+ history ++ [s] ↔ run = [] ∨ ∃ front, run = front ++ [s] ∧ front <:+ history := by
  constructor
  · intro suffix
    rcases List.eq_nil_or_concat' run with rfl | ⟨front, last, rfl⟩
    · exact Or.inl rfl
    · obtain ⟨before, split⟩ := suffix
      rw [← List.append_assoc] at split
      obtain ⟨rfl, same⟩ := List.append_inj' split rfl
      simp only [List.cons.injEq, and_true] at same
      exact Or.inr ⟨front, by rw [same], List.suffix_append _ _⟩
  · rintro (rfl | ⟨front, rfl, before, rfl⟩)
    · exact List.nil_suffix
    · exact ⟨before, by simp⟩

/-! ### The invariant of one key -/

/-- `pending` is the open, numbered run at the end of `history`, and absent when there is
none. There is at most one such run: its length is the number of the last sentence. -/
def Tracks (history : List Sentence) (pending : Option (List Sentence)) : Prop :=
  ∀ group, pending = some group ↔
    group ≠ [] ∧ group <:+ history ∧ Numbered group ∧ Open group

theorem tracks_nil : Tracks [] none := by
  intro group
  constructor
  · simp
  · rintro ⟨nonempty, suffix, -⟩
    exact absurd (List.suffix_nil.mp suffix) nonempty

/-- Whether or not anything is pending, the group is a numbered, open run of the history. -/
private theorem Tracks.group {history : List Sentence} {pending : Option (List Sentence)}
    (tracks : Tracks history pending) :
    pending.getD [] <:+ history ∧ Numbered (pending.getD []) ∧ Open (pending.getD []) := by
  cases pending with
  | none => exact ⟨List.nil_suffix, by simp [Numbered], by simp [Open]⟩
  | some group => exact ((tracks group).mp rfl).2

/-- A run that the new sentence continues is the pending group. -/
private theorem Tracks.eq_group {history front : List Sentence} {pending : Option (List Sentence)}
    (tracks : Tracks history pending) (suffix : front <:+ history) (numbered : Numbered front)
    (unended : Open front) (nonempty : front ≠ []) : pending.getD [] = front := by
  rw [(tracks front).mpr ⟨nonempty, suffix, numbered, unended⟩]
  rfl

/-- The test of `add` on the fragment number. -/
theorem continues_iff {group : List Sentence} {s : Sentence} (numbered : Numbered group) :
    sizeCast s.fragmentNumber = group.length + 1 ↔ s.fragmentNumber.toInt = group.length + 1 := by
  have short := numbered_length numbered
  by_cases room : group.length + 1 < 2 ^ 31
  · rw [sizeCast_eq_iff room]
    simp
  -- no `int` reaches a size outside its range
  · have range := sizeCast_range s.fragmentNumber
    have bound := s.fragmentNumber.toInt_lt
    omega

/-- The test of `add` on the fragment count, made only when the number fits. -/
theorem complete_iff {group : List Sentence} {s : Sentence}
    (number : s.fragmentNumber.toInt = group.length + 1) :
    group.length + 1 = sizeCast s.fragmentCount ↔ s.fragmentCount.toInt = group.length + 1 := by
  have bound := s.fragmentNumber.toInt_lt
  rw [eq_comm, sizeCast_eq_iff (by omega)]
  simp

theorem toInt_eq_one_iff {n : Int32} : n.toInt = 1 ↔ n = 1 :=
  Int32.toInt_inj (y := 1)

/-- What `add` does to the group of its key keeps the invariant. -/
theorem groupStep_tracks {history : List Sentence} {pending : Option (List Sentence)}
    (tracks : Tracks history pending) (s : Sentence) :
    Tracks (history ++ [s]) (groupStep pending s).1 := by
  obtain ⟨suffix, numbered, unended⟩ := tracks.group
  intro run
  -- a run of the longer history is a run of the old one with `s` behind it
  have runs : (run ≠ [] ∧ run <:+ history ++ [s] ∧ Numbered run ∧ Open run) ↔
      ∃ front, run = front ++ [s] ∧ front <:+ history ∧ Numbered front ∧ Open front ∧
        s.fragmentNumber.toInt = front.length + 1 ∧
        (front ≠ [] → s.fragmentCount.toInt ≠ front.length + 1) := by
    rw [suffix_append_singleton]
    constructor
    · rintro ⟨nonempty, rfl | ⟨front, rfl, earlier⟩, counted, ongoing⟩
      · exact absurd rfl nonempty
      · rw [numbered_append] at counted
        rw [open_append] at ongoing
        exact ⟨front, rfl, earlier, counted.1, ongoing.1, counted.2, ongoing.2⟩
    · rintro ⟨front, rfl, earlier, counted, ongoing, number, count⟩
      exact ⟨by simp, Or.inr ⟨front, rfl, earlier⟩, numbered_append.mpr ⟨counted, number⟩,
        open_append.mpr ⟨ongoing, count⟩⟩
  rw [runs]
  simp only [groupStep]
  split
  -- the new group is the sentence alone
  next first =>
    constructor
    · intro stored
      refine ⟨[], by simpa using stored.symm, List.nil_suffix, by simp [Numbered], by simp [Open],
        ?_, by simp⟩
      simpa using toInt_eq_one_iff.mpr first
    · rintro ⟨front, rfl, -, -, -, number, -⟩
      rw [toInt_eq_one_iff.mpr first] at number
      have empty : front = [] := List.length_eq_zero_iff.mp (by omega)
      simp [empty]
  next later =>
    have not_first : s.fragmentNumber.toInt ≠ 1 := mt toInt_eq_one_iff.mp later
    -- the run in front of `s` is nonempty, hence the pending group
    have continued {front : List Sentence} (earlier : front <:+ history) (counted : Numbered front)
        (ongoing : Open front) (number : s.fragmentNumber.toInt = front.length + 1) :
        pending.getD [] = front := by
      apply tracks.eq_group earlier counted ongoing
      rintro rfl
      exact not_first (by simpa using number)
    split
    -- nothing is pending, and no run ends in this sentence
    next gap =>
      constructor
      · simp
      · rintro ⟨front, rfl, earlier, counted, ongoing, number, -⟩
        rw [← continued earlier counted ongoing number] at number
        exact absurd ((continues_iff numbered).mpr number) gap
    next fits =>
      have number := (continues_iff numbered).mp (not_not.mp fits)
      split
      -- the group is complete, so the run is not open
      next ended =>
        constructor
        · simp
        · rintro ⟨front, rfl, earlier, counted, ongoing, place, count⟩
          have same := continued earlier counted ongoing place
          refine absurd ((complete_iff number).mp ended) (same ▸ count ?_)
          rintro rfl
          exact not_first (by simpa using place)
      -- the pending group grows by the sentence
      next unfinished =>
        constructor
        · intro stored
          refine ⟨pending.getD [], by simpa using stored.symm, suffix, numbered, unended, number, ?_⟩
          exact fun _ => mt (complete_iff number).mpr unfinished
        · rintro ⟨front, rfl, earlier, counted, ongoing, place, -⟩
          rw [continued earlier counted ongoing place]

/-- In a numbered run, openness may be read off the numbers instead of the positions. -/
private theorem open_iff {run : List Sentence} (numbered : Numbered run) :
    Open run ↔ ∀ s ∈ run, 2 ≤ s.fragmentNumber.toInt → s.fragmentCount ≠ s.fragmentNumber := by
  constructor
  · intro unended s member later same
    obtain ⟨i, inside, rfl⟩ := List.getElem_of_mem member
    have place := numbered i inside
    exact unended i inside (by omega) (by rw [same, place])
  · intro unended i inside positive count
    have place := numbered i inside
    refine unended _ (List.getElem_mem inside) (by omega) (Int32.toInt_inj.mp ?_)
    rw [count, place]

private theorem completes_iff {history : List Sentence} {s : Sentence} {payload : Payload} :
    Completes (history ++ [s]) s payload ↔
      ∃ front, front ≠ [] ∧ front <:+ history ∧ Numbered front ∧ Open front ∧
        s.fragmentNumber.toInt = front.length + 1 ∧ s.fragmentCount.toInt = front.length + 1 ∧
        payload = Payload.ofArmored ((front ++ [s]).flatMap Sentence.payload) s.fillBits := by
  constructor
  · rintro ⟨n, two_le, enough, number, count, numbered, middle, result⟩
    obtain ⟨m, rfl⟩ : ∃ m, n = m + 1 := ⟨n - 1, by omega⟩
    rw [List.length_append, List.length_singleton] at enough
    rw [List.rtake_concat_succ] at numbered middle result
    have size : (history.rtake m).length = m := by
      rw [List.rtake, List.length_drop]
      omega
    have counted := (numbered_append.mp numbered).1
    refine ⟨history.rtake m, List.ne_nil_of_length_pos (by omega), List.drop_suffix _ _, counted,
      (open_iff counted).mpr ?_, by omega, by omega, result⟩
    intro t member later
    obtain ⟨i, inside, rfl⟩ := List.getElem_of_mem member
    have place := counted i inside
    exact middle _ (List.mem_append_left _ member) later (by omega)
  · rintro ⟨front, nonempty, earlier, counted, ongoing, number, count, result⟩
    have positive := List.length_pos_of_ne_nil nonempty
    have shorter := earlier.length_le
    have last : (history ++ [s]).rtake (front.length + 1) = front ++ [s] := by
      rw [List.rtake_concat_succ, List.rtake, ← List.suffix_iff_eq_drop.mp earlier]
    refine ⟨front.length + 1, by omega, by simpa using shorter, by omega, by omega, ?_, ?_, ?_⟩
    · rw [last]
      exact numbered_append.mpr ⟨counted, number⟩
    · rw [last]
      intro t member later earlier
      rcases List.mem_append.mp member with inside | final
      · exact (open_iff counted).mp ongoing t inside later
      · rw [List.mem_singleton.mp final, number] at earlier
        omega
    · rw [last, result]

/-- A completed message is made of the group and the new sentence. -/
theorem Tracks.joined {history : List Sentence} {pending : Option (List Sentence)}
    (tracks : Tracks history pending) {s : Sentence} {payload : Payload}
    (done : Completes (history ++ [s]) s payload) :
    pending.getD [] ++ [s] = (history ++ [s]).rtake s.fragmentNumber.toInt.toNat := by
  obtain ⟨front, nonempty, earlier, counted, ongoing, number, -⟩ := completes_iff.mp done
  have index : s.fragmentNumber.toInt.toNat = front.length + 1 := by omega
  rw [tracks.eq_group earlier counted ongoing nonempty, index, List.rtake_concat_succ, List.rtake,
    ← List.suffix_iff_eq_drop.mp earlier]

/-- The answer of `add` under the invariant. -/
theorem groupStep_answer {history : List Sentence} {pending : Option (List Sentence)}
    (tracks : Tracks history pending) (s : Sentence) (payload : Payload) :
    (groupStep pending s).2 = some payload ↔ Completes (history ++ [s]) s payload := by
  obtain ⟨suffix, numbered, unended⟩ := tracks.group
  rw [completes_iff]
  -- a first fragment has no run in front of it
  have not_first {front : List Sentence} (nonempty : front ≠ [])
      (number : s.fragmentNumber.toInt = front.length + 1) : s.fragmentNumber ≠ 1 := by
    intro first
    have positive := List.length_pos_of_ne_nil nonempty
    rw [toInt_eq_one_iff.mpr first] at number
    omega
  simp only [groupStep]
  split
  next first =>
    constructor
    · simp
    · rintro ⟨front, nonempty, -, -, -, number, -⟩
      exact absurd first (not_first nonempty number)
  next later =>
    split
    next gap =>
      constructor
      · simp
      · rintro ⟨front, nonempty, earlier, counted, ongoing, number, -⟩
        rw [← tracks.eq_group earlier counted ongoing nonempty] at number
        exact absurd ((continues_iff numbered).mpr number) gap
    next fits =>
      have number := (continues_iff numbered).mp (not_not.mp fits)
      split
      -- the one branch that answers
      next ended =>
        have count := (complete_iff number).mp ended
        have same : s.fragmentNumber = s.fragmentCount := Int32.toInt_inj.mp (by rw [number, count])
        rw [combine_concat same, Option.some.injEq]
        constructor
        · rintro rfl
          refine ⟨pending.getD [], ?_, suffix, numbered, unended, number, count, rfl⟩
          intro empty
          rw [empty] at number
          exact later (toInt_eq_one_iff.mp (by simpa using number))
        · rintro ⟨front, nonempty, earlier, counted, ongoing, -, -, rfl⟩
          rw [tracks.eq_group earlier counted ongoing nonempty]
      next unfinished =>
        constructor
        · simp
        · rintro ⟨front, nonempty, earlier, counted, ongoing, -, count, -⟩
          rw [← tracks.eq_group earlier counted ongoing nonempty] at count
          exact absurd ((complete_iff number).mpr count) unfinished

/-! ### Whole runs -/

theorem keyHistory_append (key : FragmentKey) (before after : List Call) :
    keyHistory key (before ++ after) = keyHistory key before ++ keyHistory key after := by
  simp [keyHistory]

theorem keyHistory_singleton {key : FragmentKey} {call : Call} (keyed : call.key = some key) :
    keyHistory key [call] = [call.sentence] := by
  simp [keyHistory, keyed]

theorem keyHistory_other {key : FragmentKey} {call : Call} (other : call.key ≠ some key) :
    keyHistory key [call] = [] := by
  simp [keyHistory, other]

theorem addAll_concat (assembler : SentenceAssembler) (calls : List Call) (call : Call) :
    assembler.addAll (calls ++ [call]) =
      ((assembler.addAll calls).add call.sentence call.source).1 := by
  rw [addAll_append]
  rfl

/-- In every state a run reaches, every key's group tracks that key's own history. -/
theorem addAll_tracks (calls : List Call) (key : FragmentKey) :
    Tracks (keyHistory key calls) ((addAll {} calls).pending key) := by
  induction calls using List.reverseRecOn with
  | nil => exact tracks_nil
  | append_singleton calls call ih =>
    rw [addAll_concat, keyHistory_append]
    -- a call of another key changes neither the group nor the history
    by_cases mine : call.key = some key
    · rw [(add_own mine).1, keyHistory_singleton mine]
      exact groupStep_tracks ih call.sentence
    · rw [add_frame mine, keyHistory_other mine, List.append_nil]
      exact ih

/-- What a keyed call answers at the end of a run. -/
theorem add_answer_iff {calls : List Call} {call : Call} {key : FragmentKey}
    (keyed : call.key = some key) (payload : Payload) :
    ((addAll {} calls).add call.sentence call.source).2 = some payload ↔
      Completes (keyHistory key (calls ++ [call])) call.sentence payload := by
  rw [(add_own keyed).2, keyHistory_append, keyHistory_singleton keyed]
  exact groupStep_answer (addAll_tracks calls key) call.sentence payload

/-- Only as many sentences as the number of the last one matter. -/
theorem completes_congr {history history' : List Sentence} {s : Sentence}
    (same : history.rtake s.fragmentNumber.toInt.toNat =
      history'.rtake s.fragmentNumber.toInt.toNat) (payload : Payload) :
    Completes history s payload ↔ Completes history' s payload := by
  -- the condition looks at the last `n` sentences only, and `n` is the number of the last one
  have transfer {h h' : List Sentence} (same : h.rtake s.fragmentNumber.toInt.toNat =
      h'.rtake s.fragmentNumber.toInt.toNat) (done : Completes h s payload) :
      Completes h' s payload := by
    obtain ⟨n, two_le, enough, number, count, numbered, middle, result⟩ := done
    have index : s.fragmentNumber.toInt.toNat = n := by omega
    rw [index] at same
    have size := congrArg List.length same
    rw [List.rtake, List.rtake, List.length_drop, List.length_drop] at size
    rw [same] at numbered middle result
    exact ⟨n, two_le, by omega, number, count, numbered, middle, result⟩
  exact ⟨transfer same, transfer same.symm⟩

/-- The exact behaviour of `add` over a run: single fragments and unkeyed ones leave the
assembler alone, and a keyed sentence gives a payload exactly when it completes a message
in the history of its own key. Neither other keys nor sentences further back in that history
than the sentence's own number have any influence. -/
theorem add_exact (calls : List Call) (call : Call) :
    let assembler := addAll {} calls
    let sentence := call.sentence
    (sentence.fragmentCount = 1 →
      assembler.add sentence call.source =
        (assembler, some (Payload.ofArmored sentence.payload sentence.fillBits))) ∧
    (sentence.fragmentCount ≠ 1 → sentence.sequenceId = none →
      assembler.add sentence call.source = (assembler, none)) ∧
    (∀ sequenceId, sentence.fragmentCount ≠ 1 → sentence.sequenceId = some sequenceId →
      let key : FragmentKey := ⟨call.source, sentence.channel, sequenceId⟩
      (∀ payload, (assembler.add sentence call.source).2 = some payload ↔
        Completes (keyHistory key (calls ++ [call])) sentence payload) ∧
      ∀ calls' : List Call,
        (keyHistory key (calls' ++ [call])).rtake sentence.fragmentNumber.toInt.toNat =
          (keyHistory key (calls ++ [call])).rtake sentence.fragmentNumber.toInt.toNat →
        ((addAll {} calls').add sentence call.source).2 =
          (assembler.add sentence call.source).2) := by
  refine ⟨?_, ?_, ?_⟩
  · intro single
    simp [add, single]
  · intro multi unkeyed
    simp [add, multi, unkeyed]
  · intro sequenceId multi numbered
    have keyed : call.key = some ⟨call.source, call.sentence.channel, sequenceId⟩ := by
      simp [Call.key, multi, numbered]
    refine ⟨add_answer_iff keyed, ?_⟩
    intro calls' same
    apply Option.ext
    intro payload
    rw [add_answer_iff keyed, add_answer_iff keyed, completes_congr same]

/-! The two fragments of a message with the payload `aa`. -/

def headOfA : Sentence where
  text := "!AIVDM,2,1,4,A,a,0*70".toList.map Char.toUInt8
  isValid := true
  isWellFormed := true
  fragmentCount := 2
  fragmentNumber := 1
  sequenceId := some 4
  channel := [ 'A'.toUInt8]
  payload := [ 'a'.toUInt8]

def tailOfA : Sentence where
  text := "!AIVDM,2,2,4,A,a,0*73".toList.map Char.toUInt8
  isValid := true
  isWellFormed := true
  fragmentCount := 2
  fragmentNumber := 2
  sequenceId := some 4
  channel := [ 'A'.toUInt8]
  payload := [ 'a'.toUInt8]

theorem add_exact_two_parts :
    ((addAll {} [⟨headOfA, []⟩]).add tailOfA []).2 =
      some (Payload.ofArmored [ 'a'.toUInt8, 'a'.toUInt8] 0) := by
  apply ((((add_exact [⟨headOfA, []⟩] ⟨tailOfA, []⟩).2.2 4 (by decide) rfl).1 _).mpr)
  exact ⟨2, by decide, by decide, by decide, by decide, by decide, by decide, by decide⟩

end Ais.SentenceAssembler
