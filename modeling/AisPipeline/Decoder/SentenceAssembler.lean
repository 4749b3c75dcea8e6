import AisPipeline.Decoder.Sentence
import AisPipeline.Decoder.Payload
import AisPipeline.Lib.Keyed

/-!
# Reassembly of multi-part messages

The assembler is a machine with one slot a fragment key: `add` never looks at
the group of another key.
-/
namespace Ais

open Cpp

/-- `SentenceAssembler::FragmentKey`. -/
structure FragmentKey where
  source : Bytes
  channel : Bytes
  sequenceId : Int32
  deriving DecidableEq, Repr

/-- `SentenceAssembler`: the map `pending_` from keys to groups of fragments. -/
structure SentenceAssembler where
  pending : FragmentKey → Option (List Sentence) := fun _ => none

namespace SentenceAssembler

/-- `pending_[key] = group`, or `pending_.erase(key)` for `none`. -/
def set (assembler : SentenceAssembler) (key : FragmentKey) (group : Option (List Sentence)) :
    SentenceAssembler :=
  ⟨Function.update assembler.pending key group⟩

@[simp] theorem set_pending_self (assembler : SentenceAssembler) (key : FragmentKey)
    (group : Option (List Sentence)) : (assembler.set key group).pending key = group :=
  Function.update_self ..

theorem set_pending_of_ne (assembler : SentenceAssembler) {key other : FragmentKey}
    (group : Option (List Sentence)) (different : other ≠ key) :
    (assembler.set key group).pending other = assembler.pending other :=
  Function.update_of_ne different ..

/-- The loop over a complete group: the payload texts joined, and the fill bits of the
fragment whose number is its count. -/
def combine (group : List Sentence) : Bytes × Int32 :=
  group.foldl (fun (combinedPayload, fillBits) s =>
    (combinedPayload ++ s.payload,
      if s.fragmentNumber = s.fragmentCount then s.fillBits else fillBits)) ([], 0)

/-- `SentenceAssembler::add`. -/
def add (assembler : SentenceAssembler) (sentence : Sentence) (source : Bytes) :
    SentenceAssembler × Option Payload :=
  if sentence.fragmentCount = 1 then
    (assembler, some (Payload.ofArmored sentence.payload sentence.fillBits))
  else
    -- several fragments cannot be matched up without a sequence id
    match sentence.sequenceId with
    | none => (assembler, none)
    | some sequenceId =>
      let key : FragmentKey := ⟨source, sentence.channel, sequenceId⟩
      let group := (assembler.pending key).getD []
      -- a first fragment replaces whatever the key had pending
      if sentence.fragmentNumber = 1 then (assembler.set key (some [sentence]), none)
      -- a gap or a repetition drops the group
      else if sizeCast sentence.fragmentNumber ≠ group.length + 1 then (assembler.set key none, none)
      else
        let group := group ++ [sentence]
        if group.length = sizeCast sentence.fragmentCount then
          let (combinedPayload, fillBits) := combine group
          (assembler.set key none, some (Payload.ofArmored combinedPayload fillBits))
        else (assembler.set key (some group), none)

/-- One call of `add`. -/
structure Call where
  sentence : Sentence
  source : Bytes

/-- The key a call works under; single-fragment sentences and those without a sequence id
have none. -/
def Call.key (call : Call) : Option FragmentKey :=
  if call.sentence.fragmentCount = 1 then none
  else call.sentence.sequenceId.map fun sequenceId =>
    ⟨call.source, call.sentence.channel, sequenceId⟩

/-- The state after a list of calls. -/
def addAll (assembler : SentenceAssembler) (calls : List Call) : SentenceAssembler :=
  calls.foldl (fun assembler call => (assembler.add call.sentence call.source).1) assembler

/-- What `add` does to the group of its own key. -/
def groupStep (pending : Option (List Sentence)) (sentence : Sentence) :
    Option (List Sentence) × Option Payload :=
  let group := pending.getD []
  if sentence.fragmentNumber = 1 then (some [sentence], none)
  else if sizeCast sentence.fragmentNumber ≠ group.length + 1 then (none, none)
  else if group.length + 1 = sizeCast sentence.fragmentCount then
    (none, some (Payload.ofArmored (combine (group ++ [sentence])).1 (combine (group ++ [sentence])).2))
  else (some (group ++ [sentence]), none)

/-- The assembler as a keyed machine. -/
def machine : Keyed.Machine FragmentKey (Option (List Sentence)) Call (Option Payload) where
  key := Call.key
  slotStep pending call := groupStep pending call.sentence
  answer call :=
    if call.sentence.fragmentCount = 1 then
      some (Payload.ofArmored call.sentence.payload call.sentence.fillBits)
    else none

theorem add_eq_step (assembler : SentenceAssembler) (call : Call) :
    assembler.add call.sentence call.source =
      (⟨(machine.step assembler.pending call).1⟩, (machine.step assembler.pending call).2) := by
  by_cases single : call.sentence.fragmentCount = 1
  · have keyless : machine.key call = none := by simp [machine, Call.key, single]
    rw [Keyed.Machine.step_of_no_key keyless]
    simp [add, machine, single]
  · cases id : call.sentence.sequenceId with
    | none =>
      have keyless : machine.key call = none := by simp [machine, Call.key, id]
      rw [Keyed.Machine.step_of_no_key keyless]
      simp [add, machine, single, id]
    | some sequenceId =>
      have keyed : machine.key call = some ⟨call.source, call.sentence.channel, sequenceId⟩ := by
        simp [machine, Call.key, single, id]
      rw [Keyed.Machine.step_of_key keyed]
      -- both sides make the same three tests
      simp only [add, single, id, if_false, machine, groupStep, set, List.length_append,
        List.length_singleton]
      split
      · rfl
      · split
        · rfl
        · split
          · rfl
          · rfl

/-- A keyed call moves the group of its key by `groupStep`. -/
theorem add_own {assembler : SentenceAssembler} {call : Call} {key : FragmentKey}
    (keyed : call.key = some key) :
    (assembler.add call.sentence call.source).1.pending key =
        (groupStep (assembler.pending key) call.sentence).1 ∧
      (assembler.add call.sentence call.source).2 =
        (groupStep (assembler.pending key) call.sentence).2 := by
  have mine : machine.key call = some key := keyed
  rw [add_eq_step]
  exact ⟨Keyed.Machine.step_own mine, Keyed.Machine.step_output mine⟩

/-- Frame: a call leaves the groups of all other keys alone. -/
theorem add_frame {assembler : SentenceAssembler} {call : Call} {key : FragmentKey}
    (other : call.key ≠ some key) :
    (assembler.add call.sentence call.source).1.pending key = assembler.pending key := by
  have foreign : machine.key call ≠ some key := other
  rw [add_eq_step]
  exact Keyed.Machine.step_frame foreign

theorem addAll_append (assembler : SentenceAssembler) (before after : List Call) :
    assembler.addAll (before ++ after) = (assembler.addAll before).addAll after :=
  List.foldl_append

/-- The fill bits of a complete group are those of its last fragment. -/
theorem combine_concat {group : List Sentence} {last : Sentence}
    (complete : last.fragmentNumber = last.fragmentCount) :
    combine (group ++ [last]) = ((group ++ [last]).flatMap Sentence.payload, last.fillBits) := by
  -- the text does not depend on which fragment supplies the fill bits
  have joined (front : List Sentence) : (combine front).1 = front.flatMap Sentence.payload := by
    induction front using List.reverseRecOn with
    | nil => rfl
    | append_singleton front s ih => simp [combine, List.foldl_append] at ih ⊢; rw [ih]
  apply Prod.ext
  · exact joined _
  · simp [combine, List.foldl_append, complete]

end SentenceAssembler

end Ais
