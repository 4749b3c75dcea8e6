import AisPipeline.Pipeline.TaggedLine
import AisPipeline.Properties.Reassembly

/-!
# Lines in, messages out

No line stops the decoder stage, and cutting a message into fragments is
invisible at its output, whatever other lines arrive in between.
-/
namespace Ais

open Cpp Keyed.Machine

/-- No line makes the stage throw: every run over any lines, from any state, returns one
output a line. A read out of range, a rejected argument and an undefined operation are
all exceptions of the model. -/
theorem DecoderStage.runLines_never_throws (stage : DecoderStage) (lines : List Bytes) :
    ∃ after outputs, stage.runLines lines = .ok (after, outputs) ∧
      outputs.length = lines.length := by
  refine ⟨_, _, stage.runLines_eq lines, ?_⟩
  generalize stage.assembler.pending = slots
  induction lines generalizing slots with
  | nil => rfl
  | cons line lines ih => simp [outputs, ih]

/-! ### The fragments of one message -/

namespace SentenceAssembler

/-- Fragments that complete a nonempty group are answered at the last of them only. -/
private theorem slotOutputs_continued (source : Bytes) {group rest : List Sentence}
    (started : group ≠ []) (numbered : Numbered (group ++ rest))
    (counted : ∀ s ∈ rest, s.fragmentCount.toInt = (group ++ rest).length) {last : Sentence}
    (ends : rest.getLast? = some last) :
    machine.slotOutputs (some group) (rest.map fun s => ⟨s, source⟩) =
      List.replicate (rest.length - 1) none ++
        [some (Payload.ofArmored ((group ++ rest).flatMap Sentence.payload) last.fillBits)] := by
  -- the group takes one fragment at a time until the last one completes it
  induction rest generalizing group with
  | nil => simp at ends
  | cons s rest ih =>
    have regroup : group ++ s :: rest = (group ++ [s]) ++ rest := by simp
    have front : Numbered (group ++ [s]) :=
      numbered_of_prefix (regroup ▸ List.prefix_append _ rest) numbered
    have number := (numbered_append.mp front).2
    have fits := (continues_iff (numbered_append.mp front).1).mpr number
    have count := counted s (by simp)
    have positive := List.length_pos_of_ne_nil started
    have later : s.fragmentNumber ≠ 1 := by
      intro first
      rw [toInt_eq_one_iff.mpr first] at number
      omega
    rw [List.map_cons, slotOutputs]
    cases rest with
    | nil =>
      obtain rfl : s = last := by simpa using ends
      have ended := (complete_iff number).mpr (by simpa using count)
      have same : s.fragmentNumber = s.fragmentCount :=
        Int32.toInt_inj.mp (by rw [number, count]; simp)
      have step : groupStep (some group) s = (none, some (Payload.ofArmored
          ((group ++ [s]).flatMap Sentence.payload) s.fillBits)) := by
        simp only [groupStep, Option.getD_some]
        rw [if_neg later, if_neg (not_not.mpr fits), if_pos ended, combine_concat same]
      simp only [machine, step, slotOutputs, List.map_nil]
      rfl
    | cons t rest =>
      -- the declared count is the whole length, which is not reached yet
      have unfinished : ¬ group.length + 1 = sizeCast s.fragmentCount := by
        rw [complete_iff number, count]
        simp only [List.length_append, List.length_cons]
        omega
      have step : machine.slotStep (some group) ⟨s, source⟩ = (some (group ++ [s]), none) := by
        simp [machine, groupStep, later, fits, unfinished]
      rw [step, ih (by simp) (regroup ▸ numbered) ?_ (by simpa using ends), regroup]
      · simp [List.replicate_succ]
      · intro u member
        rw [← regroup]
        exact counted u (List.mem_cons_of_mem _ member)

/-- A whole message, from any leftover group: its first fragment starts afresh. -/
theorem slotOutputs_message (source : Bytes) {fragments : List Sentence}
    (pending : Option (List Sentence)) (two_le : 2 ≤ fragments.length)
    (numbered : Numbered fragments)
    (counted : ∀ s ∈ fragments, s.fragmentCount.toInt = fragments.length) {last : Sentence}
    (ends : fragments.getLast? = some last) :
    machine.slotOutputs pending (fragments.map fun s => ⟨s, source⟩) =
      List.replicate (fragments.length - 1) none ++
        [some (Payload.ofArmored (fragments.flatMap Sentence.payload) last.fillBits)] := by
  match fragments, two_le with
  | first :: second :: rest, _ =>
    have one : first.fragmentNumber = 1 := by
      have place : first.fragmentNumber.toInt = (0 : Nat) + 1 := numbered 0 (by simp)
      exact toInt_eq_one_iff.mp (by simpa using place)
    have step : machine.slotStep pending ⟨first, source⟩ = (some [first], none) := by
      simp [machine, groupStep, one]
    have continued := @slotOutputs_continued source [first] (second :: rest) (by simp) numbered
      (fun s member => counted s (List.mem_cons_of_mem _ member)) last (by simpa using ends)
    rw [List.map_cons, slotOutputs, step, continued]
    simp [List.replicate_succ]

end SentenceAssembler

/-! ### The lines of one message -/

/-- One piece of a payload, and how the line that carries it is written. -/
structure Piece where
  payload : Bytes
  fillBits : Int32 := 0
  fields : List Bytes := []
  after : Bytes := []
  talker : Bytes
  upper : Bool := true
  trailing : Bytes := []

/-- The line that carries a piece as fragment `index + 1` of `count`. -/
def Piece.line (key : FragmentKey) (count index : Nat) (piece : Piece) : TaggedLine where
  fields := piece.fields
  station := key.source
  after := piece.after
  sentence := {
    talker := piece.talker
    fragmentCount := Int32.ofNat count
    fragmentNumber := Int32.ofNat (index + 1)
    sequenceId := some key.sequenceId
    channel := key.channel
    payload := piece.payload
    fillBits := piece.fillBits
    upper := piece.upper
    trailing := piece.trailing }

/-- The lines for a payload cut into `pieces`. -/
def fragmentLines (key : FragmentKey) (pieces : List Piece) : List TaggedLine :=
  pieces.mapIdx fun index piece => piece.line key pieces.length index

/-- The armour alphabet, `0` to `W` and the backquote to `w`. -/
def IsArmour (c : UInt8) : Prop := 48 ≤ c ∧ c ≤ 87 ∨ 96 ≤ c ∧ c ≤ 119

instance (c : UInt8) : Decidable (IsArmour c) := inferInstanceAs (Decidable (_ ∨ _))

/-- The parts of a line around its piece contain no delimiter that is not meant. -/
structure Piece.Clean (piece : Piece) : Prop where
  fields : ∀ field ∈ piece.fields, TaggedLine.CleanField field ∧ isSourceField field = false
  after : piece.after = [] ∨ piece.after.head? = some ','.toUInt8 ∨
    piece.after.head? = some '*'.toUInt8
  after_backslash : '\\'.toUInt8 ∉ piece.after
  talker_comma : ','.toUInt8 ∉ piece.talker
  talker_star : '*'.toUInt8 ∉ piece.talker

/-- The line is rejected, or its sentence works under no key or under another one. -/
def Foreign (key : FragmentKey) (line : Bytes) : Prop :=
  ∀ call, DecoderStage.lineCall line = some call → call.key ≠ some key

private theorem armour_ne {c : UInt8} (armour : IsArmour c) :
    c ≠ ','.toUInt8 ∧ c ≠ '*'.toUInt8 := by
  constructor
  · rintro rfl
    revert armour
    simp only [IsArmour]
    decide
  · rintro rfl
    revert armour
    simp only [IsArmour]
    decide

section Message

variable {key : FragmentKey} {pieces : List Piece}

private theorem line_clean (station : TaggedLine.CleanField key.source) (named : key.source ≠ [])
    (channel : ','.toUInt8 ∉ key.channel ∧ '*'.toUInt8 ∉ key.channel) {piece : Piece}
    (written : piece.Clean) (armoured : ∀ c ∈ piece.payload, IsArmour c) (count index : Nat) :
    (piece.line key count index).Clean where
  fields := written.fields
  station := station
  station_nonempty := named
  after := written.after
  after_backslash := written.after_backslash
  sentence := {
    talker_comma := written.talker_comma
    talker_star := written.talker_star
    channel_comma := channel.1
    channel_star := channel.2
    payload_comma := fun member => (armour_ne (armoured _ member)).1 rfl
    payload_star := fun member => (armour_ne (armoured _ member)).2 rfl }

/-- The sentences on the lines of a message. -/
def fragmentSentences (key : FragmentKey) (pieces : List Piece) : List Sentence :=
  (fragmentLines key pieces).map fun line => line.sentence.sentence

private theorem length_sentences : (fragmentSentences key pieces).length = pieces.length := by
  simp [fragmentSentences, fragmentLines]

private theorem map_sentences {β : Type} {onSentence : Sentence → β} {onPiece : Piece → β}
    (same : ∀ count index (piece : Piece),
      onSentence (piece.line key count index).sentence.sentence = onPiece piece) :
    (fragmentSentences key pieces).map onSentence = pieces.map onPiece := by
  apply List.ext_getElem
  · simp [length_sentences]
  · intro i _ _
    simp [fragmentSentences, fragmentLines, same]

private theorem sentences_numbered (small : pieces.length < 2 ^ 31) :
    SentenceAssembler.Numbered (fragmentSentences key pieces) := by
  intro i inside
  rw [length_sentences] at inside
  have number : (Int32.ofNat (i + 1)).toInt = (i + 1 : Nat) := Int32.toInt_ofNat_of_lt (by omega)
  simpa [fragmentSentences, fragmentLines, Piece.line, SentenceText.sentence] using number

private theorem sentences_counted (small : pieces.length < 2 ^ 31) :
    ∀ s ∈ fragmentSentences key pieces,
      s.fragmentCount.toInt = (fragmentSentences key pieces).length := by
  intro s member
  rw [length_sentences]
  obtain ⟨line, written, rfl⟩ := List.mem_map.mp member
  obtain ⟨index, inside, rfl⟩ := List.mem_mapIdx.mp written
  exact Int32.toInt_ofNat_of_lt small

private theorem key_of_sentence (two_le : 2 ≤ pieces.length) (small : pieces.length < 2 ^ 31)
    {s : Sentence} (member : s ∈ fragmentSentences key pieces) :
    SentenceAssembler.Call.key ⟨s, key.source⟩ = some key := by
  have counted := sentences_counted small s member
  rw [length_sentences] at counted
  have multi : s.fragmentCount ≠ 1 := by
    rintro single
    rw [single] at counted
    have one : (1 : Int32).toInt = 1 := rfl
    omega
  obtain ⟨line, written, rfl⟩ := List.mem_map.mp member
  obtain ⟨index, inside, rfl⟩ := List.mem_mapIdx.mp written
  rw [SentenceAssembler.Call.key, if_neg multi]
  rfl

/-- Every line of the message leads to the call with its own sentence. -/
private theorem calls_of_message (station : TaggedLine.CleanField key.source) (named : key.source ≠ [])
    (channel : ','.toUInt8 ∉ key.channel ∧ '*'.toUInt8 ∉ key.channel)
    (armoured : ∀ piece ∈ pieces, ∀ c ∈ piece.payload, IsArmour c) (written : ∀ piece ∈ pieces, piece.Clean) :
    ((fragmentLines key pieces).map TaggedLine.write).map DecoderStage.lineCall =
      ((fragmentSentences key pieces).map fun s => (⟨s, key.source⟩ : SentenceAssembler.Call)).map
        some := by
  simp only [fragmentSentences, List.map_map]
  apply List.map_congr_left
  intro line member
  obtain ⟨index, inside, rfl⟩ := List.mem_mapIdx.mp member
  have piece := List.getElem_mem inside
  exact TaggedLine.lineCall_write
    (line_clean station named channel (written _ piece) (armoured _ piece) pieces.length index)

private theorem last_sentence (key : FragmentKey) {fillBits : Int32}
    (last : pieces.getLast?.map Piece.fillBits = some fillBits) :
    ∃ final, (fragmentSentences key pieces).getLast? = some final ∧ final.fillBits = fillBits := by
  have fills : (fragmentSentences key pieces).map Sentence.fillBits = pieces.map Piece.fillBits :=
    map_sentences fun _ _ _ => rfl
  have ends := congrArg List.getLast? fills
  rw [List.getLast?_map, List.getLast?_map, last] at ends
  exact Option.map_eq_some_iff.mp ends

private theorem joined_sentences :
    (fragmentSentences key pieces).flatMap Sentence.payload = pieces.flatMap Piece.payload := by
  rw [List.flatMap_def, List.flatMap_def]
  exact congrArg List.flatten (map_sentences fun _ _ _ => rfl)

/-- A single fragment has no key, so the answer does not depend on the state. -/
theorem processLine_uncut {single : TaggedLine} (clean : single.Clean)
    (uncut : single.sentence.fragmentCount = 1) (stage : DecoderStage) :
    stage.processLine single.write =
      .ok (stage, messageAt (Payload.ofArmored single.sentence.payload single.sentence.fillBits)) := by
  have keyless : SentenceAssembler.machine.key ⟨single.sentence.sentence, single.station⟩ = none := by
    simp [SentenceAssembler.machine, SentenceAssembler.Call.key, SentenceText.sentence, uncut]
  rw [DecoderStage.processLine_eq, DecoderStage.machine, comap_step, TaggedLine.lineCall_write clean]
  simp only [step_of_no_key keyless]
  simp [SentenceAssembler.machine, SentenceText.sentence, uncut]

/-- Cutting a message is transparent. From any state, with any foreign lines in between, the
last line of a cut message makes the stage push what the uncut message makes it push in any
state; the other lines of the message push nothing, and the foreign lines push what they
push without them. -/
theorem fragmentation_transparent (key : FragmentKey) (pieces : List Piece) (payload : Bytes)
    (fillBits : Int32) (single : TaggedLine) (trace : List (Bool × Bytes))
    (station : TaggedLine.CleanField key.source) (named : key.source ≠ [])
    (channel : ','.toUInt8 ∉ key.channel ∧ '*'.toUInt8 ∉ key.channel)
    (two_le : 2 ≤ pieces.length) (small : pieces.length < 2 ^ 31)
    (armoured : ∀ c ∈ payload, IsArmour c) (written : ∀ piece ∈ pieces, piece.Clean)
    (cut : pieces.flatMap Piece.payload = payload)
    (last : pieces.getLast?.map Piece.fillBits = some fillBits)
    (single_clean : single.Clean) (uncut : single.sentence.fragmentCount = 1)
    (same_payload : single.sentence.payload = payload)
    (same_fill : single.sentence.fillBits = fillBits)
    (mine : part true trace = (fragmentLines key pieces).map TaggedLine.write)
    (others : ∀ line ∈ part false trace, Foreign key line) (stage : DecoderStage) :
    ∃ pushed after outputs without,
      (∀ other : DecoderStage, other.processLine single.write = .ok (other, pushed)) ∧
      stage.runLines (trace.map Prod.snd) = .ok (after, outputs) ∧
      part true ((trace.map Prod.fst).zip outputs) =
        List.replicate (pieces.length - 1) none ++ [pushed] ∧
      stage.runLines (part false trace) =
        .ok (without, part false ((trace.map Prod.fst).zip outputs)) := by
  have alphabet : ∀ piece ∈ pieces, ∀ c ∈ piece.payload, IsArmour c := fun piece member c here =>
    armoured c (cut ▸ List.mem_flatMap.mpr ⟨piece, member, here⟩)
  have calls := calls_of_message station named channel alphabet written
  have keyed : ∀ line ∈ part true trace, DecoderStage.machine.key line = some key := by
    rw [mine]
    intro line member
    have called := List.mem_map_of_mem (f := DecoderStage.lineCall) member
    rw [calls, List.map_map] at called
    obtain ⟨s, sent, eq⟩ := List.mem_map.mp called
    simp [DecoderStage.machine, comap, ← eq, SentenceAssembler.machine,
      key_of_sentence two_le small sent]
  have foreign : ∀ line ∈ part false trace, DecoderStage.machine.key line ≠ some key := by
    intro line member own
    obtain ⟨call, called, same⟩ := Option.bind_eq_some_iff.mp own
    exact others line member call called same
  obtain ⟨final, at_end, same_last⟩ := last_sentence key last
  -- the lines of the message are the flagged events of one key
  obtain ⟨own, rest⟩ := @outputs_interleaved _ _ _ _ _ DecoderStage.machine key
    stage.assembler.pending stage.assembler.pending trace keyed foreign fun _ _ => rfl
  have whole := SentenceAssembler.slotOutputs_message key.source (stage.assembler.pending key)
    (length_sentences.symm ▸ two_le) (sentences_numbered small) (sentences_counted small) at_end
  refine ⟨messageAt (Payload.ofArmored payload fillBits), _, _,
    ⟨⟨DecoderStage.machine.run stage.assembler.pending (part false trace)⟩⟩, ?_,
    stage.runLines_eq _, ?_, ?_⟩
  · rw [← same_payload, ← same_fill]
    exact processLine_uncut single_clean uncut
  · refine own.trans ?_
    rw [mine, DecoderStage.machine, comap_slotOutputs _ _ _ _ calls, whole, joined_sentences, cut, same_last,
      length_sentences]
    simp
  · rw [stage.runLines_eq, ← rest]
    rfl

end Message

/-! A position report cut in two, with an empty line in between. -/

def reportKey : FragmentKey := ⟨[ 'S'.toUInt8], [ 'A'.toUInt8], 4⟩

def reportHead : Piece where
  payload := "13u?etPv2;0n:d".toList.map Char.toUInt8
  talker := "AIVDM".toList.map Char.toUInt8

def reportTail : Piece where
  payload := "DPwUM1U1Cb069D".toList.map Char.toUInt8
  talker := "AIVDM".toList.map Char.toUInt8

def reportUncut : TaggedLine where
  station := [ 'T'.toUInt8]
  sentence := {
    talker := "AIVDM".toList.map Char.toUInt8
    fragmentCount := 1
    fragmentNumber := 1
    sequenceId := none
    channel := [ 'B'.toUInt8]
    payload := "13u?etPv2;0n:dDPwUM1U1Cb069D".toList.map Char.toUInt8
    fillBits := 0 }

/-- What the report says. -/
def reportSent : PositionReport where
  messageType := 1
  mmsi := 265547250
  navStatus := .underWayEngine
  rateOfTurn := some (-8)
  sog := some (139 / 10)
  longitude := some (3549893 / 300000)
  latitude := some (8649053 / 150000)
  cog := some (202 / 5)
  trueHeading := some 41
  timestamp := 53
  radioStatus := 25172

theorem reportUncut_clean : reportUncut.Clean :=
  ⟨List.forall_mem_nil _, ⟨by decide, by decide, by decide⟩, by decide, Or.inl rfl, by decide,
    ⟨by decide, by decide, by decide, by decide, by decide, by decide⟩⟩

theorem processLine_reportUncut (stage : DecoderStage) :
    stage.processLine reportUncut.write = .ok (stage, some (.positionReport reportSent)) := by
  have decoded : messageAt (Payload.ofArmored reportUncut.sentence.payload reportUncut.sentence.fillBits) =
      some (.positionReport reportSent) := by decide +kernel
  rw [processLine_uncut reportUncut_clean rfl, decoded]

theorem runLines_reportUncut :
    DecoderStage.runLines {} [reportUncut.write] = .ok ({}, [some (.positionReport reportSent)]) := by
  have each : ∀ line ∈ [reportUncut], ∀ stage : DecoderStage,
      stage.processLine line.write = .ok (stage, some (.positionReport reportSent)) := by
    intro line member
    obtain rfl := List.mem_singleton.mp member
    exact processLine_reportUncut
  exact DecoderStage.runLines_map each {}

def reportTrace : List (Bool × Bytes) :=
  [(true, (reportHead.line reportKey 2 0).write), (false, []),
    (true, (reportTail.line reportKey 2 1).write)]

theorem fragmentation_transparent_report :
    ∃ pushed after outputs without,
      (∀ other : DecoderStage, other.processLine reportUncut.write = .ok (other, pushed)) ∧
      DecoderStage.runLines {} (reportTrace.map Prod.snd) = .ok (after, outputs) ∧
      part true ((reportTrace.map Prod.fst).zip outputs) = [none, pushed] ∧
      DecoderStage.runLines {} (part false reportTrace) =
        .ok (without, part false ((reportTrace.map Prod.fst).zip outputs)) := by
  apply fragmentation_transparent reportKey [reportHead, reportTail] reportUncut.sentence.payload 0
    reportUncut reportTrace
  case station => exact ⟨by decide, by decide, by decide⟩
  case single_clean => exact reportUncut_clean
  case written =>
    intro piece member
    simp only [List.mem_cons, List.not_mem_nil, or_false] at member
    rcases member with rfl | rfl
    · exact ⟨List.forall_mem_nil _, Or.inl rfl, by decide, by decide, by decide⟩
    · exact ⟨List.forall_mem_nil _, Or.inl rfl, by decide, by decide, by decide⟩
  case others =>
    intro line member call called
    obtain rfl : line = [] := List.mem_singleton.mp member
    exact absurd called (by rw [show DecoderStage.lineCall [] = none from rfl]; simp)
  case armoured =>
    have all : reportUncut.sentence.payload.all (fun c => decide (IsArmour c)) = true := by decide
    exact fun c member => of_decide_eq_true (List.all_eq_true.mp all c member)
  case mine => rfl
  all_goals decide

end Ais
