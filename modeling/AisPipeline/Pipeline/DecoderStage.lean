import AisPipeline.Decoder.AisMessage
import AisPipeline.Decoder.SentenceAssembler
import AisPipeline.Pipeline.TagBlock

/-!
# The decoder thread's work on one line

No line makes it throw, so the stage is a keyed machine over lines: a line is a
call of the assembler or has no effect.
-/
namespace Ais

open Cpp

/-- `DecoderStage`. -/
structure DecoderStage where
  assembler : SentenceAssembler := {}

namespace DecoderStage

/-- The body of the loop in `DecoderStage::run` for one line popped from the input: the
new state, and the message pushed to the output, if any. -/
def processLine (stage : DecoderStage) (line : Bytes) :
    Except Exn (DecoderStage × Option AisMessage) := do
  let view ← stripTagBlock line
  match view with
  | none => .ok (stage, none)
  | some view =>
    let sentence ← Sentence.ofText view
    if sentence.isValid ∧ sentence.isWellFormed then do
      let source ← tagBlockSource line
      let (assembler, payload) := stage.assembler.add sentence (source.getD [])
      match payload with
      | none => .ok (⟨assembler⟩, none)
      | some payload => do
        let result ← decodeMessage payload
        .ok (⟨assembler⟩, result)
    else .ok (stage, none)

/-- `DecoderStage::run` over the lines it pops, one output slot a line. -/
def runLines (stage : DecoderStage) : List Bytes → Except Exn (DecoderStage × List (Option AisMessage))
  | [] => .ok (stage, [])
  | line :: lines => do
    let (stage, output) ← stage.processLine line
    let (stage, outputs) ← runLines stage lines
    .ok (stage, output :: outputs)

/-! ### The stage as a keyed machine -/

/-- The call of the assembler a line leads to, when it is not rejected. -/
def lineCall (line : Bytes) : Option SentenceAssembler.Call :=
  match stripTagBlock line, tagBlockSource line with
  | .ok (some view), .ok source =>
    match Sentence.ofText view with
    | .ok sentence =>
      if sentence.isValid ∧ sentence.isWellFormed then some ⟨sentence, source.getD []⟩ else none
    | .error _ => none
  | _, _ => none

/-- The assembler fed with lines, its payloads decoded. -/
def machine : Keyed.Machine FragmentKey (Option (List Sentence)) Bytes (Option AisMessage) :=
  SentenceAssembler.machine.comap lineCall (fun payload => payload.bind messageAt) none

/-- On every line and in every state the stage does what the machine does, and returns. -/
theorem processLine_eq (stage : DecoderStage) (line : Bytes) :
    stage.processLine line =
      .ok (⟨⟨(machine.step stage.assembler.pending line).1⟩⟩,
        (machine.step stage.assembler.pending line).2) := by
  obtain ⟨⟨view, stripped⟩, source, found⟩ := tagBlock_returns line
  rw [machine, Keyed.Machine.comap_step]
  cases view with
  | none => simp [processLine, lineCall, stripped, bind, Except.bind]
  | some view =>
    obtain ⟨sentence, parsed⟩ := Sentence.ofText_returns view
    by_cases accepted : sentence.isValid ∧ sentence.isWellFormed
    · have call : lineCall line = some ⟨sentence, source.getD []⟩ := by
        simp [lineCall, stripped, found, parsed, accepted]
      have step := SentenceAssembler.add_eq_step stage.assembler ⟨sentence, source.getD []⟩
      simp only [processLine, stripped, parsed, found, accepted, call, step, bind, Except.bind,
        and_self, if_true]
      cases answer : (SentenceAssembler.machine.step stage.assembler.pending
          ⟨sentence, source.getD []⟩).2 with
      | none => rfl
      | some payload => simp [decodeMessage_eq]
    · have call : lineCall line = none := by simp [lineCall, stripped, found, parsed, accepted]
      simp [processLine, stripped, parsed, accepted, call, bind, Except.bind]

/-- The runs of the stage are the runs of the machine. -/
theorem runLines_eq (stage : DecoderStage) (lines : List Bytes) :
    stage.runLines lines =
      .ok (⟨⟨machine.run stage.assembler.pending lines⟩⟩,
        machine.outputs stage.assembler.pending lines) := by
  induction lines generalizing stage with
  | nil => rfl
  | cons line lines ih =>
    simp only [runLines, processLine_eq, ih, bind, Except.bind]
    rfl

/-- Lines that leave every stage as it is. -/
theorem runLines_map {α : Type} {line : α → Bytes} {output : α → Option AisMessage} {sent : List α}
    (each : ∀ a ∈ sent, ∀ stage : DecoderStage, stage.processLine (line a) = .ok (stage, output a))
    (stage : DecoderStage) : stage.runLines (sent.map line) = .ok (stage, sent.map output) := by
  induction sent with
  | nil => rfl
  | cons a sent ih =>
    have rest := ih fun b later => each b (List.mem_cons_of_mem _ later)
    simp only [List.map_cons, runLines, each a List.mem_cons_self, rest, bind, Except.bind]

theorem runLines_cons {stage after : DecoderStage} {line : Bytes} {lines : List Bytes}
    {outputs : List (Option AisMessage)} (ran : stage.runLines (line :: lines) = .ok (after, outputs)) :
    ∃ middle output later, stage.processLine line = .ok (middle, output) ∧
      middle.runLines lines = .ok (after, later) ∧ outputs = output :: later := by
  rw [runLines_eq, Except.ok.injEq, Prod.mk.injEq] at ran
  obtain ⟨rfl, rfl⟩ := ran
  exact ⟨_, _, _, stage.processLine_eq line, runLines_eq _ lines, rfl⟩

/-- A run over more lines is a run over the first of them, continued. -/
theorem runLines_append {stage middle : DecoderStage} {before : List Bytes}
    {outputs : List (Option AisMessage)} (earlier : stage.runLines before = .ok (middle, outputs))
    (after : List Bytes) :
    stage.runLines (before ++ after) =
      (middle.runLines after).map fun (last, later) => (last, outputs ++ later) := by
  rw [runLines_eq, Except.ok.injEq, Prod.mk.injEq] at earlier
  obtain ⟨rfl, rfl⟩ := earlier
  rw [runLines_eq, runLines_eq, Keyed.Machine.run_append, Keyed.Machine.outputs_append]
  rfl

end DecoderStage

end Ais
