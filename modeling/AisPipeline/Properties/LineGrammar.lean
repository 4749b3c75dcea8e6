import AisPipeline.Properties.Checksum
import AisPipeline.Properties.Transparency

/-!
# Which lines have an effect

What the fields of a line must look like for the decoder to emit a message or to
keep a fragment, read off the text of the line. A field counts for the number it
starts with; the conversions do not look at what follows it.
-/
namespace Ais

open Cpp

/-! ### Numbers in fields -/

/-- A complete decimal number: digits, behind a minus sign when it is negative. -/
def IsDecimal (text : Bytes) (n : Int) : Prop :=
  ∃ digits values, digits.map (digitValue 10) = values.map some ∧ values ≠ [] ∧
    (text = digits ∧ n = Numeral.value 10 values ∨
      text = '-'.toUInt8 :: digits ∧ n = -(Numeral.value 10 values : Int))

/-- The field starts with the decimal number `n`; what follows it, if anything, is no digit. -/
def LeadsWith (field : Bytes) (n : Int32) : Prop :=
  ∃ number rest, field = number ++ rest ∧ IsDecimal number n.toInt ∧
    ∀ c ∈ rest.head?, digitValue 10 c = none

theorem IsDecimal.ends_in_digit {text : Bytes} {n : Int} (decimal : IsDecimal text n) :
    ∃ c, text.getLast? = some c ∧ digitValue 10 c ≠ none := by
  obtain ⟨digits, values, read, nonempty, sign⟩ := decimal
  have some_digit : digits ≠ [] := by
    rintro rfl
    exact nonempty (List.map_eq_nil_iff.mp read.symm)
  have last : text.getLast? = some (digits.getLast some_digit) := by
    rcases sign with ⟨rfl, -⟩ | ⟨rfl, -⟩
    · exact List.getLast?_eq_some_getLast some_digit
    · rw [List.getLast?_cons_of_ne_nil some_digit, List.getLast?_eq_some_getLast some_digit]
  have member := List.mem_map_of_mem (f := digitValue 10) (List.getLast_mem some_digit)
  rw [read] at member
  obtain ⟨d, -, digit⟩ := List.mem_map.mp member
  exact ⟨_, last, by simp [← digit]⟩

private theorem digits_unsigned {digits rest : Bytes} {values : List Nat}
    (read : digits.map (digitValue 10) = values.map some) (nonempty : values ≠ []) :
    (digits ++ rest).head? ≠ some '-'.toUInt8 := by
  rcases digits with _ | ⟨c, digits⟩
  · exact absurd (List.map_eq_nil_iff.mp read.symm) nonempty
  · obtain ⟨d, values, rfl⟩ := List.exists_cons_of_ne_nil nonempty
    simp only [List.map_cons, List.cons.injEq] at read
    rintro ⟨⟩
    revert read
    simp [show digitValue 10 '-'.toUInt8 = none by decide]

/-- A text is the decimal form of one number at most. -/
theorem IsDecimal.unique {text : Bytes} {n m : Int} (decimal : IsDecimal text n)
    (other : IsDecimal text m) : n = m := by
  have same_values {digits : Bytes} {values values' : List Nat}
      (read : digits.map (digitValue 10) = values.map some)
      (read' : digits.map (digitValue 10) = values'.map some) : values = values' :=
    List.map_injective_iff.mpr (Option.some_injective Nat) (read.symm.trans read')
  -- a text without a sign does not start with one
  have no_sign {digits digits' : Bytes} {values : List Nat}
      (read : digits.map (digitValue 10) = values.map some) (nonempty : values ≠ []) :
      digits ≠ '-'.toUInt8 :: digits' := by
    rintro rfl
    have unsigned : ('-'.toUInt8 :: digits' ++ []).head? ≠ some '-'.toUInt8 :=
      digits_unsigned read nonempty
    exact unsigned rfl
  obtain ⟨digits, values, read, nonempty, ⟨rfl, rfl⟩ | ⟨rfl, rfl⟩⟩ := decimal
  · obtain ⟨digits', values', read', -, ⟨rfl, rfl⟩ | ⟨signed, -⟩⟩ := other
    · rw [same_values read read']
    · exact absurd signed (no_sign read nonempty)
  · obtain ⟨digits', values', read', nonempty', ⟨signed, -⟩ | ⟨same, rfl⟩⟩ := other
    · exact absurd signed.symm (no_sign read' nonempty')
    · cases same
      rw [same_values read read']

private theorem read_ok {values : List Nat} {result : Int} {n old : Int32}
    (parsed : (if values = [] then (old, Errc.invalidArgument)
      else if -2 ^ 31 ≤ result ∧ result < 2 ^ 31 then (Int32.ofInt result, Errc.ok)
      else (old, Errc.resultOutOfRange)) = (n, Errc.ok)) :
    values ≠ [] ∧ n.toInt = result := by
  split at parsed
  · simp at parsed
  next some_digit =>
    split at parsed
    next fits =>
      obtain ⟨rfl, -⟩ := Prod.mk.inj parsed
      exact ⟨some_digit, Int32.toInt_ofInt_of_le (by omega) (by omega)⟩
    next => simp at parsed

/-- `from_chars` succeeds exactly on the fields that start with a number an `int` can hold. -/
theorem leadsWith_iff {field : Bytes} {n : Int32} (old : Int32) :
    LeadsWith field n ↔ fromCharsInt field old = (n, .ok) := by
  constructor
  · rintro ⟨number, rest, rfl, ⟨digits, values, read, nonempty, sign⟩, stop⟩
    have low := n.le_toInt
    have high := n.toInt_lt
    have run := digitRun_append read stop
    rcases sign with ⟨rfl, value⟩ | ⟨rfl, value⟩
    · simp only [fromCharsInt, digits_unsigned read nonempty, if_false, run, nonempty, ← value]
      rw [if_pos ⟨low, high⟩, Int32.ofInt_toInt]
    · simp only [fromCharsInt, List.cons_append, List.head?_cons, if_true, List.tail_cons, run,
        nonempty, if_false, ← value]
      rw [if_pos ⟨low, high⟩, Int32.ofInt_toInt]
  -- the number read is made of the digits the field starts with, behind the sign
  · intro parsed
    by_cases negative : field.head? = some '-'.toUInt8
    · obtain ⟨after, rfl⟩ := List.head?_eq_some_iff.mp negative
      obtain ⟨digits, rest, cut, read, stop⟩ := exists_digitRun 10 after
      simp only [fromCharsInt, negative, if_true, List.tail_cons] at parsed
      obtain ⟨some_digit, value⟩ := read_ok parsed
      refine ⟨'-'.toUInt8 :: digits, rest, ?_, ?_, stop⟩
      · rw [cut, List.cons_append]
      · exact ⟨digits, _, read, some_digit, Or.inr ⟨rfl, value⟩⟩
    · obtain ⟨digits, rest, cut, read, stop⟩ := exists_digitRun 10 field
      simp only [fromCharsInt, negative, if_false] at parsed
      obtain ⟨some_digit, value⟩ := read_ok parsed
      exact ⟨digits, rest, cut, ⟨digits, _, read, some_digit, Or.inl ⟨rfl, value⟩⟩, stop⟩

/-- A field either starts with a number or leaves its member as it was. -/
theorem leadsWith_or_kept (field : Bytes) (old : Int32) :
    LeadsWith field (fromCharsInt field old).1 ∨
      (∀ n, ¬ LeadsWith field n) ∧ (fromCharsInt field old).1 = old := by
  simp only [leadsWith_iff old]
  cases parsed : fromCharsInt field old with
  | mk value ec =>
    by_cases success : ec = .ok
    · exact Or.inl (by rw [success])
    · refine Or.inr ⟨fun n same => success (Prod.mk.inj same).2, ?_⟩
      -- both errors leave the old value in place
      simp only [fromCharsInt] at parsed
      split_ifs at parsed
      all_goals
        obtain ⟨rfl, rfl⟩ := Prod.mk.inj parsed
        first
          | rfl
          | exact absurd rfl success

/-- Apart from 0, a member has a value only because its field starts with it. -/
theorem fromCharsInt_eq_iff {field : Bytes} {n : Int32} (nonzero : n ≠ 0) :
    (fromCharsInt field 0).1 = n ↔ LeadsWith field n := by
  constructor
  · rintro rfl
    rcases leadsWith_or_kept field 0 with leads | ⟨-, kept⟩
    · exact leads
    · exact absurd kept nonzero
  · intro leads
    rw [(leadsWith_iff 0).mp leads]

theorem leadsWith_of_pos {field : Bytes} (positive : 0 < (fromCharsInt field 0).1.toInt) :
    LeadsWith field (fromCharsInt field 0).1 := by
  refine (fromCharsInt_eq_iff ?_).mp rfl
  intro zero
  rw [zero] at positive
  exact absurd positive (by decide)

theorem sequenceIdOf_eq_some_iff {field : Bytes} {id : Int32} :
    Sentence.sequenceIdOf field = some id ↔ LeadsWith field id := by
  rw [leadsWith_iff 0]
  simp only [Sentence.sequenceIdOf]
  split
  next empty =>
    subst empty
    simp [fromCharsInt, digitRun]
  next =>
    rw [Prod.ext_iff, Option.ite_none_right_eq_some, Option.some.injEq]
    exact and_comm

/-- `fill` is in the range 0 to 5, and the number the field starts with, if any, brought into it. -/
def FillBits (field : Bytes) (fill : Int32) : Prop :=
  0 ≤ fill.toInt ∧ fill.toInt ≤ 5 ∧
    ∀ n, LeadsWith field n → fill.toInt = max 0 (min n.toInt 5)

private theorem exists_clamped (n : Int32) :
    ∃ fill : Int32, fill.toInt = max 0 (min n.toInt 5) ∧
      ∀ text, Payload.ofArmored text n = Payload.ofArmored text fill := by
  have zero : (0 : Int32).toInt = 0 := rfl
  have five : (5 : Int32).toInt = 5 := rfl
  by_cases negative : n < 0
  · have below := Int32.lt_iff_toInt_lt.mp negative
    refine ⟨0, by omega, fun text => ?_⟩
    simp [Payload.ofArmored, Payload.fillDrop, negative]
  have not_below := mt Int32.lt_iff_toInt_lt.mpr negative
  by_cases large : n > 5
  · have above := Int32.lt_iff_toInt_lt.mp large
    refine ⟨5, by omega, fun text => ?_⟩
    simp [Payload.ofArmored, Payload.fillDrop, negative, large]
  · have not_above := mt Int32.lt_iff_toInt_lt.mpr large
    exact ⟨n, by omega, fun text => rfl⟩

theorem exists_fillBits (field : Bytes) :
    ∃ fill, FillBits field fill ∧
      ∀ text, Payload.ofArmored text (fromCharsInt field 0).1 = Payload.ofArmored text fill := by
  obtain ⟨fill, clamped, same⟩ := exists_clamped (fromCharsInt field 0).1
  refine ⟨fill, ⟨by omega, by omega, fun n leads => ?_⟩, same⟩
  rw [clamped, (leadsWith_iff 0).mp leads]

/-! ### What the assembler does with a sentence -/

/-- `add` on a state whose groups are numbered in order: a keyed sentence is kept behind the
fragments in front of it, or ends the group of its key, with or without a message. -/
theorem SentenceAssembler.add_cases {assembler : SentenceAssembler}
    (ordered : ∀ key, Numbered ((assembler.pending key).getD [])) (s : Sentence) (source : Bytes) :
    (s.fragmentCount = 1 ∧
      assembler.add s source = (assembler, some (Payload.ofArmored s.payload s.fillBits))) ∨
    assembler.add s source = (assembler, none) ∨
    ∃ key, Call.key ⟨s, source⟩ = some key ∧
      ((∃ front, (front = [] ∨ assembler.pending key = some front) ∧
          s.fragmentNumber.toInt = front.length + 1 ∧
          assembler.add s source = (assembler.set key (some (front ++ [s])), none)) ∨
        assembler.add s source = (assembler.set key none, none) ∨
        ∃ group, assembler.pending key = some group ∧ group ≠ [] ∧
          s.fragmentNumber.toInt = group.length + 1 ∧ s.fragmentCount.toInt = group.length + 1 ∧
          assembler.add s source = (assembler.set key none,
            some (Payload.ofArmored ((group ++ [s]).flatMap Sentence.payload) s.fillBits))) := by
  by_cases single : s.fragmentCount = 1
  · exact Or.inl ⟨single, by simp [add, single]⟩
  right
  cases numbered : s.sequenceId with
  | none => exact Or.inl (by simp [add, single, numbered])
  | some id =>
    right
    refine ⟨⟨source, s.channel, id⟩, by simp [Call.key, single, numbered], ?_⟩
    simp only [add, single, if_false, numbered]
    split
    -- a first fragment, in front of which nothing stands
    next first => exact Or.inl ⟨[], Or.inl rfl, toInt_eq_one_iff.mpr first, rfl⟩
    next later =>
      split
      next gap => exact Or.inr (Or.inl rfl)
      next fits =>
        have number := (continues_iff (ordered _)).mp (not_not.mp fits)
        -- the number is not 1, so there is a group in front of the sentence
        have nonempty : (assembler.pending ⟨source, s.channel, id⟩).getD [] ≠ [] := by
          intro empty
          rw [empty] at number
          exact later (toInt_eq_one_iff.mp (by simpa using number))
        cases stored : assembler.pending ⟨source, s.channel, id⟩ with
        | none => exact absurd (by rw [stored, Option.getD_none]) nonempty
        | some group =>
          rw [stored, Option.getD_some] at number nonempty
          simp only [Option.getD_some]
          split
          next ended =>
            rw [List.length_append, List.length_singleton] at ended
            have count := (complete_iff number).mp ended
            have last : s.fragmentNumber = s.fragmentCount := Int32.toInt_inj.mp (by omega)
            exact Or.inr (Or.inr ⟨group, rfl, nonempty, number, count, by rw [combine_concat last]⟩)
          next unfinished => exact Or.inl ⟨group, Or.inr rfl, number, rfl⟩

/-! ### From lines to fields -/

namespace DecoderStage

open Sentence (Fields)

/-- The line, behind a tag block or not, is made of the fields `f` and has a matching checksum. -/
structure Reads (line : Bytes) (f : Fields) : Prop where
  commaFree : f.CommaFree
  text : stripTagBlock line = .ok (some f.join)
  checked : Sentence.checkValid f.join = .ok true

/-- The key under which a line with the fields `f` keeps its fragments. -/
structure KeyOf (line : Bytes) (f : Fields) (key : FragmentKey) : Prop where
  source : ∃ source, tagBlockSource line = .ok source ∧ key.source = source.getD []
  channel : key.channel = f.channel
  sequenceId : LeadsWith f.seq key.sequenceId

theorem lineCall_eq_some {line : Bytes} {call : SentenceAssembler.Call}
    (called : lineCall line = some call) :
    ∃ f source, Reads line f ∧ tagBlockSource line = .ok source ∧ call = ⟨f.read, source.getD []⟩ := by
  obtain ⟨⟨view, stripped⟩, source, found⟩ := tagBlock_returns line
  cases view with
  | none => simp [lineCall, stripped] at called
  | some view =>
    obtain ⟨sentence, parsed⟩ := Sentence.ofText_returns view
    simp only [lineCall, stripped, found, parsed, Option.ite_none_right_eq_some,
      Option.some.injEq] at called
    obtain ⟨⟨valid, formed⟩, rfl⟩ := called
    have accepted : Sentence.Accepted view sentence := ⟨parsed, valid, formed⟩
    obtain ⟨f, free, rfl⟩ := accepted.exists_fields
    obtain ⟨checked, rfl⟩ := (Sentence.accepted_join_iff free).mp accepted
    exact ⟨f, source, ⟨free, stripped, checked⟩, found, rfl⟩

theorem single_iff {f : Fields} : f.read.fragmentCount = 1 ↔ LeadsWith f.count 1 :=
  fromCharsInt_eq_iff (by decide)

theorem count_leads {f : Fields} (positive : 0 < f.read.fragmentCount.toInt) :
    LeadsWith f.count f.read.fragmentCount := leadsWith_of_pos positive

theorem number_leads {f : Fields} (positive : 0 < f.read.fragmentNumber.toInt) :
    LeadsWith f.number f.read.fragmentNumber := leadsWith_of_pos positive

theorem key_eq_some_iff {line : Bytes} {f : Fields} {source : Option Bytes} {key : FragmentKey}
    (found : tagBlockSource line = .ok source) :
    SentenceAssembler.Call.key ⟨f.read, source.getD []⟩ = some key ↔
      ¬ LeadsWith f.count 1 ∧ KeyOf line f key := by
  simp only [SentenceAssembler.Call.key, single_iff, Option.ite_none_left_eq_some, Option.map_eq_some_iff]
  apply and_congr_right
  intro several
  constructor
  · rintro ⟨id, numbered, rfl⟩
    exact ⟨⟨source, found, rfl⟩, rfl, sequenceIdOf_eq_some_iff.mp numbered⟩
  · rintro ⟨⟨source', found', same⟩, channel, numbered⟩
    obtain rfl := Except.ok.inj (found.symm.trans found')
    refine ⟨key.sequenceId, sequenceIdOf_eq_some_iff.mpr numbered, ?_⟩
    cases key
    simp only [FragmentKey.mk.injEq] at same channel ⊢
    exact ⟨same.symm, channel.symm, trivial⟩

/-! ### What a line does -/

/-- Everything a line can do to the stage: the state after it and the message it emits. -/
inductive Outcome (stage : DecoderStage) (line : Bytes) : DecoderStage → Option AisMessage → Prop
  | ignored : Outcome stage line stage none
  | single (f : Fields) (reads : Reads line f) (one : LeadsWith f.count 1) :
      Outcome stage line stage (messageAt (Payload.ofArmored f.payload f.read.fillBits))
  | stored (f : Fields) (key : FragmentKey) (front : List Sentence) (reads : Reads line f)
      (several : ¬ LeadsWith f.count 1) (keyed : KeyOf line f key)
      (pending : front = [] ∨ stage.assembler.pending key = some front)
      (number : f.read.fragmentNumber.toInt = front.length + 1) :
      Outcome stage line ⟨stage.assembler.set key (some (front ++ [f.read]))⟩ none
  | dropped (f : Fields) (key : FragmentKey) (reads : Reads line f) (keyed : KeyOf line f key) :
      Outcome stage line ⟨stage.assembler.set key none⟩ none
  | completed (f : Fields) (key : FragmentKey) (group : List Sentence) (reads : Reads line f)
      (keyed : KeyOf line f key) (pending : stage.assembler.pending key = some group)
      (nonempty : group ≠ [])
      (number : f.read.fragmentNumber.toInt = group.length + 1)
      (count : f.read.fragmentCount.toInt = group.length + 1) :
      Outcome stage line ⟨stage.assembler.set key none⟩
        (messageAt (Payload.ofArmored (group.flatMap Sentence.payload ++ f.payload) f.read.fillBits))

/-- Every group is numbered in order. -/
def InOrder (stage : DecoderStage) : Prop :=
  ∀ key, SentenceAssembler.Numbered ((stage.assembler.pending key).getD [])

theorem processLine_of_call {stage : DecoderStage} {line : Bytes} {call : SentenceAssembler.Call}
    (called : lineCall line = some call) :
    stage.processLine line =
      .ok (⟨(stage.assembler.add call.sentence call.source).1⟩,
        (stage.assembler.add call.sentence call.source).2.bind messageAt) := by
  rw [processLine_eq, machine, Keyed.Machine.comap_step, called, SentenceAssembler.add_eq_step]

theorem processLine_of_rejected {stage : DecoderStage} {line : Bytes}
    (rejected : lineCall line = none) : stage.processLine line = .ok (stage, none) := by
  rw [processLine_eq, machine, Keyed.Machine.comap_step, rejected]

/-- From a state in order, a line does one of the five things. -/
theorem processLine_outcome {stage : DecoderStage} (ordered : stage.InOrder) (line : Bytes) :
    ∃ after output, stage.processLine line = .ok (after, output) ∧
      Outcome stage line after output := by
  cases called : lineCall line with
  | none => exact ⟨stage, none, processLine_of_rejected called, .ignored⟩
  | some call =>
    refine ⟨_, _, processLine_of_call called, ?_⟩
    obtain ⟨f, source, reads, found, rfl⟩ := lineCall_eq_some called
    rcases SentenceAssembler.add_cases ordered f.read (source.getD []) with
      ⟨single, added⟩ | added | ⟨key, keyed, done⟩
    · simp only [added, Option.bind_some]
      exact .single f reads (single_iff.mp single)
    · simp only [added, Option.bind_none]
      exact .ignored
    · obtain ⟨several, keyed⟩ := (key_eq_some_iff found).mp keyed
      rcases done with ⟨front, pending, number, added⟩ | added |
        ⟨group, pending, nonempty, number, count, added⟩
      · simp only [added, Option.bind_none]
        exact .stored f key front reads several keyed pending number
      · simp only [added, Option.bind_none]
        exact .dropped f key reads keyed
      · simp only [added, Option.bind_some, List.flatMap_append, List.flatMap_singleton]
        exact .completed f key group reads keyed pending nonempty number count

private theorem inOrder_set {stage : DecoderStage} (ordered : stage.InOrder) {key : FragmentKey}
    {group : Option (List Sentence)} (counted : SentenceAssembler.Numbered (group.getD [])) :
    InOrder ⟨stage.assembler.set key group⟩ := by
  intro other
  by_cases same : other = key
  · subst same
    rwa [SentenceAssembler.set_pending_self]
  · rw [SentenceAssembler.set_pending_of_ne _ _ same]
    exact ordered other

theorem Outcome.inOrder {stage after : DecoderStage} {line : Bytes} {output : Option AisMessage}
    (outcome : Outcome stage line after output) (ordered : stage.InOrder) : after.InOrder := by
  have no_group : SentenceAssembler.Numbered ((none : Option (List Sentence)).getD []) := by
    simp [SentenceAssembler.Numbered]
  cases outcome with
  | ignored => exact ordered
  | single => exact ordered
  | stored f key front reads several keyed pending number =>
    have counted : SentenceAssembler.Numbered front := by
      rcases pending with rfl | pending
      · exact no_group
      · have here := ordered key
        rwa [pending] at here
    exact inOrder_set ordered (SentenceAssembler.numbered_append.mpr ⟨counted, number⟩)
  | dropped => exact inOrder_set ordered no_group
  | completed => exact inOrder_set ordered no_group

/-- Whatever lines came before, the groups are in order. -/
theorem runLines_inOrder {stage : DecoderStage} (ordered : stage.InOrder) (lines : List Bytes) :
    ∃ after outputs, stage.runLines lines = .ok (after, outputs) ∧ after.InOrder := by
  induction lines generalizing stage with
  | nil => exact ⟨stage, [], rfl, ordered⟩
  | cons line lines ih =>
    obtain ⟨next, output, processed, outcome⟩ := processLine_outcome ordered line
    obtain ⟨after, outputs, run, counted⟩ := ih (outcome.inOrder ordered)
    refine ⟨after, output :: outputs, ?_, counted⟩
    simp only [runLines, processed, run, bind, Except.bind]

/-! ### The fields an effect takes -/

/-- The fields of a line that gives `message` by itself. -/
def EmitsAlone (f : Fields) (message : AisMessage) : Prop :=
  LeadsWith f.count 1 ∧
    ∃ fill, FillBits f.rest fill ∧ messageAt (Payload.ofArmored f.payload fill) = some message

/-- The fields of a line that gives `message` as the last of several fragments, the others of
which are pending. -/
def EmitsLast (stage : DecoderStage) (line : Bytes) (f : Fields) (message : AisMessage) : Prop :=
  ∃ n key group, 2 ≤ n.toInt ∧ LeadsWith f.count n ∧ LeadsWith f.number n ∧ KeyOf line f key ∧
    stage.assembler.pending key = some group ∧ group.length + 1 = n.toInt ∧
    ∃ fill, FillBits f.rest fill ∧ messageAt
      (Payload.ofArmored (group.flatMap Sentence.payload ++ f.payload) fill) = some message

/-- The fields of a line that is fragment number `number` of a message under `key`. -/
def IsPart (line : Bytes) (f : Fields) (key : FragmentKey) (number : Int32) : Prop :=
  ¬ LeadsWith f.count 1 ∧ LeadsWith f.number number ∧ 1 ≤ number.toInt ∧ KeyOf line f key

theorem Outcome.message {stage after : DecoderStage} {line : Bytes} {message : AisMessage}
    (outcome : Outcome stage line after (some message)) :
    ∃ f, Reads line f ∧ (EmitsAlone f message ∨ EmitsLast stage line f message) := by
  generalize shown : some message = output at outcome
  cases outcome with
  | ignored => cases shown
  | single f reads one =>
    obtain ⟨fill, fits, same⟩ := exists_fillBits f.rest
    refine ⟨f, reads, Or.inl ⟨one, fill, fits, ?_⟩⟩
    rw [← same, shown]
    rfl
  | stored => cases shown
  | dropped => cases shown
  | completed f key group reads keyed pending nonempty number count =>
    obtain ⟨fill, fits, same⟩ := exists_fillBits f.rest
    have positive := List.length_pos_of_ne_nil nonempty
    have equal : f.read.fragmentCount = f.read.fragmentNumber := Int32.toInt_inj.mp (by omega)
    refine ⟨f, reads, Or.inr ⟨f.read.fragmentNumber, key, group, by omega, ?_, ?_, keyed, pending,
      by omega, fill, fits, ?_⟩⟩
    · rw [← equal]
      exact count_leads (by omega)
    · exact number_leads (by omega)
    · rw [← same, shown]
      rfl

/-- A group that is new under its key ends in the fragment of the line. -/
theorem Outcome.stores {stage after : DecoderStage} {line : Bytes} {output : Option AisMessage}
    (outcome : Outcome stage line after output) {key : FragmentKey} {group : List Sentence}
    (kept : after.assembler.pending key = some group) :
    stage.assembler.pending key = some group ∨
      ∃ f front number, Reads line f ∧ IsPart line f key number ∧ group = front ++ [f.read] ∧
        group.length = number.toInt := by
  -- a line that ends the group of its key leaves the other groups as they were
  have not_new {ended : FragmentKey}
      (kept : (stage.assembler.set ended none).pending key = some group) :
      stage.assembler.pending key = some group := by
    by_cases same : key = ended
    · subst same
      simp at kept
    · rwa [SentenceAssembler.set_pending_of_ne _ _ same] at kept
  cases outcome with
  | ignored => exact Or.inl kept
  | single => exact Or.inl kept
  | stored f own front reads several keyed pending number =>
    by_cases same : key = own
    · subst same
      rw [SentenceAssembler.set_pending_self] at kept
      cases kept
      refine Or.inr ⟨f, front, f.read.fragmentNumber, reads, ⟨several, ?_, by omega, keyed⟩, rfl, ?_⟩
      · exact number_leads (by omega)
      · rw [number, List.length_append, List.length_singleton]
        rfl
    · rw [SentenceAssembler.set_pending_of_ne _ _ same] at kept
      exact Or.inl kept
  | dropped => exact Or.inl (not_new kept)
  | completed => exact Or.inl (not_new kept)

/-- Apart from a single fragment and a part of a message, a line can only drop the group of its
key. -/
theorem Outcome.drops {stage after : DecoderStage} {line : Bytes} {output : Option AisMessage}
    (outcome : Outcome stage line after output)
    (no_effect : ∀ f, Reads line f → ¬ LeadsWith f.count 1 ∧ ∀ key number, ¬ IsPart line f key number) :
    output = none ∧ (after = stage ∨
      ∃ f key, Reads line f ∧ KeyOf line f key ∧ after = ⟨stage.assembler.set key none⟩) := by
  cases outcome with
  | ignored => exact ⟨rfl, Or.inl rfl⟩
  | single f reads one => exact absurd one (no_effect f reads).1
  | stored f key front reads several keyed pending number =>
    exact absurd ⟨several, number_leads (by omega), by omega, keyed⟩ ((no_effect f reads).2 key _)
  | dropped f key reads keyed => exact ⟨rfl, Or.inr ⟨f, key, reads, keyed, rfl⟩⟩
  | completed f key group reads keyed pending nonempty number count =>
    obtain ⟨single, not_part⟩ := no_effect f reads
    exact absurd ⟨single, number_leads (by omega), by omega, keyed⟩ (not_part key _)

/-- After any lines, a line that emits a message has the fields of a single fragment or of the last
one of a pending group, a line that stores a fragment has those of a part, and any other line emits
nothing and at most drops the group of its own key. -/
theorem line_effects (lines : List Bytes) (line : Bytes) :
    ∃ stage outputs after output, runLines {} lines = .ok (stage, outputs) ∧
      stage.processLine line = .ok (after, output) ∧
      (∀ message, output = some message →
        ∃ f, Reads line f ∧ (EmitsAlone f message ∨ EmitsLast stage line f message)) ∧
      (∀ key group, after.assembler.pending key = some group →
        stage.assembler.pending key = some group ∨
        ∃ f front number, Reads line f ∧ IsPart line f key number ∧ group = front ++ [f.read] ∧
          group.length = number.toInt) ∧
      ((∀ f, Reads line f → ¬ LeadsWith f.count 1 ∧ ∀ key number, ¬ IsPart line f key number) →
        output = none ∧ (after = stage ∨
          ∃ f key, Reads line f ∧ KeyOf line f key ∧ after = ⟨stage.assembler.set key none⟩)) := by
  have start : InOrder {} := by
    intro key
    simp [SentenceAssembler.Numbered]
  obtain ⟨stage, outputs, run, ordered⟩ := runLines_inOrder start lines
  obtain ⟨after, output, processed, outcome⟩ := processLine_outcome ordered line
  refine ⟨stage, outputs, after, output, run, processed, ?_, fun key group => outcome.stores,
    outcome.drops⟩
  rintro message rfl
  exact outcome.message

/-! ### The grammar of an AIVDM line -/

/-- The fields as the format describes them. -/
structure FollowsGrammar (f : Fields) : Prop where
  fragments : ∃ count number, IsDecimal f.count count ∧ IsDecimal f.number number ∧
    1 ≤ number ∧ number ≤ count
  sequenceId : f.seq = [] ∨ ∃ id, IsDecimal f.seq id
  armoured : ∀ c ∈ f.payload, IsArmour c
  fill : ∃ fill, IsDecimal (Sentence.beforeStar f.rest) fill ∧ 0 ≤ fill ∧ fill ≤ 5

def MatchesGrammar (line : Bytes) : Prop := ∃ f, Reads line f ∧ FollowsGrammar f

/-- A line has one list of fields only. -/
private theorem Reads.unique {line : Bytes} {f g : Fields} (reads : Reads line f)
    (reads' : Reads line g) :
    f.count = g.count ∧ f.number = g.number ∧ f.seq = g.seq ∧ f.payload = g.payload ∧
      f.rest = g.rest := by
  have same : f.join = g.join := by simpa using reads.text.symm.trans reads'.text
  obtain ⟨c0, c1, c2, c3, c4, c5, commas, -, count, number, seq, -, payload, rest⟩ :=
    Sentence.findCommas_join reads.commaFree
  obtain ⟨_, _, _, _, _, _, commas', -, count', number', seq', -, payload', rest'⟩ :=
    Sentence.findCommas_join reads'.commaFree
  -- the same text has its commas in the same places
  rw [same] at commas count number seq payload rest
  rw [commas] at commas'
  cases commas'
  exact ⟨Except.ok.inj (count.symm.trans count'), Except.ok.inj (number.symm.trans number'),
    Except.ok.inj (seq.symm.trans seq'), Except.ok.inj (payload.symm.trans payload'),
    Except.ok.inj (rest.symm.trans rest')⟩

/-- A single fragment numbered 9, with 7 fill bits. -/
def overfilled : Fields where
  talker := "!AIVDM".toList.map Char.toUInt8
  count := [ '1'.toUInt8]
  number := [ '9'.toUInt8]
  seq := []
  channel := [ 'A'.toUInt8]
  payload := "H000000000000000000000000000".toList.map Char.toUInt8
  rest := "7*51".toList.map Char.toUInt8

/-- No field of numbers is one, and the payload leaves the alphabet. -/
def loose : Fields where
  talker := "!AIVDM".toList.map Char.toUInt8
  count := "1x".toList.map Char.toUInt8
  number := "9y".toList.map Char.toUInt8
  seq := "zz".toList.map Char.toUInt8
  channel := [ 'A'.toUInt8]
  payload := "H00000000000000000000000000X".toList.map Char.toUInt8
  rest := "*0F".toList.map Char.toUInt8

/-- The first of two fragments, and a third. -/
def opening : Fields where
  talker := "!AIVDM".toList.map Char.toUInt8
  count := [ '2'.toUInt8]
  number := [ '1'.toUInt8]
  seq := [ '4'.toUInt8]
  channel := [ 'A'.toUInt8]
  payload := [ 'a'.toUInt8]
  rest := "0*70".toList.map Char.toUInt8

def openingKey : FragmentKey := ⟨[], [ 'A'.toUInt8], 4⟩

def third : Fields :=
  { opening with
    number := [ '3'.toUInt8]
    rest := "0*72".toList.map Char.toUInt8 }

private theorem processLine_single {line : Bytes} {f : Fields}
    (called : lineCall line = some ⟨f.read, []⟩) (single : f.read.fragmentCount = 1) :
    processLine {} line = .ok ({}, messageAt (Payload.ofArmored f.payload f.read.fillBits)) := by
  simp only [processLine_of_call called, SentenceAssembler.add, single, if_true, Option.bind_some]
  rfl

private theorem overfilled_mismatch : ¬ MatchesGrammar overfilled.join := by
  rintro ⟨f, reads, follows⟩
  have own : Reads overfilled.join overfilled :=
    ⟨⟨by decide, by decide, by decide, by decide, by decide, by decide⟩, rfl, rfl⟩
  obtain ⟨-, -, -, -, rest⟩ := reads.unique own
  obtain ⟨fill, decimal, -, small⟩ := follows.fill
  rw [rest] at decimal
  have seven : IsDecimal (Sentence.beforeStar overfilled.rest) 7 :=
    ⟨_, [7], by decide, by simp, Or.inl ⟨rfl, rfl⟩⟩
  have value := decimal.unique seven
  omega

/-- No number of the line is one, and its payload has a character outside the alphabet. -/
private theorem loose_mismatch {f : Fields} (reads : Reads loose.join f) :
    (∀ n, ¬ IsDecimal f.count n) ∧ (∀ n, ¬ IsDecimal f.number n) ∧ f.seq ≠ [] ∧
      (∀ n, ¬ IsDecimal f.seq n) ∧ (∃ c ∈ f.payload, ¬ IsArmour c) ∧
      ∀ n, ¬ IsDecimal (Sentence.beforeStar f.rest) n := by
  have own : Reads loose.join loose :=
    ⟨⟨by decide, by decide, by decide, by decide, by decide, by decide⟩, rfl, rfl⟩
  obtain ⟨count, number, seq, payload, rest⟩ := reads.unique own
  rw [count, number, seq, payload, rest]
  have no_number {text : Bytes} (ends : text.getLast?.bind (digitValue 10) = none) (n : Int) :
      ¬ IsDecimal text n := by
    intro decimal
    obtain ⟨c, last, digit⟩ := decimal.ends_in_digit
    rw [last, Option.bind_some] at ends
    exact digit ends
  exact ⟨no_number (by decide), no_number (by decide), by decide, no_number (by decide),
    ⟨'X'.toUInt8, by decide, by decide⟩, no_number (by decide)⟩

private theorem third_mismatch : ¬ MatchesGrammar third.join := by
  rintro ⟨f, reads, follows⟩
  have own : Reads third.join third :=
    ⟨⟨by decide, by decide, by decide, by decide, by decide, by decide⟩, rfl, rfl⟩
  obtain ⟨count, number, -⟩ := reads.unique own
  obtain ⟨n, k, of_count, of_number, -, below⟩ := follows.fragments
  rw [count] at of_count
  rw [number] at of_number
  have two : IsDecimal third.count 2 := ⟨_, [2], by decide, by simp, Or.inl ⟨rfl, rfl⟩⟩
  have three : IsDecimal third.number 3 := ⟨_, [3], by decide, by simp, Or.inl ⟨rfl, rfl⟩⟩
  have n_value := of_count.unique two
  have k_value := of_number.unique three
  omega

/-- A line with too many fill bits and one without a single proper number both emit a message, and
fragment 3 of 2 drops the group of its key. -/
theorem grammar_not_enforced :
    (∃ message, processLine {} overfilled.join = .ok ({}, some message)) ∧
    ¬ MatchesGrammar overfilled.join ∧
    (∃ message, processLine {} loose.join = .ok ({}, some message)) ∧
    (∀ f, Reads loose.join f →
      (∀ n, ¬ IsDecimal f.count n) ∧ (∀ n, ¬ IsDecimal f.number n) ∧ f.seq ≠ [] ∧
      (∀ n, ¬ IsDecimal f.seq n) ∧ (∃ c ∈ f.payload, ¬ IsArmour c) ∧
      ∀ n, ¬ IsDecimal (Sentence.beforeStar f.rest) n) ∧
    (∃ stage after, runLines {} [opening.join] = .ok (stage, [none]) ∧
      stage.processLine third.join = .ok (after, none) ∧
      stage.assembler.pending openingKey = some [opening.read] ∧
      after.assembler.pending openingKey = none) ∧
    ¬ MatchesGrammar third.join := by
  refine ⟨?_, overfilled_mismatch, ?_, ?_, ?_, third_mismatch⟩
  · have emitted : (messageAt (Payload.ofArmored overfilled.payload 7)).isSome := by decide +kernel
    obtain ⟨message, same⟩ := Option.isSome_iff_exists.mp emitted
    exact ⟨message, by rw [processLine_single (f := overfilled) rfl rfl, ← same]; rfl⟩
  · have emitted : (messageAt (Payload.ofArmored loose.payload 0)).isSome := by decide +kernel
    obtain ⟨message, same⟩ := Option.isSome_iff_exists.mp emitted
    exact ⟨message, by rw [processLine_single (f := loose) rfl rfl, ← same]; rfl⟩
  · intro f reads
    exact loose_mismatch reads
  · have called : lineCall opening.join = some ⟨opening.read, []⟩ := rfl
    have called' : lineCall third.join = some ⟨third.read, []⟩ := rfl
    refine ⟨⟨({} : SentenceAssembler).set openingKey (some [opening.read])⟩,
      ⟨(({} : SentenceAssembler).set openingKey (some [opening.read])).set openingKey none⟩,
      ?_, ?_, ?_, ?_⟩
    · simp only [runLines, processLine_of_call called, bind, Except.bind]
      rfl
    · rw [processLine_of_call called']
      rfl
    · rw [SentenceAssembler.set_pending_self]
    · rw [SentenceAssembler.set_pending_self]

end DecoderStage

end Ais
