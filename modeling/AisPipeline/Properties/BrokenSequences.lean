import AisPipeline.Properties.Reassembly

/-!
# Broken fragment sequences

`add` compares the number of a new fragment with the size of its group, and
looks at the declared count of the last fragment only. The first part gives the
exact condition under which groups stay consistent in their counts, the second
the exact loss patterns under which no two messages are joined.
-/
namespace Ais.SentenceAssembler

open Cpp

/-! ### Declared counts -/

/-- All fragments declare one count, the number of fragments there are. -/
def UniformCount (fragments : List Sentence) : Prop :=
  ∀ s ∈ fragments, s.fragmentCount.toInt = fragments.length

instance (fragments : List Sentence) : Decidable (UniformCount fragments) :=
  inferInstanceAs (Decidable (∀ s ∈ fragments, _))

/-- A group under construction: numbered 1 to `m`, of one declared count above `m`. -/
structure GroupConsistent (group : List Sentence) : Prop where
  nonempty : group ≠ []
  numbered : Numbered group
  counted : ∃ n : Int32, (∀ s ∈ group, s.fragmentCount = n) ∧ (group.length : Int) < n.toInt

def Consistent (assembler : SentenceAssembler) : Prop :=
  ∀ key group, assembler.pending key = some group → GroupConsistent group

/-- The fragments a keyed call has before it: those stored under its key, and its own. -/
def joined (assembler : SentenceAssembler) (key : FragmentKey) (call : Call) : List Sentence :=
  (assembler.pending key).getD [] ++ [call.sentence]

/-- A payload of several parts comes from parts that all declare how many they are. -/
def BuiltConsistently (assembler : SentenceAssembler) (call : Call) : Prop :=
  ∀ key, call.key = some key → ∀ payload,
    (assembler.add call.sentence call.source).2 = some payload →
      UniformCount (assembler.joined key call)

/-- What the source does not check: a first fragment announces more than one, and a fragment
that continues a stored group declares the count of that group. -/
def CountsAgree (assembler : SentenceAssembler) (call : Call) : Prop :=
  ∀ key, call.key = some key →
    (call.sentence.fragmentNumber = 1 → 1 < call.sentence.fragmentCount.toInt) ∧
    ∀ group, assembler.pending key = some group →
      call.sentence.fragmentNumber.toInt = group.length + 1 →
        ∀ s ∈ group, call.sentence.fragmentCount = s.fragmentCount

/-- The three properties at the level of one key's slot. -/
private def SlotConsistent (pending : Option (List Sentence)) : Prop :=
  ∀ group, pending = some group → GroupConsistent group

private def SlotAgrees (pending : Option (List Sentence)) (s : Sentence) : Prop :=
  (s.fragmentNumber = 1 → 1 < s.fragmentCount.toInt) ∧
  ∀ group, pending = some group → s.fragmentNumber.toInt = group.length + 1 →
    ∀ t ∈ group, s.fragmentCount = t.fragmentCount

private theorem slotConsistent_some {group : List Sentence} :
    SlotConsistent (some group) ↔ GroupConsistent group := by
  simp [SlotConsistent]

private theorem groupConsistent_first {s : Sentence} (first : s.fragmentNumber = 1) :
    GroupConsistent [s] ↔ 1 < s.fragmentCount.toInt := by
  constructor
  · rintro ⟨-, -, n, same, bound⟩
    rw [same s (List.mem_singleton_self s)]
    simpa using bound
  · intro bound
    refine ⟨by simp, @numbered_append [] s |>.mpr ⟨by simp [Numbered], ?_⟩,
      s.fragmentCount, by simp, ?_⟩
    · simpa using toInt_eq_one_iff.mpr first
    · simpa using bound

private theorem groupConsistent_append {group : List Sentence} {s : Sentence}
    (consistent : GroupConsistent group) (number : s.fragmentNumber.toInt = group.length + 1)
    (unfinished : s.fragmentCount.toInt ≠ group.length + 1) :
    GroupConsistent (group ++ [s]) ↔ ∀ t ∈ group, s.fragmentCount = t.fragmentCount := by
  obtain ⟨nonempty, numbered, n, same, bound⟩ := consistent
  constructor
  · rintro ⟨-, -, n', same', -⟩ t member
    rw [same' t (List.mem_append_left _ member), same' s (by simp)]
  · intro agree
    obtain ⟨t, member⟩ := List.exists_mem_of_ne_nil group nonempty
    have declared : s.fragmentCount = n := by rw [agree t member, same t member]
    refine ⟨by simp, numbered_append.mpr ⟨numbered, number⟩, n, ?_, ?_⟩
    · intro t member
      rcases List.mem_append.mp member with old | new
      · exact same t old
      · rw [List.mem_singleton.mp new, declared]
    · rw [declared] at unfinished
      rw [List.length_append, List.length_singleton]
      omega

private theorem uniformCount_append {group : List Sentence} {s : Sentence}
    (count : s.fragmentCount.toInt = group.length + 1) :
    UniformCount (group ++ [s]) ↔ ∀ t ∈ group, s.fragmentCount = t.fragmentCount := by
  simp only [UniformCount, List.mem_append, List.mem_singleton, List.length_append,
    List.length_singleton]
  constructor
  · intro uniform t member
    apply Int32.toInt_inj.mp
    rw [uniform t (Or.inl member), uniform s (Or.inr rfl)]
  · rintro agree t (member | rfl)
    · rw [← agree t member, count]
      rfl
    · exact count

/-- From a consistent slot, one step stays consistent and joins like fragments exactly when
the counts agree. -/
private theorem groupStep_consistent_iff {pending : Option (List Sentence)}
    (consistent : SlotConsistent pending) (s : Sentence) :
    (SlotConsistent (groupStep pending s).1 ∧
      ∀ payload, (groupStep pending s).2 = some payload → UniformCount (pending.getD [] ++ [s])) ↔
    SlotAgrees pending s := by
  have numbered : Numbered (pending.getD []) := by
    cases pending with
    | none => simp [Numbered]
    | some group => exact (consistent group rfl).numbered
  simp only [groupStep, SlotAgrees]
  split
  next first =>
    -- a first fragment continues no group, so only its own count matters
    have not_later (group : List Sentence) (stored : pending = some group) :
        s.fragmentNumber.toInt ≠ group.length + 1 := by
      have nonempty := List.length_pos_of_ne_nil (consistent group stored).nonempty
      rw [toInt_eq_one_iff.mpr first]
      omega
    rw [slotConsistent_some, groupConsistent_first first]
    constructor
    · rintro ⟨bound, -⟩
      exact ⟨fun _ => bound, fun group stored number => absurd number (not_later group stored)⟩
    · rintro ⟨bound, -⟩
      exact ⟨bound first, by simp⟩
  next later =>
    split
    -- the group is dropped, and an empty slot is consistent
    next gap =>
      constructor
      · rintro -
        refine ⟨fun first => absurd first later, ?_⟩
        rintro group rfl number
        exact absurd ((continues_iff numbered).mpr number) gap
      · rintro -
        exact ⟨by simp [SlotConsistent], by simp⟩
    next fits =>
      have number := (continues_iff numbered).mp (not_not.mp fits)
      cases pending with
      | none =>
        have first : s.fragmentNumber = 1 := toInt_eq_one_iff.mp (by simpa using number)
        exact absurd first later
      | some group =>
        -- only the second half of the agreement is left to check
        have agrees : ((s.fragmentNumber = 1 → 1 < s.fragmentCount.toInt) ∧
            ∀ g, some group = some g → s.fragmentNumber.toInt = g.length + 1 →
              ∀ t ∈ g, s.fragmentCount = t.fragmentCount) ↔
            ∀ t ∈ group, s.fragmentCount = t.fragmentCount := by
          constructor
          · exact fun agree => agree.2 group rfl number
          · rintro agree
            refine ⟨fun first => absurd first later, ?_⟩
            rintro g ⟨⟩ -
            exact agree
        rw [agrees]
        split
        -- a payload is made: its parts must declare one count
        next ended =>
          have count := (complete_iff number).mp ended
          constructor
          · exact fun h => (uniformCount_append count).mp (h.2 _ rfl)
          · exact fun agree => ⟨by simp [SlotConsistent],
              fun _ _ => (uniformCount_append count).mpr agree⟩
        -- nothing is made yet: the stored group must declare one count
        next unfinished =>
          have count := mt (complete_iff number).mpr unfinished
          rw [slotConsistent_some]
          have stored := groupConsistent_append (consistent group rfl) number count
          constructor
          · exact fun h => stored.mp h.1
          · exact fun agree => ⟨stored.mpr agree, by simp⟩

/-- One call from a consistent assembler. -/
theorem add_consistent_iff {assembler : SentenceAssembler} (consistent : assembler.Consistent)
    (call : Call) :
    ((assembler.add call.sentence call.source).1.Consistent ∧
      BuiltConsistently assembler call) ↔ CountsAgree assembler call := by
  cases keyed : call.key with
  | none =>
    have kept : (assembler.add call.sentence call.source).1.Consistent := by
      intro key group pending
      rw [add_frame (by simp [keyed])] at pending
      exact consistent key group pending
    simp [BuiltConsistently, CountsAgree, keyed, kept]
  | some key =>
    have own := groupStep_consistent_iff (consistent key) call.sentence
    simp only [SlotConsistent, SlotAgrees] at own
    simp only [BuiltConsistently, CountsAgree, keyed, Option.some.injEq, forall_eq', joined, ← own,
      (add_own keyed).2]
    constructor
    · rintro ⟨states, built⟩
      refine ⟨fun group stored => states key group ?_, built⟩
      rw [(add_own keyed).1]
      exact stored
    · rintro ⟨stored, built⟩
      refine ⟨?_, built⟩
      intro other group pending
      by_cases same : other = key
      · subst same
        rw [(add_own keyed).1] at pending
        exact stored group pending
      · rw [add_frame (by simpa [keyed] using Ne.symm same)] at pending
        exact consistent other group pending

/-- Every state of a run is consistent and every payload of it consistently built exactly
when every call of the run agrees with the group it meets. -/
theorem run_consistent_iff (calls : List Call) :
    ((∀ before, before <+: calls → (addAll {} before).Consistent) ∧
      ∀ before call, before ++ [call] <+: calls → BuiltConsistently (addAll {} before) call) ↔
    ∀ before call, before ++ [call] <+: calls → CountsAgree (addAll {} before) call := by
  constructor
  · rintro ⟨states, built⟩ before call step
    have here := states before ((List.prefix_append before [call]).trans step)
    apply (add_consistent_iff here call).mp
    rw [← addAll_concat]
    exact ⟨states _ step, built before call step⟩
  · intro agree
    -- consistency of the earlier states is what makes the step lemma apply
    have states (before : List Call) (reached : before <+: calls) :
        (addAll {} before).Consistent := by
      induction before using List.reverseRecOn with
      | nil => simp [Consistent, addAll]
      | append_singleton before call ih =>
        have here := ih ((List.prefix_append before [call]).trans reached)
        rw [addAll_concat]
        exact ((add_consistent_iff here call).mpr (agree before call reached)).1
    refine ⟨states, ?_⟩
    intro before call step
    have here := states before ((List.prefix_append before [call]).trans step)
    exact ((add_consistent_iff here call).mpr (agree before call step)).2

def headOfThree : Sentence where
  text := "!AIVDM,3,1,4,A,a,0*71".toList.map Char.toUInt8
  isValid := true
  isWellFormed := true
  fragmentCount := 3
  fragmentNumber := 1
  sequenceId := some 4
  channel := [ 'A'.toUInt8]
  payload := [ 'a'.toUInt8]

def tailOfB : Sentence :=
  { tailOfA with
    text := "!AIVDM,2,2,4,A,b,0*70".toList.map Char.toUInt8
    payload := [ 'b'.toUInt8] }

/-- The head of a three-part message and the tail of a two-part one make a payload. -/
theorem tail_joins_foreign_head :
    Sentence.ofText headOfThree.text = .ok headOfThree ∧
    Sentence.ofText tailOfB.text = .ok tailOfB ∧
    ¬ ((∀ before, before <+: [⟨headOfThree, []⟩, ⟨tailOfB, []⟩] →
          (addAll {} before).Consistent) ∧
        ∀ before call, before ++ [call] <+: [⟨headOfThree, []⟩, ⟨tailOfB, []⟩] →
          BuiltConsistently (addAll {} before) call) := by
  refine ⟨by decide, by decide, ?_⟩
  rintro ⟨-, built⟩
  have answered : ((addAll {} [⟨headOfThree, []⟩]).add tailOfB []).2 =
      some (Payload.ofArmored [ 'a'.toUInt8, 'b'.toUInt8] 0) := by decide
  have uniform := built [⟨headOfThree, []⟩] ⟨tailOfB, []⟩ (List.prefix_refl _)
    ⟨[], [ 'A'.toUInt8], 4⟩ (by decide) _ answered
  revert uniform
  decide

/-! ### Reused keys -/

/-- A message cut into `n` numbered fragments that all declare `n`, sent under `key`. -/
structure CutMessage (key : FragmentKey) (n : Nat) where
  fragments : List Sentence
  length_eq : fragments.length = n
  numbered : Numbered fragments
  counted : ∀ s ∈ fragments, s.fragmentCount.toInt = n
  keyed : ∀ s ∈ fragments, Call.key ⟨s, key.source⟩ = some key

variable {key : FragmentKey} {n : Nat}

/-- The payload of the whole message; the fill bits are those of the last fragment. -/
def CutMessage.IsPayload (message : CutMessage key n) (payload : Payload) : Prop :=
  ∃ last, message.fragments.getLast? = some last ∧
    payload = Payload.ofArmored (message.fragments.flatMap Sentence.payload) last.fillBits

/-- The fragments of the messages in the order sent, each with the number of its message. -/
def sentFrom (first : Nat) : List (CutMessage key n) → List (Nat × Sentence)
  | [] => []
  | message :: messages =>
    message.fragments.map (fun s => (first, s)) ++ sentFrom (first + 1) messages

/-- The calls of `add` for the fragments that arrive. -/
def callsOf (key : FragmentKey) (received : List (Nat × Sentence)) : List Call :=
  received.map fun x => ⟨x.2, key.source⟩

/-- Whenever `add` returns a payload, the fragments it joined (the last ones received, as
many as it had stored and the new one) belong to one sent message and are all of it. -/
def NeverMixes (messages : List (CutMessage key n)) (received : List (Nat × Sentence)) : Prop :=
  ∀ before j s payload, before ++ [(j, s)] <+: received →
    ((addAll {} (callsOf key before)).add s key.source).2 = some payload →
      ∃ message, messages[j]? = some message ∧ message.IsPayload payload ∧
        ∀ x ∈ (before ++ [(j, s)]).rtake
            ((addAll {} (callsOf key before)).joined key ⟨s, key.source⟩).length, x.1 = j

/-- Fragments numbered 1 to `n` arrive one right behind the other, and not all of them are
of one message. -/
def Spliced (n : Nat) (received : List (Nat × Sentence)) : Prop :=
  ∃ block, block <:+: received ∧ block.length = n ∧ Numbered (block.map Prod.snd) ∧
    ∃ x ∈ block, ∃ y ∈ block, x.1 ≠ y.1

private theorem mem_sentFrom {messages : List (CutMessage key n)} {first : Nat} {x : Nat × Sentence}
    (member : x ∈ sentFrom first messages) :
    ∃ message, first ≤ x.1 ∧ messages[x.1 - first]? = some message ∧ x.2 ∈ message.fragments := by
  induction messages generalizing first with
  | nil => simp [sentFrom] at member
  | cons message messages ih =>
    rcases List.mem_append.mp member with own | later
    · obtain ⟨s, inside, rfl⟩ := List.mem_map.mp own
      exact ⟨message, le_refl _, by simp, inside⟩
    · obtain ⟨other, above, found, inside⟩ := ih later
      refine ⟨other, by omega, ?_, inside⟩
      rw [show x.1 - first = x.1 - (first + 1) + 1 by omega, List.getElem?_cons_succ, found]

/-- The fragments sent under one number are those of one message. -/
private theorem sentFrom_filter {messages : List (CutMessage key n)} {first j : Nat}
    {message : CutMessage key n} (above : first ≤ j) (found : messages[j - first]? = some message) :
    (sentFrom first messages).filter (fun x => x.1 = j) =
      message.fragments.map fun s => (j, s) := by
  induction messages generalizing first with
  | nil => simp at found
  | cons head messages ih =>
    rw [sentFrom, List.filter_append, List.filter_map]
    by_cases here : first = j
    -- later messages have later numbers
    · subst here
      have mine : head = message := by simpa using found
      have rest : (sentFrom (first + 1) messages).filter (fun x => x.1 = first) = [] := by
        rw [List.filter_eq_nil_iff]
        intro x member
        obtain ⟨_, later, -⟩ := mem_sentFrom member
        simpa using (show x.1 ≠ first by omega)
      simp [rest, mine, Function.comp_def]
    · rw [show j - first = j - (first + 1) + 1 by omega, List.getElem?_cons_succ] at found
      simp [ih (by omega) found, Function.comp_def, here]

section Received

variable {messages : List (CutMessage key n)} {received : List (Nat × Sentence)}

private theorem mem_received (lost : received.Sublist (sentFrom 0 messages)) {x : Nat × Sentence}
    (member : x ∈ received) : ∃ message, messages[x.1]? = some message ∧ x.2 ∈ message.fragments := by
  obtain ⟨message, -, found, inside⟩ := mem_sentFrom (lost.subset member)
  exact ⟨message, found, inside⟩

private theorem received_keyed (lost : received.Sublist (sentFrom 0 messages)) {x : Nat × Sentence}
    (member : x ∈ received) : Call.key ⟨x.2, key.source⟩ = some key := by
  obtain ⟨message, -, inside⟩ := mem_received lost member
  exact message.keyed _ inside

private theorem received_counted (lost : received.Sublist (sentFrom 0 messages)) {x : Nat × Sentence}
    (member : x ∈ received) : x.2.fragmentCount.toInt = n := by
  obtain ⟨message, -, inside⟩ := mem_received lost member
  exact message.counted _ inside

private theorem keyHistory_callsOf (lost : received.Sublist (sentFrom 0 messages)) :
    keyHistory key (callsOf key received) = received.map Prod.snd := by
  have all_keyed : (callsOf key received).filter (fun call => call.key = some key) =
      callsOf key received := by
    rw [List.filter_eq_self]
    intro call member
    obtain ⟨x, arrived, rfl⟩ := List.mem_map.mp member
    simpa using received_keyed lost arrived
  rw [keyHistory, all_keyed, callsOf, List.map_map]
  rfl

private theorem map_rtake {fragments : List (Nat × Sentence)} (m : Nat) :
    (fragments.map Prod.snd).rtake m = (fragments.rtake m).map Prod.snd := by
  simp [List.rtake, List.map_drop]

/-- Under one key and one count, a message is complete as soon as the last `n` fragments
received are numbered 1 to `n`. -/
private theorem completes_received_iff (two_le : 2 ≤ n) {before : List (Nat × Sentence)}
    {x : Nat × Sentence} (lost : (before ++ [x]).Sublist (sentFrom 0 messages)) (payload : Payload) :
    Completes ((before ++ [x]).map Prod.snd) x.2 payload ↔
      n ≤ (before ++ [x]).length ∧ x.2.fragmentNumber.toInt = n ∧
        Numbered (((before ++ [x]).rtake n).map Prod.snd) ∧
        payload = Payload.ofArmored
          ((((before ++ [x]).rtake n).map Prod.snd).flatMap Sentence.payload) x.2.fillBits := by
  have count := received_counted lost (x := x) (by simp)
  simp only [Completes, map_rtake, List.length_map]
  constructor
  · rintro ⟨m, -, enough, number, declared, numbered, -, result⟩
    obtain rfl : m = n := by omega
    exact ⟨enough, number, numbered, result⟩
  · rintro ⟨enough, number, numbered, result⟩
    refine ⟨n, two_le, enough, number, count, numbered, ?_, result⟩
    intro s member _ inner same
    obtain ⟨y, late, rfl⟩ := List.mem_map.mp member
    have declared := received_counted lost ((List.drop_suffix _ _).subset late)
    rw [same] at declared
    omega

private theorem add_received_iff {before : List (Nat × Sentence)} {x : Nat × Sentence}
    (lost : (before ++ [x]).Sublist (sentFrom 0 messages)) (payload : Payload) :
    ((addAll {} (callsOf key before)).add x.2 key.source).2 = some payload ↔
      Completes ((before ++ [x]).map Prod.snd) x.2 payload := by
  have split : callsOf key (before ++ [x]) = callsOf key before ++ [⟨x.2, key.source⟩] := by
    simp [callsOf]
  rw [← keyHistory_callsOf lost, split]
  exact @add_answer_iff (callsOf key before) ⟨x.2, key.source⟩ key
    (received_keyed lost (by simp)) payload

/-- What `add` joined on its answer is the last `n` fragments received. -/
private theorem joined_length (two_le : 2 ≤ n) {before : List (Nat × Sentence)}
    {x : Nat × Sentence} (lost : (before ++ [x]).Sublist (sentFrom 0 messages)) {payload : Payload}
    (done : Completes ((before ++ [x]).map Prod.snd) x.2 payload) :
    ((addAll {} (callsOf key before)).joined key ⟨x.2, key.source⟩).length = n := by
  obtain ⟨enough, number, -, -⟩ := (completes_received_iff two_le lost payload).mp done
  have earlier := keyHistory_callsOf ((List.sublist_append_left before [x]).trans lost)
  have tracks := addAll_tracks (callsOf key before) key
  rw [earlier] at tracks
  rw [List.map_append] at done
  rw [joined, tracks.joined done, List.rtake, List.length_drop]
  simp only [List.length_append, List.length_map, List.length_singleton] at enough ⊢
  omega

/-- A block numbered 1 to `n` of one message's fragments is that message. -/
private theorem block_of_one_message {block : List (Nat × Sentence)} {j : Nat}
    {message : CutMessage key n} (lost : block.Sublist (sentFrom 0 messages))
    (size : block.length = n) (found : messages[j]? = some message) (same : ∀ x ∈ block, x.1 = j) :
    block.map Prod.snd = message.fragments := by
  have part : block.Sublist (message.fragments.map fun s => (j, s)) := by
    -- what is left of one message is a sublist of it, of the same length
    have kept := lost.filter fun x => x.1 = j
    rw [sentFrom_filter (Nat.zero_le j) (by simpa using found)] at kept
    rwa [List.filter_eq_self.mpr (by simpa using same)] at kept
  rw [part.eq_of_length (by rw [size, List.length_map, message.length_eq])]
  simp [Function.comp_def]

/-- `add` never joins fragments of different messages exactly when the losses never bring
fragments numbered 1 to `n` of more than one message together. -/
theorem neverMixes_iff (two_le : 2 ≤ n) (messages : List (CutMessage key n))
    (received : List (Nat × Sentence)) (lost : received.Sublist (sentFrom 0 messages)) :
    NeverMixes messages received ↔ ¬ Spliced n received := by
  constructor
  · rintro apart ⟨block, ⟨early, late, rfl⟩, size, numbered, x, hx, y, hy, different⟩
    -- the call for the last fragment of the block answers, and joins the block
    obtain rfl | ⟨front, last, rfl⟩ := List.eq_nil_or_concat' block
    · simp at hx
    have regroup : early ++ (front ++ [last]) ++ late = (early ++ front ++ [last]) ++ late := by
      simp
    rw [regroup] at lost apart
    have lost_here := (List.sublist_append_left _ late).trans lost
    have recent : (early ++ front ++ [last]).rtake n = front ++ [last] := by
      have ends : front ++ [last] <:+ early ++ front ++ [last] := ⟨early, by simp⟩
      rw [List.rtake, ← size, ← List.suffix_iff_eq_drop.mp ends]
    have number : last.2.fragmentNumber.toInt = n := by
      rw [List.map_append] at numbered
      have place := (numbered_append.mp numbered).2
      rw [List.length_append, List.length_singleton] at size
      rw [List.length_map] at place
      omega
    have done := (completes_received_iff two_le lost_here _).mpr
      ⟨by simp at size ⊢; omega, number, recent ▸ numbered, rfl⟩
    obtain ⟨-, -, -, same⟩ := apart _ _ _ _ (List.prefix_append _ late)
      ((add_received_iff lost_here _).mpr done)
    rw [joined_length two_le lost_here done, recent] at same
    exact different ((same x hx).trans (same y hy).symm)
  · intro apart before j s payload reached answered
    have lost_here := reached.sublist.trans lost
    have done := (@add_received_iff _ _ _ before (j, s) lost_here payload).mp answered
    obtain ⟨enough, number, numbered, rfl⟩ := (completes_received_iff two_le lost_here payload).mp done
    have size : ((before ++ [(j, s)]).rtake n).length = n := by
      rw [List.rtake, List.length_drop]
      omega
    have ends : (before ++ [(j, s)]).rtake n <:+ before ++ [(j, s)] := List.drop_suffix _ _
    have recent : (before ++ [(j, s)]).rtake n = before.rtake (n - 1) ++ [(j, s)] := by
      rw [show n = n - 1 + 1 by omega, List.rtake_concat_succ]
      rfl
    -- the fragments joined are such a block, so they are of one message
    have same : ∀ x ∈ (before ++ [(j, s)]).rtake n, x.1 = j := by
      intro x member
      by_contra other
      refine apart ⟨_, ends.isInfix.trans reached.isInfix, size, numbered, x, member, (j, s), ?_, other⟩
      rw [recent]
      simp
    obtain ⟨message, found, -⟩ := mem_received lost_here (x := (j, s)) (by simp)
    have whole := block_of_one_message (ends.sublist.trans lost_here) size found same
    refine ⟨message, found, ⟨s, ?_, ?_⟩, ?_⟩
    · rw [← whole, recent]
      simp
    · rw [whole]
    · rw [joined_length two_le lost_here done]
      exact same

end Received

def headOfB : Sentence :=
  { headOfA with
    text := "!AIVDM,2,1,4,A,b,0*73".toList.map Char.toUInt8
    payload := [ 'b'.toUInt8] }

def messageA : CutMessage ⟨[], [ 'A'.toUInt8], 4⟩ 2 where
  fragments := [headOfA, tailOfA]
  length_eq := rfl
  numbered := by decide
  counted := by decide
  keyed := by decide

def messageB : CutMessage ⟨[], [ 'A'.toUInt8], 4⟩ 2 where
  fragments := [headOfB, tailOfB]
  length_eq := rfl
  numbered := by decide
  counted := by decide
  keyed := by decide

theorem neverMixes_of_lost_second :
    NeverMixes [messageA, messageB] [(0, headOfA), (0, tailOfA)] := by
  have lost : List.Sublist [(0, headOfA), (0, tailOfA)] (sentFrom 0 [messageA, messageB]) :=
    List.sublist_append_left _ _
  refine (neverMixes_iff le_rfl _ _ lost).mpr ?_
  rintro ⟨block, part, -, -, x, hx, y, hy, different⟩
  have first {z : Nat × Sentence} (member : z ∈ block) : z.1 = 0 := by
    have whole := part.subset member
    simp only [List.mem_cons, List.not_mem_nil, or_false] at whole
    rcases whole with rfl | rfl
    · rfl
    · rfl
  exact different ((first hx).trans (first hy).symm)

/-- The tail of the first message and the head of the second are lost: `add` returns the
payload `ab`, which nobody sent. -/
theorem two_losses_mix :
    Sentence.ofText headOfA.text = .ok headOfA ∧ Sentence.ofText tailOfA.text = .ok tailOfA ∧
    Sentence.ofText headOfB.text = .ok headOfB ∧ Sentence.ofText tailOfB.text = .ok tailOfB ∧
    List.Sublist [(0, headOfA), (1, tailOfB)] (sentFrom 0 [messageA, messageB]) ∧
    (∃ payload, ((addAll {} (callsOf ⟨[], [ 'A'.toUInt8], 4⟩ [(0, headOfA)])).add tailOfB []).2 =
        some payload ∧ ∀ message ∈ [messageA, messageB], ¬ message.IsPayload payload) ∧
    ¬ NeverMixes [messageA, messageB] [(0, headOfA), (1, tailOfB)] := by
  have answered : ((addAll {} (callsOf ⟨[], [ 'A'.toUInt8], 4⟩ [(0, headOfA)])).add tailOfB []).2 =
      some (Payload.ofArmored [ 'a'.toUInt8, 'b'.toUInt8] 0) := by decide
  refine ⟨by decide, by decide, by decide, by decide, by decide, ⟨_, answered, ?_⟩, ?_⟩
  · intro message member
    simp only [List.mem_cons, List.not_mem_nil, or_false] at member
    rcases member with rfl | rfl
    · rintro ⟨last, ends, same⟩
      obtain rfl : tailOfA = last := Option.some.inj ends
      revert same
      decide
    · rintro ⟨last, ends, same⟩
      obtain rfl : tailOfB = last := Option.some.inj ends
      revert same
      decide
  · intro apart
    obtain ⟨-, -, -, same⟩ := apart [(0, headOfA)] 1 tailOfB _ (List.prefix_refl _) answered
    have first := same (0, headOfA) (by decide)
    exact absurd first (by decide)

end Ais.SentenceAssembler
