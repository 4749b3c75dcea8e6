import AisPipeline.App.ClientThread
import AisPipeline.Properties.Reconnecting

/-!
# The client's loop

What the thread pushes are the lines of what it receives, connection by
connection. It connects again only once the delay of the last failure is over,
and a stop leaves it at most one chunk or one attempt.
-/
namespace Ais.ClientThread

open Cpp Transition TcpClient LineFramer ReconnectBackoff

variable {client : TcpClient} {s t : State} {trace : List Event} {event : Event}

/-! ### Lines -/

/-- The lines `feed` returned that are still to be pushed. -/
def inHand : Control → List Bytes
  | .pushing _ _ lines => lines
  | _ => []

/-- The framer of the call of `run` that is going on. -/
def framer? : Control → Option LineFramer
  | .reading _ framer | .pushing _ framer _ => some framer
  | _ => none

structure Held (trace : List Event) (s : State) : Prop where
  lines : pushed trace ++ inHand s.control = received trace
  buffered : ∀ framer, framer? s.control = some framer →
    ∃ earlier current, streams trace = earlier ++ [current] ∧ framer.buffer = tailOf current

/-- A step that neither receives nor pushes, and keeps or drops its framer. -/
private theorem Held.still (held : Held trace s) (streamed : ∀ streams, event.addTo streams = streams)
    (quiet : event.pushed? = none) (hand : inHand t.control = inHand s.control)
    (framer : framer? t.control = framer? s.control ∨ framer? t.control = none) :
    Held (trace ++ [event]) t where
  lines := by
    rw [pushed_append, quiet, received, streams_append, streamed, hand, Option.toList_none,
      List.append_nil]
    exact held.lines
  buffered := by
    intro f present
    rw [streams_append, streamed]
    rcases framer with same | gone
    · exact held.buffered f (same ▸ present)
    · rw [gone] at present
      cases present

/-- What `feed` makes of a chunk is what the stream has more to show. -/
private theorem received_chunk {earlier : List Bytes} {current chunk : Bytes} {framer fed : LineFramer}
    {lines : List Bytes} (open_ : streams trace = earlier ++ [current])
    (buffer : framer.buffer = tailOf current) (ran : framer.feed chunk = .ok (fed, lines)) :
    streams (trace ++ [.received chunk]) = earlier ++ [current ++ chunk] ∧
      received (trace ++ [.received chunk]) = received trace ++ lines ∧
      fed.buffer = tailOf (current ++ chunk) := by
  rw [feed_eq, buffer, Except.ok.injEq, Prod.mk.injEq] at ran
  obtain ⟨rfl, rfl⟩ := ran
  have grown : streams (trace ++ [.received chunk]) = earlier ++ [current ++ chunk] := by
    simp [Event.addTo, open_]
  refine ⟨grown, ?_, (tailOf_append current chunk).symm⟩
  rw [received, grown, received, open_, List.flatMap_append, List.flatMap_append,
    List.flatMap_singleton, List.flatMap_singleton, linesOf_append, List.append_assoc]

theorem step_held (held : Held trace s) (step : Step client s event t)
    (kept : ∀ line, event ≠ .pushThrew line) : Held (trace ++ [event]) t := by
  cases step with
  | stops => exact held.still (fun _ => rfl) rfl rfl (Or.inl rfl)
  | tests at_test =>
    refine held.still (fun _ => rfl) rfl ?_ (Or.inr ?_)
    · rw [at_test]
      cases s.stopRequested <;> rfl
    · cases s.stopRequested <;> rfl
  | connects started at_connect going =>
    have nothing : linesOf [] = [] := rfl
    refine ⟨?_, ?_⟩
    · have lines := held.lines
      rw [at_connect] at lines
      rw [pushed_append, received, streams_append, Event.addTo, List.flatMap_append,
        List.flatMap_singleton, nothing, List.append_nil, ← received, ← lines]
      simp [Event.pushed?, inHand]
    · rintro framer ⟨⟩
      exact ⟨streams trace, [], by simp [Event.addTo], rfl⟩
  | receives started framer fed chunk lines at_read size ran =>
    obtain ⟨earlier, current, open_, buffer⟩ := held.buffered framer (by rw [at_read]; rfl)
    obtain ⟨grown, more, left⟩ := received_chunk open_ buffer ran
    refine ⟨?_, ?_⟩
    · have before := held.lines
      rw [at_read] at before
      rw [more, ← before]
      simp [Event.pushed?, inHand]
    · rintro framer ⟨⟩
      exact ⟨earlier, current ++ chunk, grown, left⟩
  | feedThrows started framer chunk exn at_read size ran =>
    rw [feed_eq] at ran
    cases ran
  -- the line moves from the hand to those pushed
  | pushes started framer line lines at_push =>
    refine ⟨?_, ?_⟩
    · have before := held.lines
      rw [at_push] at before
      rw [received, streams_append, Event.addTo, ← received, ← before]
      simp [Event.pushed?, inHand]
    · intro f present
      rw [streams_append]
      exact held.buffered f (by rw [at_push]; exact present)
  | pushThrows started framer line lines exn at_push => exact absurd rfl (kept line)
  | delivers started framer at_push =>
    refine held.still (fun _ => rfl) rfl ?_ ?_
    · rw [at_push]
      cases s.stopRequested <;> rfl
    · rw [at_push]
      cases s.stopRequested with
      | true => exact Or.inr rfl
      | false => exact Or.inl rfl
  | sleeps since now woken delay at_wait =>
    exact held.still (fun _ => rfl) rfl rfl (Or.inl rfl)
  | attempts _ at_ | resolveFails _ _ at_ | connectStopped _ at_ | connectFails _ _ _ at_
  | readStopped _ _ at_ | readFails _ _ _ _ at_ | backsOff _ _ _ _ _ at_ | startsWaiting _ _ at_
  | waitStopped _ _ at_ | waitEnds _ _ _ at_ =>
    exact held.still (fun _ => rfl) rfl (by rw [at_]; rfl) (Or.inr rfl)

theorem run_held (run : Run (Step client) initial trace s) (kept : ∀ line, .pushThrew line ∉ trace) :
    Held trace s := by
  have start : Held [] initial := ⟨rfl, nofun⟩
  refine Run.invariant (fun trace s => (∀ line, .pushThrew line ∉ trace) → Held trace s)
    (fun _ => start) ?_ run kept
  intro trace s event t earlier step kept
  have before : ∀ line, .pushThrew line ∉ trace := fun line member =>
    kept line (List.mem_append_left _ member)
  refine step_held (earlier before) step ?_
  rintro line rfl
  exact kept line (by simp)

/-- The lines a chunk gives are no more than its bytes. -/
theorem length_feed_le {framer fed : LineFramer} {chunk : Bytes} {lines : List Bytes}
    (unfinished : '\n'.toUInt8 ∉ framer.buffer) (ran : framer.feed chunk = .ok (fed, lines)) :
    lines.length ≤ chunk.length := by
  rw [feed_eq, Except.ok.injEq, Prod.mk.injEq] at ran
  obtain ⟨-, rfl⟩ := ran
  rw [linesOf, List.length_map, Lines.length_terminated, List.count_append,
    List.count_eq_zero.mpr unfinished, Nat.zero_add]
  exact List.count_le_length

/-- The buffer of a framer holds no whole line, a call of `feed` gives a bounded number of them,
and the clock has not run out. -/
structure Bounded (s : State) : Prop where
  unfinished : ∀ framer, framer? s.control = some framer → '\n'.toUInt8 ∉ framer.buffer
  hand : (inHand s.control).length ≤ bufferSize
  clock : s.clock < 2 ^ 63

/-- A step that holds nothing new. -/
private theorem Bounded.still (bounded : Bounded s) (clock : t.clock < 2 ^ 63)
    (hand : inHand t.control = [] ∨ inHand t.control = inHand s.control)
    (framer : framer? t.control = framer? s.control ∨ framer? t.control = none) : Bounded t where
  unfinished := by
    intro f present
    rcases framer with same | gone
    · exact bounded.unfinished f (same ▸ present)
    · rw [gone] at present
      cases present
  hand := by
    rcases hand with nothing | same
    · rw [nothing]
      exact Nat.zero_le _
    · rw [same]
      exact bounded.hand
  clock := clock

theorem step_bounded (bounded : Bounded s) (step : Step client s event t) : Bounded t := by
  have clock := bounded.clock
  cases step with
  | stops => exact bounded.still clock (Or.inr rfl) (Or.inl rfl)
  | tests at_test =>
    refine bounded.still clock (Or.inl ?_) (Or.inr ?_)
    · cases s.stopRequested <;> rfl
    · cases s.stopRequested <;> rfl
  | connects => exact ⟨by rintro _ ⟨⟩; exact List.not_mem_nil, Nat.zero_le _, clock⟩
  | receives started framer fed chunk lines at_read size ran =>
    have unfinished := bounded.unfinished framer (by rw [at_read]; rfl)
    refine ⟨?_, (length_feed_le unfinished ran).trans size, clock⟩
    rintro _ ⟨⟩
    rw [feed_eq, Except.ok.injEq, Prod.mk.injEq] at ran
    rw [← ran.1]
    exact newline_not_mem_tailOf _
  | pushes started framer line lines at_push =>
    refine ⟨fun f present => bounded.unfinished f (by rw [at_push]; exact present), ?_, clock⟩
    have hand := bounded.hand
    rw [at_push, inHand, List.length_cons] at hand
    exact Nat.le_of_succ_le hand
  | delivers started framer at_push =>
    refine bounded.still clock (Or.inl ?_) ?_
    · cases s.stopRequested <;> rfl
    · rw [at_push]
      cases s.stopRequested with
      | true => exact Or.inr rfl
      | false => exact Or.inl rfl
  | attempts now at_ reads => exact bounded.still reads.2 (Or.inl rfl) (Or.inr rfl)
  | backsOff started now failure backoff delay at_ reads =>
    exact bounded.still reads.2 (Or.inl rfl) (Or.inr rfl)
  | startsWaiting now delay at_ reads => exact bounded.still reads.2 (Or.inl rfl) (Or.inr rfl)
  | waitEnds since now delay at_ going reads => exact bounded.still reads.2 (Or.inl rfl) (Or.inr rfl)
  | sleeps since now woken delay at_ going reads early slept fits =>
    exact bounded.still fits (Or.inr rfl) (Or.inl rfl)
  | resolveFails | connectStopped | connectFails | readStopped | readFails | feedThrows | pushThrows
  | waitStopped => exact bounded.still clock (Or.inl rfl) (Or.inr rfl)

theorem run_bounded (run : Run (Step client) initial trace s) : Bounded s := by
  have start : Bounded initial := ⟨nofun, Nat.zero_le _, by decide⟩
  exact Run.invariant (fun _ s => Bounded s) start (fun bounded step => step_bounded bounded step) run

/-! ### Pace -/

/-- When the current attempt began, and how long each of those that failed took. -/
def Event.addDuration (seen : Int × List Int64) : Event → Int × List Int64
  | .attempted now => (now, seen.2)
  | .failed now _ _ => (seen.1, seen.2 ++ [.ofInt (now - seen.1)])
  | .silent | .stopRequested | .connected | .received _ | .pushed _ | .pushThrew _ => seen

def attemptsOf (trace : List Event) : Int × List Int64 := trace.foldl Event.addDuration (0, [])

/-- How long each failed attempt took, connecting included. -/
def durations (trace : List Event) : List Int64 := (attemptsOf trace).2

/-- When the delay after the last failure is over. -/
def due (trace : List Event) : Int :=
  trace.foldl (fun due event => match event with
    | .failed now _ delay => now + delay.toInt * millisecond
    | _ => due) 0

@[simp] theorem attemptsOf_append (trace : List Event) (event : Event) :
    attemptsOf (trace ++ [event]) = event.addDuration (attemptsOf trace) := by
  simp [attemptsOf]

theorem due_append (trace : List Event) (event : Event) :
    due (trace ++ [event]) = match event with
      | .failed now _ delay => now + delay.toInt * millisecond
      | _ => due trace := by
  simp [due]

/-- The attempt the thread is in, and the delay it is in, as the trace has them. -/
def OnTime (trace : List Event) (clock : Int) (stopRequested : Bool) : Control → Prop
  | .testing => stopRequested = false → due trace ≤ clock
  | .starting => due trace ≤ clock
  | .connecting started | .reading started _ | .pushing started _ _ | .failing started _ =>
    started = (attemptsOf trace).1 ∧ 0 ≤ started ∧ started ≤ clock
  | .backingOff delay => due trace ≤ clock + delay.toInt * millisecond
  | .waiting since delay => due trace ≤ since + delay.toInt * millisecond
  | .returned => True

structure Paced (trace : List Event) (s : State) : Prop where
  counts : s.backoff.Counts (sinceHealthy (durations trace))
  clock : 0 ≤ s.clock
  on_time : OnTime trace s.clock s.stopRequested s.control

/-- A step that leaves the attempts and the delays as they are. -/
private theorem Paced.still (paced : Paced trace s)
    (same : ∀ seen, event.addDuration seen = seen) (unchanged : due (trace ++ [event]) = due trace)
    (backoff : t.backoff = s.backoff) (later : s.clock ≤ t.clock)
    (on_time : OnTime trace t.clock t.stopRequested t.control) : Paced (trace ++ [event]) t where
  counts := by
    rw [durations, attemptsOf_append, same, backoff]
    exact paced.counts
  clock := paced.clock.trans later
  on_time := by
    unfold OnTime at on_time ⊢
    rw [attemptsOf_append, same, unchanged]
    exact on_time

theorem step_paced (paced : Paced trace s) (step : Step client s event t) :
    Paced (trace ++ [event]) t := by
  have on_time := paced.on_time
  cases step with
  | stops =>
    refine paced.still (fun _ => rfl) (due_append ..) rfl le_rfl ?_
    cases at_ : s.control with
    | testing => nofun
    | _ =>
      rw [at_] at on_time
      exact on_time
  | tests at_test =>
    refine paced.still (fun _ => rfl) (due_append ..) rfl le_rfl ?_
    rw [at_test] at on_time
    cases stop : s.stopRequested with
    | true => trivial
    | false => exact on_time stop
  | attempts now at_start reads =>
    refine ⟨?_, paced.clock.trans reads.1, ?_⟩
    · rw [durations, attemptsOf_append]
      exact paced.counts
    · rw [OnTime, attemptsOf_append]
      exact ⟨rfl, paced.clock.trans reads.1, le_rfl⟩
  | resolveFails started error at_ =>
    rw [at_] at on_time
    exact paced.still (fun _ => rfl) (due_append ..) rfl le_rfl on_time
  | connectStopped | readStopped =>
    exact paced.still (fun _ => rfl) (due_append ..) rfl le_rfl trivial
  | connectFails started completion failure at_ =>
    rw [at_] at on_time
    exact paced.still (fun _ => rfl) (due_append ..) rfl le_rfl on_time
  | connects started at_ =>
    rw [at_] at on_time
    exact paced.still (fun _ => rfl) (due_append ..) rfl le_rfl on_time
  | readFails started framer completion failure at_ =>
    rw [at_] at on_time
    exact paced.still (fun _ => rfl) (due_append ..) rfl le_rfl on_time
  | receives started framer fed chunk lines at_ =>
    rw [at_] at on_time
    exact paced.still (fun _ => rfl) (due_append ..) rfl le_rfl on_time
  | feedThrows started framer chunk exn at_ =>
    rw [at_] at on_time
    exact paced.still (fun _ => rfl) (due_append ..) rfl le_rfl on_time
  | pushes started framer line lines at_ =>
    rw [at_] at on_time
    exact paced.still (fun _ => rfl) (due_append ..) rfl le_rfl on_time
  | pushThrows started framer line lines exn at_ =>
    rw [at_] at on_time
    exact paced.still (fun _ => rfl) (due_append ..) rfl le_rfl on_time
  | delivers started framer at_ =>
    rw [at_] at on_time
    refine paced.still (fun _ => rfl) (due_append ..) rfl le_rfl ?_
    cases s.stopRequested with
    | true => trivial
    | false => exact on_time
  -- the call that counts the attempt
  | backsOff started now failure backoff delay at_failure reads called =>
    rw [at_failure] at on_time
    obtain ⟨begun, -, -⟩ := on_time
    obtain ⟨after, answer, ran, counted, -⟩ := afterFailure_counts paced.counts (.ofInt (now - started))
    rw [called, Except.ok.injEq, Prod.mk.injEq] at ran
    obtain ⟨rfl, rfl⟩ := ran
    refine ⟨?_, paced.clock.trans reads.1, ?_⟩
    · rw [durations, attemptsOf_append, Event.addDuration, ← begun]
      exact counted
    · rw [OnTime, due_append]
  | startsWaiting now delay at_ reads =>
    rw [at_, OnTime] at on_time
    refine paced.still (fun _ => rfl) (due_append ..) rfl reads.1 ?_
    exact on_time.trans (Int.add_le_add_right reads.1 _)
  | waitStopped since delay at_ stop =>
    refine paced.still (fun _ => rfl) (due_append ..) rfl le_rfl ?_
    intro going
    exact absurd (stop.symm.trans going) (by decide)
  | waitEnds since now delay at_ going reads elapsed =>
    rw [at_, OnTime] at on_time
    refine paced.still (fun _ => rfl) (due_append ..) rfl reads.1 fun _ => ?_
    exact on_time.trans (Int.add_le_of_le_sub_left elapsed)
  | sleeps since now woken delay at_ going reads early slept =>
    rw [at_, OnTime] at on_time
    refine paced.still (fun _ => rfl) (due_append ..) rfl ?_ ?_
    · exact reads.1.trans ((Int.le_add_of_nonneg_right (by decide)).trans slept)
    · rw [at_]
      exact on_time

theorem run_paced (run : Run (Step client) initial trace s) : Paced trace s :=
  have start : Paced [] initial := {
    counts := rfl
    clock := le_rfl
    on_time := fun _ => le_rfl }
  Run.invariant Paced start step_paced run

/-! ### After a stop -/

/-- A new attempt, or a chunk taken over. -/
def Event.isWork : Event → Bool
  | .attempted _ | .received _ => true
  | .silent | .stopRequested | .connected | .pushed _ | .pushThrew _ | .failed _ _ _ => false

/-- How much more the thread may do once a stop is requested. -/
def allowance : Control → Nat
  | .starting | .reading _ _ => 1
  | .testing | .connecting _ | .pushing _ _ _ | .failing _ _ | .backingOff _ | .waiting _ _
  | .returned => 0

private theorem step_allowance (step : Step client s event t) (stop : s.stopRequested = true) :
    t.stopRequested = true ∧ event ≠ .connected ∧
      (if event.isWork then 1 else 0) + allowance t.control ≤ allowance s.control := by
  cases step with
  | stops => exact ⟨rfl, by nofun, by simp [Event.isWork]⟩
  | connectFails _ _ _ _ going | connects _ _ going | readFails _ _ _ _ _ going
  | waitEnds _ _ _ _ going | sleeps _ _ _ _ _ going =>
    exact absurd (stop.symm.trans going) (by decide)
  | tests at_ | delivers _ _ at_ => exact ⟨stop, by nofun, by simp [at_, stop, Event.isWork, allowance]⟩
  | attempts _ at_ | resolveFails _ _ at_ | connectStopped _ at_ | readStopped _ _ at_
  | receives _ _ _ _ _ at_ | feedThrows _ _ _ _ at_ | pushes _ _ _ _ at_ | pushThrows _ _ _ _ _ at_
  | backsOff _ _ _ _ _ at_ | startsWaiting _ _ at_ | waitStopped _ _ at_ =>
    exact ⟨stop, by nofun, by simp [at_, Event.isWork, allowance]⟩

theorem run_allowance (run : Run (Step client) s trace t) (stop : s.stopRequested = true) :
    .connected ∉ trace ∧ trace.countP Event.isWork + allowance t.control ≤ allowance s.control := by
  induction trace generalizing s with
  | nil =>
    cases run
    exact ⟨by simp, by simp⟩
  | cons event trace ih =>
    obtain ⟨middle, step, rest⟩ := run
    obtain ⟨still, other, paid⟩ := step_allowance step stop
    obtain ⟨never, bounded⟩ := ih rest still
    refine ⟨by simp [never, other.symm], ?_⟩
    rw [List.countP_cons]
    omega

private theorem allowance_le (control : Control) : allowance control ≤ 1 := by
  cases control <;> simp [allowance]

/-- The pace of reconnecting, and its end. No attempt begins before the delay of the last failure
is over. That delay is the power of two the attempts so far call for, an attempt counting for as
long as it took. Once a stop is requested nothing connects any more, and the thread begins one more
attempt or takes over one more chunk at most. -/
theorem attempts_wait (client : TcpClient) (trace : List Event) (s : State)
    (run : Run (Step client) initial trace s) :
    (∀ before now after, trace = before ++ .attempted now :: after → due before ≤ now) ∧
    (∀ before now failure delay after, trace = before ++ .failed now failure delay :: after →
      ∃ duration : Int64, duration.toInt = now - (attemptsOf before).1 ∧
        delay.toInt = delayAfter (sinceHealthy (durations before ++ [duration])) ∧
        2000 ≤ delay.toInt ∧ delay.toInt ≤ 30000) ∧
    (∀ before after, trace = before ++ .stopRequested :: after →
      .connected ∉ after ∧ after.countP Event.isWork ≤ 1) := by
  refine ⟨?_, ?_, ?_⟩
  · rintro before now after rfl
    obtain ⟨middle, earlier, _, step, -⟩ := run_append.mp run
    have paced := run_paced earlier
    cases step with
    | attempts _ at_start reads =>
      have on_time := paced.on_time
      rw [at_start] at on_time
      exact on_time.trans reads.1
  · rintro before now failure delay after rfl
    obtain ⟨middle, earlier, _, step, -⟩ := run_append.mp run
    have paced := run_paced earlier
    cases step with
    | backsOff started _ _ backoff _ at_failure reads called =>
      have on_time := paced.on_time
      rw [at_failure] at on_time
      obtain ⟨begun, positive, past⟩ := on_time
      obtain ⟨_, answer, ran, -, value⟩ := afterFailure_counts paced.counts (.ofInt (now - started))
      rw [called, Except.ok.injEq, Prod.mk.injEq] at ran
      obtain ⟨rfl, rfl⟩ := ran
      have fits : (Int64.ofInt (now - started)).toInt = now - started := by
        obtain ⟨late, small⟩ := reads
        exact Int64.toInt_ofInt_of_le (by omega) (by omega)
      refine ⟨.ofInt (now - started), begun ▸ fits, value, ?_⟩
      rw [value]
      exact delayAfter_bounds (sinceHealthy_pos (by simp))
  · rintro before after rfl
    obtain ⟨middle, -, stopped, step, rest⟩ := run_append.mp run
    have stop : stopped.stopRequested = true := by
      cases step
      rfl
    obtain ⟨never, bounded⟩ := run_allowance rest stop
    exact ⟨never, (Nat.le_add_right ..).trans (bounded.trans (allowance_le _))⟩

/-- An address that does not resolve; the second attempt begins as soon as it may, and is stopped. -/
theorem attempts_wait_retry :
    ∃ client before after s, Run (Step client) initial (before ++ .attempted 2000000000 :: after) s ∧
      s.control = .returned ∧ due before = 2000000000 ∧ due before ≤ 2000000000 := by
  have first : ReconnectBackoff.afterFailure {} (.ofInt (0 - 0)) = .ok (⟨1⟩, 2000) := by decide
  let client : TcpClient := { host := "153.44.253.27", port := "5631" }
  have run : ∃ s, Run (Step client) initial
      ([.silent, .attempted 0, .silent, .failed 0 (.systemError "Host not found" "resolve") 2000,
        .silent, .silent, .silent] ++ .attempted 2000000000 :: [.stopRequested, .silent]) s ∧
      s.control = .returned :=
    ⟨_, ⟨_, .tests _ rfl, _, .attempts _ 0 rfl ⟨le_rfl, by decide⟩,
      _, .resolveFails _ 0 "Host not found" rfl,
      _, .backsOff _ 0 0 _ ⟨1⟩ 2000 rfl ⟨le_rfl, by decide⟩ first,
      _, .startsWaiting _ 0 2000 rfl ⟨le_rfl, by decide⟩,
      _, .waitEnds _ 0 2000000000 2000 rfl rfl ⟨by decide, by decide⟩ (by decide),
      _, .tests _ rfl, _, .attempts _ 2000000000 rfl ⟨le_rfl, by decide⟩,
      _, .stops _, _, .connectStopped _ 2000000000 rfl rfl, rfl⟩, rfl⟩
  obtain ⟨s, run, returned⟩ := run
  exact ⟨client, _, _, s, run, returned, rfl, (attempts_wait client _ s run).1 _ _ _ rfl⟩

end Ais.ClientThread
