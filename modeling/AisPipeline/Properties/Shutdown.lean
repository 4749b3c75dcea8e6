import AisPipeline.Properties.ProcessDelivery

/-!
# Shutdown completes

From the moment `main` has requested the stop every step of any thread uses up
some of a bounded amount of work, and until `main` returns some thread can move:
the client is never kept from a full queue by a decoder that waits, nor the
decoder by a writer that waits.
-/
namespace Ais.Process

open Cpp Transition
open Pipeline (maxBatchSize)

variable {client : TcpClient} {s t : Process} {trace : List Event} {event : Event}
  {capacity1 capacity2 : Nat}

/-! ### The states of a run -/

/-- What the writer still has to write of the batch it is working on. -/
def unwritten : WriterRun.Control → List AisMessage
  | .beginning _ batch => batch
  | .writing _ _ rest => rest
  | _ => []

/-- Nothing grows beyond its size, and what `main` is past of has been done. -/
structure Sized (capacity1 capacity2 : Nat) (trace : List Event) (s : Process) : Prop where
  size1 : s.queue1.capacity = capacity1
  size2 : s.queue2.capacity = capacity2
  length1 : s.queue1.queue.length ≤ capacity1
  length2 : s.queue2.queue.length ≤ capacity2
  batch : (unwritten s.writer.control).length ≤ maxBatchSize
  requested : s.main ≠ .waiting → s.stopFlag = true ∧ s.client.stopRequested = true
  closed1 : s.main = .joiningDecoder ∨ s.main = .closingQueue2 ∨ s.main = .joiningWriter →
    s.queue1.closed = true
  closed2 : s.main = .joiningWriter → s.queue2.closed = true
  going : s.decoder = .terminated → .terminated ∈ trace ∨ .decoderPushThrew ∈ trace

private theorem push_room {α : Type*} {q q' : ThreadSafeQueue α} {item : α}
    (ran : q.push item = (q', .returned ())) : q.queue.length < q.capacity := by
  rcases q.push_cases item with ⟨did, -⟩ | ⟨did, -⟩ | ⟨-, -, room⟩
  · rw [did] at ran; cases ran
  · rw [did] at ran; cases ran
  · exact room

private theorem push_threw_same {α : Type*} {q q' : ThreadSafeQueue α} {item : α} {exn : Exn}
    (ran : q.push item = (q', .threw exn)) : q' = q := by
  rcases q.push_cases item with ⟨did, -⟩ | ⟨did, -⟩ | ⟨did, -⟩
  · rw [did] at ran; cases ran
  · rw [did] at ran; cases ran; rfl
  · rw [did] at ran; cases ran

/-- The work of a batch gets less along the steps inside a transaction. -/
private theorem unwritten_le {s t : WriterRun.State} {event : WriterRun.Event}
    (step : WriterRun.Step s event t) (busy : s.control ≠ .popping) :
    (unwritten t.control).length ≤ (unwritten s.control).length := by
  cases step with
  | takes now batch at_pop => exact absurd at_pop busy
  | begins receivedAt batch at_ => rw [at_]; rfl
  | writes receivedAt message written rest working at_ =>
    rw [at_]
    exact Nat.le_succ _
  | stops | continues | drains | beginFails | statementFails | commits | commitFails | keeps | prunes
  | pruneFails | unwinds => exact Nat.zero_le _

private theorem client_requested {s t : ClientThread.State} {event : ClientThread.Event}
    (step : ClientThread.Step client s event t) (stop : s.stopRequested = true) :
    t.stopRequested = true := by
  cases step with
  | stops => rfl
  | _ => exact stop

theorem step_sized (sized : Sized capacity1 capacity2 trace s) (step : Step client s event t) :
    Sized capacity1 capacity2 (trace ++ [event]) t := by
  have going : s.decoder = .terminated →
      .terminated ∈ trace ++ [event] ∨ .decoderPushThrew ∈ trace ++ [event] := fun at_ =>
    (sized.going at_).imp (List.mem_append_left _) (List.mem_append_left _)
  have elsewhere {decoder : DecoderState} (other : decoder ≠ .terminated) :
      decoder = .terminated → .terminated ∈ trace ++ [event] ∨ .decoderPushThrew ∈ trace ++ [event] :=
    fun at_ => absurd at_ other
  cases step with
  | clientMoves event after step alone =>
    exact { sized with
      requested := fun past => (sized.requested past).imp id (client_requested step)
      going := going }
  | clientPushes line after q step ran =>
    obtain ⟨opened, same⟩ := Pipeline.push_returned ran
    have room := push_room ran
    rw [same]
    exact { sized with
      length1 := by
        rw [List.length_append, List.length_singleton, ← sized.size1]
        exact room
      requested := fun past => (sized.requested past).imp id (client_requested step)
      going := going }
  | clientPushThrows line after q exn step ran =>
    rw [push_threw_same ran]
    exact { sized with
      requested := fun past => (sized.requested past).imp id (client_requested step)
      going := going }
  | decoderTests at_loop =>
    exact { sized with going := elsewhere (by cases s.decoderStop <;> nofun) }
  | decoderPops line q stage output at_pop ran processed =>
    obtain ⟨rest, contents, rfl⟩ := Pipeline.pop_some ran
    have length1 := sized.length1
    rw [contents, List.length_cons] at length1
    exact { sized with
      length1 := Nat.le_of_succ_le length1
      going := elsewhere (by cases output <;> nofun) }
  | decoderThrows line q exn at_pop ran processed =>
    obtain ⟨rest, contents, rfl⟩ := Pipeline.pop_some ran
    have length1 := sized.length1
    rw [contents, List.length_cons] at length1
    exact { sized with
      length1 := Nat.le_of_succ_le length1
      going := fun _ => Or.inl (by simp) }
  | decoderEnds q at_pop ran =>
    obtain ⟨rfl, -, -⟩ := Pipeline.pop_none ran
    exact { sized with going := elsewhere (by nofun) }
  | decoderPushes message q at_push ran =>
    obtain ⟨opened, same⟩ := Pipeline.push_returned ran
    have room := push_room ran
    rw [same]
    exact { sized with
      length2 := by
        rw [List.length_append, List.length_singleton, ← sized.size2]
        exact room
      going := elsewhere (by nofun) }
  | decoderPushThrows message q exn at_push ran =>
    rw [push_threw_same ran]
    exact { sized with going := fun _ => Or.inr (by simp) }
  | writerTests at_loop =>
    refine { sized with batch := ?_, going := going }
    rw [withWriter]
    cases s.writerStop <;> exact Nat.zero_le _
  | writerTakes now batch q at_pop ran some_left =>
    rcases s.queue2.popBatch_cases maxBatchSize with ⟨-, exn, did⟩ | ⟨did, -⟩ | ⟨did, -⟩ |
      ⟨taken, rest, did, contents, -, small⟩
    · rw [did] at ran; cases ran
    · rw [did] at ran; cases ran
    · rw [did] at ran; cases ran; exact absurd rfl some_left
    · rw [did] at ran
      cases ran
      have length2 := sized.length2
      rw [contents, List.length_append] at length2
      exact { sized with
        length2 := (Nat.le_add_left ..).trans length2
        batch := small
        going := going }
  | writerDrains q at_pop ran =>
    obtain ⟨⟨same, contents⟩, -⟩ := Pipeline.popBatch_returned ran
    rw [same]
    exact { sized with
      length2 := by
        have length2 := sized.length2
        rw [contents, List.nil_append] at length2
        exact length2
      batch := Nat.zero_le _
      going := going }
  | writerMoves event after step inside busy =>
    exact { sized with batch := (unwritten_le step busy).trans sized.batch, going := going }
  | signals first =>
    exact { sized with requested := fun past => ⟨rfl, (sized.requested past).2⟩, going := going }
  | mainRequestsStop after at_wait flagged step =>
    cases step with
    | stops =>
      exact { sized with
        requested := fun _ => ⟨flagged, rfl⟩
        closed1 := by simp
        closed2 := by simp
        going := going }
  | mainJoinsClient at_join ended =>
    exact { sized with
      requested := fun _ => sized.requested (by simp [at_join])
      closed1 := by simp
      closed2 := by simp
      going := going }
  | mainClosesQueue1 at_close =>
    exact { sized with
      requested := fun _ => sized.requested (by simp [at_close])
      closed1 := fun _ => rfl
      closed2 := by simp
      going := going }
  | mainJoinsDecoder at_join ended =>
    exact { sized with
      requested := fun _ => sized.requested (by simp [at_join])
      closed1 := fun _ => sized.closed1 (by simp [at_join])
      closed2 := by simp
      going := going }
  | mainClosesQueue2 at_close =>
    exact { sized with
      requested := fun _ => sized.requested (by simp [at_close])
      closed1 := fun _ => sized.closed1 (by simp [at_close])
      closed2 := fun _ => rfl
      going := going }
  | mainJoinsWriter at_join ended =>
    exact { sized with
      requested := fun _ => sized.requested (by simp [at_join])
      closed1 := by simp
      closed2 := by simp
      going := going }

theorem run_sized {db : Database}
    (run : Run (Step client) (initial capacity1 capacity2 db) trace s) :
    Sized capacity1 capacity2 trace s := by
  have start : Sized capacity1 capacity2 [] (initial capacity1 capacity2 db) := {
    size1 := rfl
    size2 := rfl
    length1 := Nat.zero_le _
    length2 := Nat.zero_le _
    batch := Nat.zero_le _
    requested := fun past => absurd rfl past
    closed1 := by simp [initial]
    closed2 := by simp [initial]
    going := by simp [initial] }
  exact Run.invariant (Sized capacity1 capacity2) start step_sized run

/-! ### Work -/

/-- What the client may still do, a line counting for its way through the queues as well. -/
def clientWork : ClientThread.Control → Nat
  | .returned => 0
  | .testing => 1
  | .waiting _ _ => 2
  | .backingOff _ => 3
  | .failing _ _ => 4
  | .connecting _ => 5
  | .starting => 6
  | .pushing _ _ lines => 1 + 10 * lines.length
  | .reading _ _ => 2 + 10 * ClientThread.bufferSize

def decoderWork : DecoderState → Nat
  | .returned | .terminated => 0
  | .popping => 1
  | .loop => 2
  | .pushing _ => 9

def writerWork : WriterRun.Control → Nat
  | .returned | .threw _ => 0
  | .popping | .unwinding _ => 1
  | .loop => 2
  | .pruning => 3
  | .writing _ _ rest => 4 + rest.length
  | .beginning _ batch => 5 + batch.length

def mainWork : MainState → Nat
  | .returned => 0
  | .joiningWriter => 1
  | .closingQueue2 => 2
  | .joiningDecoder => 3
  | .closingQueue1 => 4
  | .joiningClient => 5
  | .waiting => 6

def work (s : Process) : Nat :=
  clientWork s.client.control + 9 * s.queue1.queue.length + decoderWork s.decoder +
    6 * s.queue2.queue.length + writerWork s.writer.control + mainWork s.main

/-- The steps a shutdown takes at most. -/
def shutdownSteps (capacity1 capacity2 : Nat) : Nat := 41481 + 9 * capacity1 + 6 * capacity2

/-- A failed operation of the database. -/
def Event.fails : Event → Prop
  | .writer (.failed _) => True
  | .client _ | .writer _ | .decoderPushThrew | .terminated | .silent => False

/-- A state after the stop was requested, in a run in which the database has not failed. -/
def Stopping (client : TcpClient) (capacity1 capacity2 : Nat) (db : Database) (s : Process) : Prop :=
  ∃ trace, Run (Step client) (initial capacity1 capacity2 db) trace s ∧ s.main ≠ .waiting ∧
    ∀ event ∈ trace, ¬ event.fails

variable {db : Database}

private theorem work_bounded (sized : Sized capacity1 capacity2 trace s)
    (bounded : ClientThread.Bounded s.client) (past : s.main ≠ .waiting) :
    work s ≤ shutdownSteps capacity1 capacity2 := by
  have client : clientWork s.client.control ≤ 40962 := by
    have hand := bounded.hand
    cases at_ : s.client.control with
    | pushing started framer lines =>
      rw [at_, ClientThread.inHand, ClientThread.bufferSize] at hand
      rw [clientWork]
      omega
    | _ => simp [clientWork, ClientThread.bufferSize]
  have decoder : decoderWork s.decoder ≤ 9 := by
    cases s.decoder <;> simp [decoderWork]
  have writer : writerWork s.writer.control ≤ 505 := by
    have small := sized.batch
    cases at_ : s.writer.control with
    | beginning receivedAt batch | writing receivedAt written batch =>
      rw [at_, unwritten, maxBatchSize] at small
      rw [writerWork]
      omega
    | _ => simp [writerWork]
  have main : mainWork s.main ≤ 5 := by
    cases at_ : s.main with
    | waiting => exact absurd at_ past
    | _ => simp [mainWork]
  have length1 := sized.length1
  have length2 := sized.length2
  rw [work, shutdownSteps]
  omega

/-- The client's own steps after a stop. -/
private theorem clientWork_lt {s t : ClientThread.State} {event : ClientThread.Event}
    (step : ClientThread.Step client s event t) (alone : event.isLocal)
    (stop : s.stopRequested = true) (bounded : ClientThread.Bounded s) :
    clientWork t.control < clientWork s.control := by
  cases step with
  | stops | pushes | pushThrows => cases alone
  | connectFails _ _ _ _ going | connects _ _ going | readFails _ _ _ _ _ going
  | waitEnds _ _ _ _ going | sleeps _ _ _ _ _ going => exact absurd (stop.symm.trans going) (by decide)
  | tests at_ | delivers _ _ at_ => simp [at_, stop, clientWork]
  | receives started framer fed chunk lines at_ size ran =>
    have unfinished := bounded.unfinished framer (by rw [at_]; rfl)
    have few := ClientThread.length_feed_le unfinished ran
    rw [at_, clientWork, clientWork]
    omega
  | feedThrows started framer chunk exn at_ size ran =>
    rw [LineFramer.feed_eq] at ran
    cases ran
  | attempts _ at_ | resolveFails _ _ at_ | connectStopped _ at_ | readStopped _ _ at_
  | backsOff _ _ _ _ _ at_ | startsWaiting _ _ at_ | waitStopped _ _ at_ => simp [at_, clientWork]

private theorem writerWork_lt {s t : WriterRun.State} {event : WriterRun.Event}
    (step : WriterRun.Step s event t) (busy : s.control ≠ .popping) :
    writerWork t.control < writerWork s.control := by
  cases step with
  | drains at_ | takes _ _ at_ => exact absurd at_ busy
  | stops at_ | continues at_ | begins _ _ at_ | beginFails _ _ at_ | writes _ _ _ _ _ at_
  | commits _ _ _ at_ | keeps _ at_ | prunes _ _ _ _ at_ | unwinds _ at_ => simp [at_, writerWork]
  | statementFails _ _ _ _ _ at_ | commitFails _ _ _ at_ | pruneFails _ _ _ at_ =>
    rw [at_, writerWork, writerWork]
    omega

/-- Every step after the stop uses up some work. -/
theorem step_pays (stopping : Stopping client capacity1 capacity2 db s) (unfailed : ¬ event.fails)
    (step : Step client s event t) : Stopping client capacity1 capacity2 db t ∧ work t < work s := by
  obtain ⟨trace, run, past, before⟩ := stopping
  have sized := run_sized run
  obtain ⟨flagged, stop⟩ := sized.requested past
  have bounded := ClientThread.run_bounded (run_client run)
  obtain ⟨trace', p, stages⟩ := run_stages run
  obtain ⟨⟨queue1, queue2, -, client_seen, decoder_seen, -⟩, -, control, -⟩ := stages
  refine ⟨⟨trace ++ [event], run_append.mpr ⟨s, run, .single step⟩, ?_, ?_⟩, ?_⟩
  · cases step with
    | mainRequestsStop | mainJoinsClient | mainClosesQueue1 | mainJoinsDecoder | mainClosesQueue2
    | mainJoinsWriter => nofun
    | _ => exact past
  · intro other member
    rcases List.mem_append.mp member with early | last
    · exact before other early
    · exact List.mem_singleton.mp last ▸ unfailed
  rw [work, work]
  cases step with
  | clientMoves event after step alone =>
    have less := clientWork_lt step alone stop bounded
    dsimp only
    omega
  | clientPushes line after q step ran =>
    obtain ⟨-, rfl⟩ := Pipeline.push_returned ran
    cases step with
    | pushes started framer line lines at_push =>
      simp only [at_push, clientWork, List.length_append, List.length_cons, List.length_nil]
      omega
  | clientPushThrows line after q exn step ran =>
    have gone := control.closed1 (queue1 ▸ Pipeline.push_threw ran)
    cases step with
    | pushThrows started framer line lines exn' at_push =>
      rw [client_seen, at_push] at gone
      cases gone
  | decoderTests at_loop =>
    have less : decoderWork (if s.decoderStop then .returned else .popping) < decoderWork s.decoder := by
      rw [at_loop]
      cases s.decoderStop <;> simp [decoderWork]
    dsimp only
    omega
  | decoderPops line q stage output at_pop ran processed =>
    obtain ⟨rest, contents, rfl⟩ := Pipeline.pop_some ran
    have most : decoderWork (output.elim .loop .pushing) ≤ 9 := by
      cases output <;> simp [decoderWork]
    simp only [contents, List.length_cons, at_pop, decoderWork] at most ⊢
    omega
  | decoderThrows line q exn at_pop ran processed =>
    rw [DecoderStage.processLine_eq] at processed
    cases processed
  | decoderEnds q at_pop ran =>
    obtain ⟨rfl, -, -⟩ := Pipeline.pop_none ran
    simp only [at_pop, decoderWork]
    omega
  | decoderPushes message q at_push ran =>
    obtain ⟨-, rfl⟩ := Pipeline.push_returned ran
    simp only [at_push, decoderWork, List.length_append, List.length_cons, List.length_nil]
    omega
  | decoderPushThrows message q exn at_push ran =>
    have gone := control.closed2 (queue2 ▸ Pipeline.push_threw ran)
    rw [decoder_seen, at_push] at gone
    cases gone
  | writerTests at_loop =>
    have less : writerWork (if s.writerStop then .returned else .popping) <
        writerWork s.writer.control := by
      rw [at_loop]
      cases s.writerStop <;> simp [writerWork]
    simp only [withWriter]
    omega
  | writerTakes now batch q at_pop ran some_left =>
    obtain ⟨⟨-, contents⟩, -⟩ := Pipeline.popBatch_returned ran
    have some_message := List.length_pos_of_ne_nil some_left
    simp only [withWriter, at_pop, writerWork, contents, List.length_append]
    omega
  | writerDrains q at_pop ran =>
    obtain ⟨⟨-, contents⟩, -⟩ := Pipeline.popBatch_returned ran
    simp only [withWriter, at_pop, writerWork, contents, List.nil_append]
    omega
  | writerMoves event after step inside busy =>
    have less := writerWork_lt step busy
    dsimp only
    omega
  | signals first => exact absurd (flagged.symm.trans first) (by decide)
  | mainRequestsStop after at_wait => exact absurd at_wait past
  | mainJoinsClient at_ | mainClosesQueue1 at_ | mainJoinsDecoder at_ | mainClosesQueue2 at_
  | mainJoinsWriter at_ =>
    simp only [at_, mainWork, ThreadSafeQueue.close]
    omega

/-! ### Progress -/

/-- Some thread can take a step, and not because the database fails. -/
def CanMove (client : TcpClient) (s : Process) : Prop :=
  ∃ event t, ¬ event.fails ∧ Step client s event t

/-- A writer that has something to take, or to end on, can go on. -/
private theorem writer_canMove (run : Run (Step client) (initial capacity1 capacity2 db) trace s)
    (unfailed : ∀ event ∈ trace, ¬ event.fails) (running : s.writer.control ≠ .returned)
    (supplied : s.queue2.queue ≠ [] ∨ s.queue2.closed = true) : CanMove client s := by
  have writing := run_writer run
  have fine : ¬ s.writer.control.failed := by
    rw [← WriterRun.run_failed_iff writing]
    rintro ⟨failed, member⟩
    exact unfailed _ (mem_writerTrace.mp member) trivial
  have kept := WriterRun.run_kept writing
  unfold WriterRun.Kept at kept
  cases at_ : s.writer.control with
  | returned => exact absurd at_ running
  | unwinding failed | threw failed =>
    rw [at_] at fine
    exact absurd trivial fine
  | loop => exact ⟨_, _, by nofun, .writerTests s at_⟩
  | popping =>
    rcases s.queue2.popBatch_cases maxBatchSize with ⟨zero, -⟩ | ⟨-, opened, empty⟩ | ⟨ran, -⟩ |
      ⟨batch, rest, ran, -, some_left, -⟩
    · cases zero
    · rcases supplied with some_message | closed
      · exact absurd empty some_message
      · exact absurd (opened.symm.trans closed) (by decide)
    · exact ⟨_, _, by nofun, .writerDrains s _ at_ ran⟩
    · exact ⟨_, _, by nofun, .writerTakes s 0 batch _ at_ ran some_left⟩
  | beginning receivedAt batch =>
    rw [at_] at kept
    have idle : s.writer.connection.transaction = none := by rw [kept.1]
    exact ⟨_, _, by nofun, .writerMoves s _ _ (.begins _ receivedAt batch at_ idle) (by simp [at_])
      (by simp [at_])⟩
  | writing receivedAt written rest =>
    rw [at_] at kept
    have open_ := congrArg WriterRun.Connection.transaction kept.1
    cases rest with
    | nil =>
      exact ⟨_, _, by nofun, .writerMoves s _ _ (.commits _ receivedAt written _ at_ open_)
        (by simp [at_]) (by simp [at_])⟩
    | cons message rest =>
      exact ⟨_, _, by nofun, .writerMoves s _ _ (.writes _ receivedAt message written rest _ at_ open_)
        (by simp [at_]) (by simp [at_])⟩
  | pruning =>
    have recent : s.writer.lastPrune - s.writer.lastPrune < WriterRun.pruneInterval := by
      rw [Int.sub_self]
      decide
    exact ⟨_, _, by nofun, .writerMoves s _ _ (.keeps _ s.writer.lastPrune at_ recent) (by simp [at_])
      (by simp [at_])⟩

/-- A decoder that has something to take, or to end on, can go on, or the writer can. -/
private theorem decoder_canMove (room2 : 0 < capacity2)
    (run : Run (Step client) (initial capacity1 capacity2 db) trace s)
    (unfailed : ∀ event ∈ trace, ¬ event.fails) (running : s.decoder ≠ .returned)
    (supplied : s.queue1.queue ≠ [] ∨ s.queue1.closed = true) : CanMove client s := by
  obtain ⟨trace', p, stages⟩ := run_stages run
  have sized := run_sized run
  cases at_ : s.decoder with
  | returned => exact absurd at_ running
  | terminated =>
    rcases sized.going at_ with threw | threw
    · exact absurd threw (stages.not_mem stages.delivery.not_terminated rfl)
    · exact absurd threw (stages.not_mem stages.delivery.no_push_threw rfl)
  | loop => exact ⟨_, _, by nofun, .decoderTests s at_⟩
  | popping =>
    rcases s.queue1.pop_cases with ⟨-, opened, empty⟩ | ⟨ran, -⟩ | ⟨line, rest, ran, -⟩
    · rcases supplied with some_line | closed
      · exact absurd empty some_line
      · exact absurd (opened.symm.trans closed) (by decide)
    · exact ⟨_, _, by nofun, .decoderEnds s _ at_ ran⟩
    · exact ⟨_, _, by nofun, .decoderPops s line _ _ _ at_ ran (s.stage.processLine_eq line)⟩
  | pushing message =>
    rcases s.queue2.push_cases message with ⟨-, opened, full⟩ | ⟨-, closed⟩ | ⟨ran, -⟩
    -- a full queue keeps the decoder, but not the writer
    · have control := stages.control
      have refines := stages.refines
      refine writer_canMove run unfailed ?_ (Or.inl ?_)
      · intro gone
        have seen := refines.writer
        rw [gone] at seen
        generalize at_w : p.writer = w at seen
        cases seen
        have closed := (control.writer_done at_w).1
        rw [refines.queue2] at closed
        exact absurd (opened.symm.trans closed) (by decide)
      · intro empty
        rw [sized.size2, empty, List.length_nil] at full
        omega
    · have gone := stages.control.closed2 (by rw [stages.refines.queue2]; exact closed)
      rw [stages.refines.decoder] at gone
      exact absurd gone running
    · exact ⟨_, _, by nofun, .decoderPushes s message _ at_ ran⟩

/-- A client that has not returned after a stop can go on, or the decoder or the writer can. -/
private theorem client_canMove (room1 : 0 < capacity1) (room2 : 0 < capacity2)
    (run : Run (Step client) (initial capacity1 capacity2 db) trace s)
    (unfailed : ∀ event ∈ trace, ¬ event.fails) (stop : s.client.stopRequested = true)
    (running : s.client.control ≠ .returned) : CanMove client s := by
  have bounded := ClientThread.run_bounded (run_client run)
  have reads : s.client.Reads s.client.clock := ⟨le_rfl, bounded.clock⟩
  cases at_ : s.client.control with
  | returned => exact absurd at_ running
  | testing => exact ⟨_, _, by nofun, .clientMoves s _ _ (.tests _ at_) rfl⟩
  | starting => exact ⟨_, _, by nofun, .clientMoves s _ _ (.attempts _ _ at_ reads) rfl⟩
  | connecting started =>
    exact ⟨_, _, by nofun, .clientMoves s _ _ (.connectStopped _ started at_ stop) rfl⟩
  -- the closed socket has ended the read
  | reading started framer =>
    exact ⟨_, _, by nofun, .clientMoves s _ _ (.readStopped _ started framer at_ stop) rfl⟩
  | failing started failure =>
    have paced := ClientThread.run_paced (run_client run)
    obtain ⟨after, delay, called, -, -⟩ := ReconnectBackoff.afterFailure_counts paced.counts
      (.ofInt (s.client.clock - started))
    exact ⟨_, _, by nofun, .clientMoves s _ _ (.backsOff _ started _ failure after delay at_ reads called)
      rfl⟩
  | backingOff delay =>
    exact ⟨_, _, by nofun, .clientMoves s _ _ (.startsWaiting _ _ delay at_ reads) rfl⟩
  | waiting since delay =>
    exact ⟨_, _, by nofun, .clientMoves s _ _ (.waitStopped _ since delay at_ stop) rfl⟩
  | pushing started framer lines =>
    cases lines with
    | nil => exact ⟨_, _, by nofun, .clientMoves s _ _ (.delivers _ started framer at_) rfl⟩
    | cons line lines =>
      obtain ⟨trace', p, stages⟩ := run_stages run
      have control := stages.control
      have refines := stages.refines
      have sized := run_sized run
      rcases s.queue1.push_cases line with ⟨-, opened, full⟩ | ⟨-, closed⟩ | ⟨ran, -⟩
      -- a full queue keeps the client, but not the decoder
      · refine decoder_canMove room2 run unfailed ?_ (Or.inl ?_)
        · intro gone
          have closed := (control.decoder_done (refines.decoder.trans gone)).1
          rw [refines.queue1] at closed
          exact absurd (opened.symm.trans closed) (by decide)
        · intro empty
          rw [sized.size1, empty, List.length_nil] at full
          omega
      · have gone := control.closed1 (by rw [refines.queue1]; exact closed)
        rw [refines.client, at_] at gone
        cases gone
      · exact ⟨_, _, by nofun, .clientPushes s line _ _ (.pushes _ started framer line lines at_) ran⟩

/-- After the stop the process stands still only once `main` has returned. -/
theorem stopping_canMove (room1 : 0 < capacity1) (room2 : 0 < capacity2)
    (stopping : Stopping client capacity1 capacity2 db s) (running : s.main ≠ .returned) :
    CanMove client s := by
  obtain ⟨trace, run, past, unfailed⟩ := stopping
  have sized := run_sized run
  cases at_ : s.main with
  | waiting => exact absurd at_ past
  | returned => exact absurd at_ running
  | joiningClient =>
    by_cases gone : s.client.control = .returned
    · exact ⟨_, _, by nofun, .mainJoinsClient s at_ gone⟩
    · exact client_canMove room1 room2 run unfailed (sized.requested past).2 gone
  | closingQueue1 => exact ⟨_, _, by nofun, .mainClosesQueue1 s at_⟩
  | joiningDecoder =>
    by_cases gone : s.decoder = .returned
    · exact ⟨_, _, by nofun, .mainJoinsDecoder s at_ gone⟩
    · exact decoder_canMove room2 run unfailed gone (Or.inr (sized.closed1 (Or.inl at_)))
  | closingQueue2 => exact ⟨_, _, by nofun, .mainClosesQueue2 s at_⟩
  | joiningWriter =>
    by_cases gone : s.writer.control = .returned
    · exact ⟨_, _, by nofun, .mainJoinsWriter s at_ gone⟩
    · exact writer_canMove run unfailed gone (Or.inr (sized.closed2 at_))

/-- Shutdown completes. Once the stop is requested no run without a failing database operation
takes more than a fixed number of steps, whatever the schedule, the network and the clocks do;
where none is left to take, `main` has returned; and it can get there from every state. -/
theorem shutdown_completes (client : TcpClient) (capacity1 capacity2 : Nat) (room1 : 0 < capacity1)
    (room2 : 0 < capacity2) (db : Database) (trace : List Event) (s : Process)
    (run : Run (Step client) (initial capacity1 capacity2 db) trace s)
    (requested : s.main ≠ .waiting) (unfailed : ∀ event ∈ trace, ¬ event.fails) :
    (∀ more t, Run (Step client) s more t → (∀ event ∈ more, ¬ event.fails) →
      more.length ≤ shutdownSteps capacity1 capacity2 ∧
      ((∀ event next, Step client t event next → event.fails) → t.main = .returned)) ∧
    ∃ more t, Run (Step client) s more t ∧ (∀ event ∈ more, ¬ event.fails) ∧ t.main = .returned := by
  have stopping : Stopping client capacity1 capacity2 db s := ⟨trace, run, requested, unfailed⟩
  have bounded := work_bounded (run_sized run) (ClientThread.run_bounded (run_client run)) requested
  constructor
  · intro more t further fine
    obtain ⟨still, spent⟩ := Run.spends work step_pays further stopping fine
    refine ⟨by omega, fun stuck => ?_⟩
    by_contra running
    obtain ⟨event, next, fails, step⟩ := stopping_canMove room1 room2 still running
    exact fails (stuck event next step)
  · obtain ⟨more, t, further, returned, fine⟩ :=
      Run.exists_final work (fun t => t.main = .returned) step_pays (stopping_canMove room1 room2) stopping
    exact ⟨more, t, further, fine, returned⟩

/-- A stop while the first queue is full and the client has another line in its hands. -/
theorem shutdown_completes_full :
    ∃ trace s more t, Run (Step ({} : Config).client) (initial 1 1 .empty) trace s ∧
      s.queue1.queue = [reportUncut.write] ∧
      s.client.control = .pushing 0 {} [reportUncut.write] ∧
      Run (Step ({} : Config).client) s more t ∧ (∀ event ∈ more, ¬ event.fails) ∧
      more.length ≤ shutdownSteps 1 1 ∧ t.main = .returned := by
  let line := reportUncut.write
  let chunk := reportChunk ++ reportChunk
  have cut : LineFramer.linesOf chunk = [line, line] ∧ LineFramer.tailOf chunk = [] := by decide +kernel
  have fed : LineFramer.feed {} chunk = .ok ({}, [line, line]) := by
    rw [LineFramer.feed_eq, List.nil_append, cut.1, cut.2]
  have run : ∃ s, s.main ≠ .waiting ∧ s.queue1.queue = [line] ∧ s.client.control = .pushing 0 {} [line] ∧
      Run (Step ({} : Config).client) (initial 1 1 .empty)
        [.client .silent, .client (.attempted 0), .client .connected, .client (.received chunk),
          .client (.pushed line), .silent, .client .stopRequested] s :=
    ⟨_, by nofun, rfl, rfl, _, .clientMoves _ _ _ (.tests _ rfl) rfl,
      _, .clientMoves _ _ _ (.attempts _ 0 rfl ⟨le_rfl, by decide⟩) rfl,
      _, .clientMoves _ _ _ (.connects _ 0 rfl rfl) rfl,
      _, .clientMoves _ _ _ (.receives _ 0 {} _ chunk _ rfl (by decide +kernel) fed) rfl,
      _, .clientPushes _ line _ _ (.pushes _ 0 _ line [line] rfl) rfl,
      _, .signals _ rfl, _, .mainRequestsStop _ _ rfl rfl (.stops _), rfl⟩
  obtain ⟨s, past, full, in_hand, run⟩ := run
  obtain ⟨bounded, more, t, further, fine, returned⟩ := shutdown_completes ({} : Config).client 1 1
    (by decide) (by decide) .empty _ s run past (by simp [Event.fails])
  exact ⟨_, s, more, t, run, full, in_hand, further, fine, (bounded more t further fine).1, returned⟩

end Ais.Process
