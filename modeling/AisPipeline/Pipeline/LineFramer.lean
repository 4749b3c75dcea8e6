import AisPipeline.Cpp.Text
import AisPipeline.Lib.Lines

/-!
# Lines out of a byte stream

`feed` scans and shortens its buffer at once. What it computes is the list of
lines of the buffer and the new chunk together.
-/
namespace Ais

open Cpp

/-- `LineFramer`. -/
structure LineFramer where
  buffer : Bytes := []

namespace LineFramer

/-- The inner loop of `feed`: `line_end` moves back over carriage returns. -/
def lineEnd (buffer : Bytes) : Nat → Except Exn Nat
  | 0 => .ok 0
  | n + 1 => do
    let c ← charAt buffer n
    if c = '\r'.toUInt8 then lineEnd buffer n else .ok (n + 1)

/-- The outer loop of `feed`; what is left of the buffer, and the lines. -/
def feedLoop (buffer : Bytes) (lines : List Bytes) : Except Exn (Bytes × List Bytes) :=
  match _found : find buffer '\n'.toUInt8 0 with
  | none => .ok (buffer, lines)
  | some pos => do
    let stop ← lineEnd buffer pos
    let line ← substr buffer 0 stop
    feedLoop (eraseFront buffer (pos + 1)) (lines ++ [line])
termination_by buffer.length
decreasing_by
  have inside := find_lt ‹_›
  simp only [eraseFront, List.length_drop]
  omega

def feed (framer : LineFramer) (chunk : Bytes) : Except Exn (LineFramer × List Bytes) := do
  let (buffer, lines) ← feedLoop (framer.buffer ++ chunk) []
  .ok (⟨buffer⟩, lines)

/-- One call of `feed` a chunk, with the result of each. -/
def feedAll (framer : LineFramer) : List Bytes → Except Exn (LineFramer × List (List Bytes))
  | [] => .ok (framer, [])
  | chunk :: chunks => do
    let (framer, lines) ← framer.feed chunk
    let (framer, results) ← feedAll framer chunks
    .ok (framer, lines :: results)

/-! ### What it computes -/

/-- A line without the carriage returns it ends in. -/
def stripReturns (line : Bytes) : Bytes := line.rdropWhile (· = '\r'.toUInt8)

/-- The newline-terminated lines of a stream. -/
def linesOf (stream : Bytes) : List Bytes :=
  (Lines.terminated '\n'.toUInt8 stream).map stripReturns

/-- The bytes after the last newline. -/
def tailOf (stream : Bytes) : Bytes := Lines.unterminated '\n'.toUInt8 stream

theorem lineEnd_eq {buffer : Bytes} {n : Nat} (inside : n ≤ buffer.length) :
    ∃ stop, lineEnd buffer n = .ok stop ∧ stop ≤ n ∧
      buffer.take stop = stripReturns (buffer.take n) := by
  induction n with
  | zero => exact ⟨0, rfl, le_rfl, rfl⟩
  | succ n ih =>
    have here : n < buffer.length := by omega
    have longer : buffer.take (n + 1) = buffer.take n ++ [buffer[n]] :=
      List.take_succ_eq_append_getElem here
    simp only [lineEnd, charAt_ok here, bind, Except.bind]
    split
    next return_ =>
      obtain ⟨stop, ended, low, taken⟩ := ih (by omega)
      refine ⟨stop, ended, by omega, ?_⟩
      rw [taken, stripReturns, stripReturns, longer,
        List.rdropWhile_concat_pos _ _ _ (by simpa using return_)]
    next other =>
      refine ⟨n + 1, rfl, le_rfl, ?_⟩
      rw [stripReturns, longer, List.rdropWhile_concat_neg _ _ _ (by simpa using other)]

theorem feedLoop_eq (buffer : Bytes) (lines : List Bytes) :
    feedLoop buffer lines = .ok (tailOf buffer, lines ++ linesOf buffer) := by
  induction buffer using Lines.stream_induction '\n'.toUInt8 generalizing lines with
  | unfinished buffer absent =>
    have none_found : find buffer '\n'.toUInt8 0 = none := find_eq_none_iff.mpr absent
    rw [feedLoop]
    split
    next =>
      rw [tailOf, linesOf, Lines.unterminated_of_not_mem absent, Lines.terminated_of_not_mem absent,
        List.map_nil, List.append_nil]
    next pos found =>
      rw [none_found] at found
      cases found
  | finished piece rest absent ih =>
    have at_newline := @find_first piece rest '\n'.toUInt8 absent
    rw [feedLoop]
    split
    next none_found =>
      rw [at_newline] at none_found
      cases none_found
    next pos found =>
      obtain rfl : piece.length = pos := Option.some.inj (at_newline.symm.trans found)
      have inside : piece.length ≤ (piece ++ '\n'.toUInt8 :: rest).length := by simp
      obtain ⟨stop, ended, low, taken⟩ := lineEnd_eq inside
      have erased : eraseFront (piece ++ '\n'.toUInt8 :: rest) (piece.length + 1) = rest := by
        simp [eraseFront]
      rw [List.take_left] at taken
      simp only [ended, substr_ok stop (Nat.zero_le _), List.drop_zero, taken, erased, ih, bind,
        Except.bind]
      rw [tailOf, tailOf, linesOf, linesOf, Lines.unterminated_append_cons absent,
        Lines.terminated_append_cons absent, List.map_cons, List.append_assoc,
        List.singleton_append]

theorem feed_eq (framer : LineFramer) (chunk : Bytes) :
    framer.feed chunk =
      .ok (⟨tailOf (framer.buffer ++ chunk)⟩, linesOf (framer.buffer ++ chunk)) := by
  rw [feed, feedLoop_eq, List.nil_append]
  rfl

/-- The lines of a stream are those of its start and those of the rest behind the unfinished one. -/
theorem linesOf_append (stream more : Bytes) :
    linesOf (stream ++ more) = linesOf stream ++ linesOf (tailOf stream ++ more) := by
  rw [linesOf, Lines.terminated_append, List.map_append]
  rfl

theorem tailOf_append (stream more : Bytes) :
    tailOf (stream ++ more) = tailOf (tailOf stream ++ more) :=
  Lines.unterminated_append stream more

theorem newline_not_mem_tailOf (stream : Bytes) : '\n'.toUInt8 ∉ tailOf stream :=
  Lines.not_mem_unterminated stream

/-- However a stream is cut into chunks. -/
theorem feedAll_eq (framer : LineFramer) (chunks : List Bytes)
    (unfinished : '\n'.toUInt8 ∉ framer.buffer) :
    ∃ results, framer.feedAll chunks = .ok (⟨tailOf (framer.buffer ++ chunks.flatten)⟩, results) ∧
      results.flatten = linesOf (framer.buffer ++ chunks.flatten) := by
  induction chunks generalizing framer with
  | nil =>
    refine ⟨[], ?_, ?_⟩
    · rw [feedAll, List.flatten_nil, List.append_nil, tailOf, Lines.unterminated_of_not_mem unfinished]
    · rw [List.flatten_nil, List.flatten_nil, List.append_nil, linesOf,
        Lines.terminated_of_not_mem unfinished, List.map_nil]
  | cons chunk chunks ih =>
    obtain ⟨results, fed, all⟩ := ih ⟨tailOf (framer.buffer ++ chunk)⟩ (newline_not_mem_tailOf _)
    refine ⟨linesOf (framer.buffer ++ chunk) :: results, ?_, ?_⟩
    · simp only [feedAll, feed_eq, fed, bind, Except.bind]
      rw [List.flatten_cons, ← List.append_assoc, ← tailOf_append]
    · rw [List.flatten_cons, all, List.flatten_cons, ← List.append_assoc, ← linesOf_append]

end LineFramer
end Ais
