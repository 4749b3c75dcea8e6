import AisPipeline.Pipeline.TcpClient

/-!
# Framing over connections

What is pushed depends on the bytes of each connection alone.
-/
namespace Ais.TcpClient

open Cpp LineFramer

private theorem readLoop_output (client : TcpClient) (framer : LineFramer) (output : List Bytes)
    (reads : List (Operation Bytes)) (unfinished : '\n'.toUInt8 ∉ framer.buffer) :
    (client.readLoop framer output reads).1 =
      output ++ linesOf (framer.buffer ++ (arrived reads).flatten) := by
  induction reads generalizing framer output with
  | nil =>
    rw [arrived, List.flatten_nil, List.append_nil, linesOf, Lines.terminated_of_not_mem unfinished,
      List.map_nil, List.append_nil]
    rfl
  | cons read reads ih =>
    have nothing_new : linesOf framer.buffer = [] := by
      rw [linesOf, Lines.terminated_of_not_mem unfinished, List.map_nil]
    unfold readLoop arrived
    cases read.completion with
    | timedOut =>
      simp only [List.flatten_nil, List.append_nil, nothing_new]
      split
      · rfl
      · rfl
    | failed error =>
      simp only [List.flatten_nil, List.append_nil, nothing_new]
      split
      · rfl
      · rfl
    | done chunk =>
      simp only [feed_eq]
      split
      next stop => rw [List.flatten_cons, List.flatten_nil, List.append_nil]
      -- the loop goes on with the tail in the buffer
      next going =>
        rw [ih ⟨tailOf _⟩ _ (newline_not_mem_tailOf _), List.flatten_cons, List.append_assoc,
          ← linesOf_append, List.append_assoc]

theorem run_output (client : TcpClient) (connection : Connection) (output : List Bytes) :
    (client.run connection output).1 = output ++ linesOf connection.chunks.flatten := by
  have nothing : linesOf [] = [] := rfl
  unfold run Connection.chunks
  cases connection.resolveError with
  | some error => simp only [List.flatten_nil, nothing, List.append_nil]
  | none =>
    cases connection.connect.stopRequested with
    | true => simp only [List.flatten_nil, nothing, List.append_nil, if_true]
    | false =>
      cases connection.connect.completion with
      | timedOut => simp only [List.flatten_nil, nothing, List.append_nil, Bool.false_eq_true, if_false]
      | failed error => simp only [List.flatten_nil, nothing, List.append_nil, Bool.false_eq_true, if_false]
      | done value =>
        rw [if_neg Bool.false_ne_true]
        exact client.readLoop_output {} output connection.reads List.not_mem_nil

theorem runs_output (client : TcpClient) (connections : List Connection) (output : List Bytes) :
    client.runs connections output =
      output ++ connections.flatMap fun connection => linesOf connection.chunks.flatten := by
  induction connections generalizing output with
  | nil => rw [List.flatMap_nil, List.append_nil]; rfl
  | cons connection connections ih =>
    have next_runs : client.runs (connection :: connections) output =
        client.runs connections (client.run connection output).1 := rfl
    rw [next_runs, ih, run_output, List.flatMap_cons, List.append_assoc]

/-- Framing does not depend on how the stream is cut, and connections do not leak into each other.
For every list of chunks the results of `feed` together are the newline-terminated lines of the
whole, without the carriage returns they end in, and the buffer holds what follows the last
newline; and successive runs push the lines of their connections one after the other. -/
theorem framing_independent (client : TcpClient) (connections : List Connection) :
    (∀ chunks : List Bytes, ∃ framer results, feedAll {} chunks = .ok (framer, results) ∧
      results.flatten = linesOf chunks.flatten ∧ framer.buffer = tailOf chunks.flatten) ∧
    client.runs connections [] =
      connections.flatMap fun connection => linesOf connection.chunks.flatten := by
  constructor
  · intro chunks
    obtain ⟨results, fed, all⟩ := feedAll_eq {} chunks List.not_mem_nil
    exact ⟨_, results, fed, all, rfl⟩
  · rw [runs_output, List.nil_append]

end Ais.TcpClient
