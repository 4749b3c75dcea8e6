import Mathlib.Data.List.DropRight

/-!
# Streams cut at a separator

The pieces of a stream that a separator ends, and what follows the last
separator. Both are read off the whole stream; the append lemmas say how a
reader that has kept only the unfinished piece can go on.
-/
namespace Lines

variable {α : Type*} [DecidableEq α] {sep : α}

/-- The pieces that `sep` ends, without it. -/
def terminated (sep : α) (stream : List α) : List (List α) := (stream.splitOn sep).dropLast

/-- What follows the last `sep`. -/
def unterminated (sep : α) (stream : List α) : List α := (stream.splitOn sep).getLastD []

theorem terminated_of_not_mem {stream : List α} (absent : sep ∉ stream) :
    terminated sep stream = [] := by
  rw [terminated, List.splitOn_eq_singleton absent, List.dropLast_singleton]

theorem unterminated_of_not_mem {stream : List α} (absent : sep ∉ stream) :
    unterminated sep stream = stream := by
  rw [unterminated, List.splitOn_eq_singleton absent]
  rfl

theorem terminated_append_cons {piece : List α} (absent : sep ∉ piece) (rest : List α) :
    terminated sep (piece ++ sep :: rest) = piece :: terminated sep rest := by
  rw [terminated, List.splitOn_append_cons_self_of_not_mem absent,
    List.dropLast_cons_of_ne_nil (List.splitOn_ne_nil sep rest), terminated]

theorem unterminated_append_cons {piece : List α} (absent : sep ∉ piece) (rest : List α) :
    unterminated sep (piece ++ sep :: rest) = unterminated sep rest := by
  obtain ⟨first, pieces, split⟩ := List.exists_cons_of_ne_nil (List.splitOn_ne_nil sep rest)
  rw [unterminated, List.splitOn_append_cons_self_of_not_mem absent, unterminated, split]
  rfl

/-- A stream is an open piece, or a terminated one and the rest. -/
theorem stream_induction {motive : List α → Prop} (sep : α)
    (unfinished : ∀ stream, sep ∉ stream → motive stream)
    (finished : ∀ piece rest, sep ∉ piece → motive rest → motive (piece ++ sep :: rest))
    (stream : List α) : motive stream := by
  by_cases found : sep ∈ stream
  · obtain ⟨front, rest, cut, absent⟩ := List.eq_append_cons_of_mem found
    have shorter : rest.length < stream.length := by
      rw [cut, List.length_append, List.length_cons]
      omega
    rw [cut]
    exact finished front rest absent (stream_induction sep unfinished finished rest)
  · exact unfinished stream found
termination_by stream.length

/-- No separator is left over. -/
theorem not_mem_unterminated (stream : List α) : sep ∉ unterminated sep stream := by
  induction stream using stream_induction sep with
  | unfinished stream absent =>
    rw [unterminated_of_not_mem absent]
    exact absent
  | finished piece rest absent ih =>
    rw [unterminated_append_cons absent]
    exact ih

/-- Going on from the unfinished piece gives the pieces of the longer stream. -/
theorem terminated_append (stream more : List α) :
    terminated sep (stream ++ more) =
      terminated sep stream ++ terminated sep (unterminated sep stream ++ more) := by
  induction stream using stream_induction sep with
  | unfinished stream absent =>
    rw [terminated_of_not_mem absent, unterminated_of_not_mem absent, List.nil_append]
  | finished piece rest absent ih =>
    rw [List.append_assoc, List.cons_append, terminated_append_cons absent,
      terminated_append_cons absent, unterminated_append_cons absent, ih, List.cons_append]

theorem unterminated_append (stream more : List α) :
    unterminated sep (stream ++ more) = unterminated sep (unterminated sep stream ++ more) := by
  induction stream using stream_induction sep with
  | unfinished stream absent => rw [unterminated_of_not_mem absent]
  | finished piece rest absent ih =>
    rw [List.append_assoc, List.cons_append, unterminated_append_cons absent,
      unterminated_append_cons absent, ih]

/-- One piece a separator. -/
theorem length_terminated (stream : List α) :
    (terminated sep stream).length = stream.count sep := by
  induction stream using stream_induction sep with
  | unfinished stream absent =>
    rw [terminated_of_not_mem absent, List.count_eq_zero.mpr absent, List.length_nil]
  | finished piece rest absent ih =>
    rw [terminated_append_cons absent, List.length_cons, ih, List.count_append, List.count_cons_self,
      List.count_eq_zero.mpr absent, Nat.zero_add]

end Lines
