import AisPipeline.Web.GmlReader

/-!
# Coastlines do not depend on how the file is cut

The reader yields the features of the whole text, whatever its chunks.
-/
namespace Ais

namespace Gml

open Js Loop Delimited
open Cpp (Double)

/-- The two tags of a feature. -/
def tags : Tags UInt16 where
  mark := 60
  openRest := units "app:Kystkontur "
  closeRest := units "/app:Kystkontur>"
  mark_once := by decide
  longer := by decide

theorem openTag_eq : openTag = tags.opening := by decide

theorem closeTag_eq : closeTag = tags.closing := by decide

section Reading

variable (nearest : ℚ → Double)

/-- What is yielded for features in this order, and whether one of them is malformed: then nothing
after it counts. -/
def deliver : List Text → List (List Double) × Bool
  | [] => ([], false)
  | feature :: features =>
    match readFeature nearest feature with
    | .skipped => deliver features
    | .malformed => ([], true)
    | .numbers numbers => (numbers :: (deliver features).1, (deliver features).2)

/-- Features that come later count if no earlier one is malformed. -/
theorem deliver_append (features more : List Text) :
    deliver nearest (features ++ more) =
      if (deliver nearest features).2 then deliver nearest features
      else ((deliver nearest features).1 ++ (deliver nearest more).1, (deliver nearest more).2) := by
  induction features with
  | nil => rfl
  | cons feature features ih =>
    rw [List.cons_append, deliver, deliver]
    cases readFeature nearest feature with
    | skipped => exact ih
    | malformed => rfl
    | numbers numbers =>
      simp only [ih]
      split
      · rfl
      · rfl

/-! ### A chunk -/

/-- What the scan of a text from a position on comes to. -/
structure Reads (nearest : ℚ → Double) (pending : Text) (s : Scan) (scanned : Scanned) : Prop where
  yielded : scanned.yielded =
    s.yielded ++ (deliver nearest (tags.features (pending.drop s.position))).1
  malformed : scanned.malformed = (deliver nearest (tags.features (pending.drop s.position))).2
  -- where the scan ends the next feature opens, if one does
  ends : scanned.malformed = false → keepFrom pending scanned.position =
    match first tags.opening (tags.remainder (pending.drop s.position)) with
    | some start => (tags.remainder (pending.drop s.position)).drop start
    | none => pending.drop (pending.length - tags.opening.length)

/-- Without a complete feature ahead, the scan stops where one opens, or where it is. -/
private theorem scan_unfinished {pending : Text} {s : Scan}
    (unfinished : tags.next (pending.drop s.position) = none) :
    Reads nearest pending s (scan nearest pending s) := by
  have nothing : deliver nearest (tags.features (pending.drop s.position)) = ([], false) := by
    rw [Tags.features_of_none unfinished]
    rfl
  cases opens : first tags.opening (pending.drop s.position) with
  -- no feature opens, and the end of the text is kept
  | none =>
    have missing : indexOf pending openTag s.position = none := by
      rw [indexOf_eq_none_iff, openTag_eq, opens]
    have turn : scanTurn nearest pending s = .leave { s with malformed := false } := by
      rw [scanTurn, missing]
    rw [scan, run_leave _ turn]
    refine ⟨by rw [nothing, List.append_nil], by rw [nothing], fun _ => ?_⟩
    rw [Tags.remainder_of_none unfinished, opens]
    simp only [keepFrom, missing, sliceLast]
    rw [openTag_eq]
  -- one opens and does not close: it is kept from its opening tag on
  | some start =>
    have open_here : indexOf pending openTag s.position = some (s.position + start) := by
      rw [indexOf, openTag_eq, opens, Option.map_some]
    have never_closed : indexOf pending closeTag (s.position + start) = none := by
      rw [Tags.next, opens] at unfinished
      rw [indexOf_eq_none_iff, closeTag_eq, ← List.drop_drop]
      cases closes : first tags.closing ((pending.drop s.position).drop start) with
      | none => rfl
      | some size => simp only [closes, reduceCtorEq] at unfinished
    have turn : scanTurn nearest pending s =
        .leave { s with position := s.position + start, malformed := false } := by
      simp only [scanTurn, open_here, never_closed]
    rw [scan, run_leave _ turn]
    refine ⟨by rw [nothing, List.append_nil], by rw [nothing], fun _ => ?_⟩
    -- the search that decides what to keep finds the same opening tag again
    have again : indexOf pending openTag (s.position + start) = some (s.position + start) := by
      have occurs := (first_eq_some_iff.mp opens).2.1
      rw [OccursAt, List.drop_drop] at occurs
      exact indexOf_eq_some_iff.mpr ⟨0, first_eq_some_iff.mpr ⟨Nat.zero_le _, openTag_eq ▸ occurs,
        fun j before => absurd before (Nat.not_lt_zero j)⟩, rfl⟩
    simp only [Tags.remainder_of_none unfinished, opens, keepFrom, again, List.drop_drop]

/-- The turn for a complete feature ahead: it is read, and the scan goes on behind it. -/
private theorem scanTurn_found {pending : Text} {s : Scan} {feature after : Text}
    (found : tags.next (pending.drop s.position) = some (feature, after)) :
    ∃ position, pending.drop position = after ∧ scanTurn nearest pending s =
      match readFeature nearest feature with
      | .skipped => .again { s with position := position }
      | .malformed => .leave { s with position := position, malformed := true }
      | .numbers numbers => .again ⟨position, s.yielded ++ [numbers]⟩ := by
  obtain ⟨start, size, opens, closes, rfl, rfl⟩ := Tags.next_eq_some_iff.mp found
  have open_here : indexOf pending openTag s.position = some (s.position + start) := by
    rw [indexOf, openTag_eq, opens, Option.map_some]
  have close_here : indexOf pending closeTag (s.position + start) = some (s.position + start + size) := by
    rw [indexOf, closeTag_eq, ← List.drop_drop, closes, Option.map_some]
  have body : slice pending (s.position + start) (s.position + start + size) =
      ((pending.drop s.position).drop start).take size := by
    rw [slice, List.drop_take, List.drop_drop, Nat.add_sub_cancel_left]
  refine ⟨s.position + start + size + closeTag.length, ?_, ?_⟩
  · rw [List.drop_drop, closeTag_eq]
    simp only [Nat.add_assoc]
  · cases read : readFeature nearest (((pending.drop s.position).drop start).take size) with
    | skipped => simp only [scanTurn, open_here, close_here, body, read]
    | malformed => simp only [scanTurn, open_here, close_here, body, read]
    | numbers numbers => simp only [scanTurn, open_here, close_here, body, read]

/-- What the scan comes to behind a complete feature, it comes to before it. -/
private theorem Reads.of_next {pending : Text} {s next : Scan} {feature after : Text}
    (reads : Reads nearest pending next (scan nearest pending next))
    (found : tags.next (pending.drop s.position) = some (feature, after))
    (behind : pending.drop next.position = after) (turn : scanTurn nearest pending s = .again next)
    (yielded : s.yielded ++ (deliver nearest (feature :: tags.features after)).1 =
      next.yielded ++ (deliver nearest (tags.features after)).1)
    (malformed : (deliver nearest (feature :: tags.features after)).2 =
      (deliver nearest (tags.features after)).2) :
    Reads nearest pending s (scan nearest pending s) := by
  subst behind
  have same : scan nearest pending s = scan nearest pending next := by
    rw [scan, run_again _ turn]
    rfl
  rw [same]
  refine ⟨?_, ?_, ?_⟩
  · rw [Tags.features_of_some found, yielded]
    exact reads.yielded
  · rw [Tags.features_of_some found, malformed]
    exact reads.malformed
  · rw [Tags.remainder_of_some found]
    exact reads.ends

theorem scan_reads (pending : Text) (s : Scan) : Reads nearest pending s (scan nearest pending s) := by
  generalize rest_eq : pending.drop s.position = rest
  induction rest using Tags.text_induction tags generalizing s with
  | unfinished rest unfinished =>
    subst rest_eq
    exact scan_unfinished nearest unfinished
  | finished rest feature after found ih =>
    subst rest_eq
    obtain ⟨position, behind, turn⟩ := scanTurn_found nearest found
    cases read : readFeature nearest feature with
    | skipped =>
      simp only [read] at turn
      apply (ih { s with position := position } behind).of_next nearest found behind turn
      · simp only [deliver, read]
      · simp only [deliver, read]
    -- nothing behind a malformed feature is delivered
    | malformed =>
      simp only [read] at turn
      rw [scan, run_leave _ turn]
      refine ⟨?_, ?_, fun wellFormed => absurd wellFormed (by simp)⟩
      · simp only [Tags.features_of_some found, deliver, read, List.append_nil]
      · simp only [Tags.features_of_some found, deliver, read]
    | numbers numbers =>
      simp only [read] at turn
      apply (ih ⟨position, s.yielded ++ [numbers]⟩ behind).of_next nearest found behind turn
      · simp only [deliver, read, List.append_assoc, List.singleton_append]
      · simp only [deliver, read]

/-- The scan of a pending text delivers its features and keeps what it should. -/
theorem scan_pending (pending : Text) :
    ((scan nearest pending ⟨0, []⟩).yielded, (scan nearest pending ⟨0, []⟩).malformed) =
        deliver nearest (tags.features pending) ∧
      ((scan nearest pending ⟨0, []⟩).malformed = false →
        keepFrom pending (scan nearest pending ⟨0, []⟩).position = tags.keep pending) := by
  obtain ⟨yielded, malformed, ends⟩ := scan_reads nearest pending ⟨0, []⟩
  simp only [List.drop_zero, List.nil_append] at yielded malformed ends
  exact ⟨by rw [yielded, malformed], ends⟩

end Reading

/-! ### The file -/

/-- The error for a malformed feature. -/
def malformedError (path : String) (malformed : Bool) : Option String :=
  if malformed then some ("malformed posList in a Kystkontur feature in " ++ path) else none

/-- The reader delivers the features of what is pending and what comes. -/
theorem readChunks_eq (nearest : ℚ → Double) (path : String) (pending : Text) (chunks : List Text)
    (nothing : tags.features pending = []) :
    readChunks nearest path pending chunks =
      ⟨(deliver nearest (tags.features (pending ++ chunks.flatten))).1,
        malformedError path (deliver nearest (tags.features (pending ++ chunks.flatten))).2⟩ := by
  induction chunks generalizing pending with
  | nil =>
    rw [List.flatten_nil, List.append_nil, nothing]
    rfl
  | cons chunk chunks ih =>
    obtain ⟨delivered, kept⟩ := scan_pending nearest (pending ++ chunk)
    rw [List.flatten_cons, ← List.append_assoc, Tags.features_chunk, deliver_append, ← delivered]
    rw [readChunks]
    simp only
    cases threw : (scan nearest (pending ++ chunk) ⟨0, []⟩).malformed with
    -- an error ends the file: the chunks that follow do not count
    | true => simp [malformedError]
    | false =>
      simp only [Bool.false_eq_true, if_false]
      rw [kept threw, ih _ (Tags.features_keep_nil _)]

/-- The reader yields the same lists of numbers, and throws in the same place, as for the whole file
in one chunk. -/
theorem coastlines_chunks (nearest : ℚ → Double) (path : String) (chunks : List Text) :
    coastlines nearest path chunks = coastlines nearest path [chunks.flatten] := by
  have nothing : tags.features ([] : Text) = [] := Tags.features_of_none rfl
  rw [coastlines, coastlines, readChunks_eq _ _ _ _ nothing, readChunks_eq _ _ _ _ nothing,
    List.flatten_singleton]

end Gml

end Ais
