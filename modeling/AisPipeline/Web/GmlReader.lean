import AisPipeline.Js.Text
import AisPipeline.Lib.Loop

/-!
# Reading coastlines out of a GML file

The build script takes the file as a stream of chunks and yields the numbers of
each coastline feature. What the file's bytes mean as text is left to the
stream.
-/
namespace Ais

namespace Gml

open Js Loop
open Cpp (Double)

def openTag : Text := units "<app:Kystkontur "

def closeTag : Text := units "</app:Kystkontur>"

/-! ### One feature -/

/-- A match of `<gml:posList[^>]*>([^<]*)<\/gml:posList>` at the start of the text: the group. -/
def posListAt (text : Text) : Option Text :=
  if units "<gml:posList" <+: text then
    match (cutAt (fun c => c = 62) (text.drop (units "<gml:posList").length)).2 with
    -- the tag is never closed
    | none => none
    | some content =>
      if units "</gml:posList>" <+: content.dropWhile (fun c => c ≠ 60) then
        some (content.takeWhile fun c => c ≠ 60)
      else none
  else none

/-- `exec` with that expression: its leftmost match. -/
def posList (feature : Text) : Option Text := feature.tails.findSome? posListAt

/-- What the body of a feature comes to. -/
inductive Feature where
  | skipped
  | numbers (numbers : List Double)
  | malformed

variable (nearest : ℚ → Double)

def readFeature (feature : Text) : Feature :=
  match posList feature with
  | none => .skipped
  | some list =>
    let numbers := (splitSpaces (trim list)).map (number nearest)
    if numbers.length < 4 ∨ numbers.length % 2 ≠ 0 ∨ Double.nan ∈ numbers then .malformed
    else .numbers numbers

/-! ### One chunk -/

/-- The variable `from`, and what was yielded in this chunk. -/
structure Scan where
  position : Nat
  yielded : List (List Double)

/-- Where the scan of a chunk ended, and whether it threw. -/
structure Scanned extends Scan where
  malformed : Bool

/-- One turn of `for (;;)`. -/
def scanTurn (pending : Text) (s : Scan) : Turn Scan Scanned :=
  match indexOf pending openTag s.position with
  | none => .leave { s with malformed := false }
  | some start =>
    match indexOf pending closeTag start with
    -- the feature continues in the next chunk
    | none => .leave { s with position := start, malformed := false }
    | some stop =>
      let position := stop + closeTag.length
      match readFeature nearest (slice pending start stop) with
      | .skipped => .again { s with position := position }
      | .malformed => .leave { s with position := position, malformed := true }
      | .numbers numbers => .again ⟨position, s.yielded ++ [numbers]⟩

/-- What is left of the text after a position. -/
def left (pending : Text) (s : Scan) : Nat := pending.length - s.position

theorem stop_le {pending : Text} {position start stop : Nat}
    (opens : indexOf pending openTag position = some start)
    (closes : indexOf pending closeTag start = some stop) :
    position ≤ start ∧ start ≤ stop ∧ stop + closeTag.length ≤ pending.length := by
  obtain ⟨k, -, rfl⟩ := indexOf_eq_some_iff.mp opens
  obtain ⟨size, found, rfl⟩ := indexOf_eq_some_iff.mp closes
  have ends := (Delimited.first_eq_some_iff.mp found).2.1.le (by decide)
  have positive : 0 < closeTag.length := by decide
  rw [List.length_drop] at ends
  omega

/-- Each turn goes on behind a closing tag. -/
theorem scanTurn_shrinks (pending : Text) : Shrinks (scanTurn nearest pending) (left pending) := by
  intro s next round
  rw [scanTurn] at round
  split at round
  · cases round
  next start opens =>
    split at round
    · cases round
    next stop closes =>
      have forward := stop_le opens closes
      have positive : 0 < closeTag.length := by decide
      simp only at round
      split at round
      · cases round
        simp only [left]
        omega
      · cases round
      · cases round
        simp only [left]
        omega

def scan (pending : Text) (s : Scan) : Scanned :=
  Loop.run (scanTurn nearest pending) (left pending) (scanTurn_shrinks nearest pending) s

/-- What is kept for the next chunk: an unfinished feature, or enough of the tail for an opening
tag. -/
def keepFrom (pending : Text) (position : Nat) : Text :=
  match indexOf pending openTag position with
  | some unfinished => pending.drop unfinished
  | none => sliceLast pending openTag.length

/-! ### The file -/

/-- What the generator yields, and the text of the error it throws, if any. -/
structure Output where
  yielded : List (List Double)
  error : Option String

def readChunks (path : String) (pending : Text) : List Text → Output
  | [] => ⟨[], none⟩
  | chunk :: chunks =>
    let pending := pending ++ chunk
    let scanned := scan nearest pending ⟨0, []⟩
    if scanned.malformed then
      ⟨scanned.yielded, some ("malformed posList in a Kystkontur feature in " ++ path)⟩
    else
      let rest := readChunks path (keepFrom pending scanned.position) chunks
      ⟨scanned.yielded ++ rest.yielded, rest.error⟩

/-- `coastlines`, on the chunks of a file. -/
def coastlines (path : String) (chunks : List Text) : Output := readChunks nearest path [] chunks

end Gml

end Ais
