import AisPipeline.Api.Server

/-!
# What the routes accept

The conversions read the number a text starts with, so a route accepts more than
numbers from end to end; and the MMSI of the history route keeps its low 32 bits
only. Exactly when either matters.
-/
namespace Ais.ApiServer

open Cpp OrderBy PositionReader

/-! ### The parameters -/

/-- The four parameters of an area request. -/
def areaTexts (req : Request) : List Bytes :=
  ["min_lat", "max_lat", "min_lon", "max_lon"].map req.getParamValue

/-- `number` is the double for a decimal number that is the whole text. -/
def Uses (nearest : ℚ → Option ℚ) (text : Bytes) (number : Double) : Prop :=
  ∃ value rounded, WholeDecimal text value ∧ nearest value = some rounded ∧ number = .finite rounded

/-- The query is made for four decimal numbers, and for these. -/
def UsesAll (nearest : ℚ → Option ℚ) (req : Request) (box : BoundingBox) : Prop :=
  Uses nearest (req.getParamValue "min_lat") box.minLat ∧
  Uses nearest (req.getParamValue "max_lat") box.maxLat ∧
  Uses nearest (req.getParamValue "min_lon") box.minLon ∧
  Uses nearest (req.getParamValue "max_lon") box.maxLon

theorem areaBox_eq_ok_iff {nearest : ℚ → Option ℚ} {req : Request} {box : BoundingBox} :
    areaBox nearest req = .ok box ↔
      stod nearest (req.getParamValue "min_lat") = .ok box.minLat ∧
      stod nearest (req.getParamValue "max_lat") = .ok box.maxLat ∧
      stod nearest (req.getParamValue "min_lon") = .ok box.minLon ∧
      stod nearest (req.getParamValue "max_lon") = .ok box.maxLon := by
  obtain ⟨minLat, maxLat, minLon, maxLon⟩ := box
  unfold areaBox
  cases stod nearest (req.getParamValue "min_lat") with
  | error _ => simp [bind, Except.bind]
  | ok _ =>
    cases stod nearest (req.getParamValue "max_lat") with
    | error _ => simp [bind, Except.bind]
    | ok _ =>
      cases stod nearest (req.getParamValue "min_lon") with
      | error _ => simp [bind, Except.bind]
      | ok _ =>
        cases stod nearest (req.getParamValue "max_lon") with
        | error _ => simp [bind, Except.bind]
        | ok _ => simp [bind, Except.bind, pure, Except.pure]

theorem area_eq_asks_iff {nearest : ℚ → Option ℚ} {req : Request} {box : BoundingBox} :
    area nearest req = .asks box ↔ areaBox nearest req = .ok box := by
  unfold area
  cases areaBox nearest req with
  | error _ => simp
  | ok _ => simp

theorem areaBox_refuses_iff {nearest : ℚ → Option ℚ} {req : Request} :
    (∃ e, areaBox nearest req = .error e) ↔ ∃ text ∈ areaTexts req, ∃ e, stod nearest text = .error e := by
  simp only [areaTexts, List.map_cons, List.map_nil, List.exists_mem_cons_iff, List.not_mem_nil, false_and,
    exists_false, or_false]
  unfold areaBox
  cases stod nearest (req.getParamValue "min_lat") with
  | error _ => simp [bind, Except.bind]
  | ok _ =>
    cases stod nearest (req.getParamValue "max_lat") with
    | error _ => simp [bind, Except.bind]
    | ok _ =>
      cases stod nearest (req.getParamValue "min_lon") with
      | error _ => simp [bind, Except.bind]
      | ok _ => cases stod nearest (req.getParamValue "max_lon") <;> simp [bind, Except.bind, pure, Except.pure]

/-- The answer is a 400 exactly if one of the four texts is refused, and else what `/positions` has in
the box. -/
theorem areaResponse_iff (nearest : ℚ → Option ℚ) (db : Database) (req : Request) :
    (∀ text, areaResponse nearest db req = .badRequest text ↔
      text = invalidParameters ∧ ∃ text ∈ areaTexts req, ∃ e, stod nearest text = .error e) ∧
    ∀ records, areaResponse nearest db req = .records records ↔
      ∃ box, areaBox nearest req = .ok box ∧ records = (latestPositions db).filter box.holds := by
  rw [← areaBox_refuses_iff, areaResponse, area]
  cases areaBox nearest req with
  | error e => exact ⟨fun text => by simp [eq_comm], fun records => by simp⟩
  | ok box => exact ⟨fun text => by simp, fun records => by simp [positionsInArea_eq, eq_comm]⟩

/-- Of a decimal number `stod` makes the double for it or nothing. -/
theorem uses_of_whole {nearest : ℚ → Option ℚ} {text : Bytes} {value : ℚ} {number : Double}
    (whole : WholeDecimal text value) (read : stod nearest text = .ok number) :
    Uses nearest text number := by
  rw [stod_of_whole whole] at read
  cases rounded : nearest value with
  | none => simp [rounded] at read
  | some double =>
    rw [rounded] at read
    exact ⟨value, double, whole, rounded, (Except.ok.inj read).symm⟩

theorem area_uses_iff {nearest : ℚ → Option ℚ} {req : Request} :
    (∀ box, area nearest req = .asks box → UsesAll nearest req box) ↔
      (∀ text ∈ areaTexts req, ∃ value, WholeDecimal text value) ∨
        ∃ text ∈ areaTexts req, ∃ e, stod nearest text = .error e := by
  simp only [area_eq_asks_iff, areaBox_eq_ok_iff, areaTexts, List.map_cons, List.map_nil,
    List.forall_mem_cons, List.not_mem_nil, false_imp_iff, implies_true, and_true]
  constructor
  · intro uses
    by_cases refused : ∃ text ∈ areaTexts req, ∃ e, stod nearest text = .error e
    · exact .inr refused
    -- every text is read, so the box is asked for
    · have read : ∀ text ∈ areaTexts req, ∃ number, stod nearest text = .ok number := by
        intro text member
        cases result : stod nearest text with
        | error e => exact absurd ⟨text, member, e, result⟩ refused
        | ok number => exact ⟨number, rfl⟩
      simp only [areaTexts, List.map_cons, List.map_nil, List.forall_mem_cons] at read
      obtain ⟨⟨minLat, at_minLat⟩, ⟨maxLat, at_maxLat⟩, ⟨minLon, at_minLon⟩, ⟨maxLon, at_maxLon⟩, -⟩ :=
        read
      obtain ⟨⟨_, _, one, -⟩, ⟨_, _, two, -⟩, ⟨_, _, three, -⟩, ⟨_, _, four, -⟩⟩ :=
        uses ⟨minLat, maxLat, minLon, maxLon⟩ ⟨at_minLat, at_maxLat, at_minLon, at_maxLon⟩
      exact .inl ⟨⟨_, one⟩, ⟨_, two⟩, ⟨_, three⟩, ⟨_, four⟩⟩
  · rintro (⟨⟨_, one⟩, ⟨_, two⟩, ⟨_, three⟩, ⟨_, four⟩⟩ | ⟨text, member, e, refused⟩) box
      ⟨at_minLat, at_maxLat, at_minLon, at_maxLon⟩
    · exact ⟨uses_of_whole one at_minLat, uses_of_whole two at_maxLat, uses_of_whole three at_minLon,
        uses_of_whole four at_maxLon⟩
    · simp only [List.mem_cons, List.not_mem_nil, or_false] at member
      rcases member with rfl | rfl | rfl | rfl
      · simp [at_minLat] at refused
      · simp [at_maxLat] at refused
      · simp [at_minLon] at refused
      · simp [at_maxLon] at refused

theorem stoi_of_whole {text : Bytes} {n : Int} (whole : WholeInteger text n) {limit : Int32}
    (read : stoi text = .ok limit) : limit.toInt = n := by
  rw [stoi, strtol_of_whole whole] at read
  split at read
  next none_read => cases none_read
  next m same =>
    obtain rfl := Option.some.inj same
    split at read
    next fits =>
      obtain rfl := Except.ok.inj read
      exact Int32.toInt_ofInt_of_le (by omega) (by omega)
    next => cases read

theorem history_eq_asks_iff {req : Request} {mmsi : UInt32} {limit : Int32} :
    history req = .asks (mmsi, limit) ↔
      (∃ number, stoul req.digits = .ok number ∧ mmsi = number.toUInt32) ∧
        limitOf req = .ok limit ∧ 1 ≤ limit.toInt ∧ limit.toInt ≤ 1000 := by
  have in_range : ∀ n : Int32, ¬ (n < 1 ∨ n > 1000) ↔ 1 ≤ n.toInt ∧ n.toInt ≤ 1000 := by
    intro n
    have one : (1 : Int32).toInt = 1 := rfl
    have thousand : (1000 : Int32).toInt = 1000 := rfl
    rw [Int32.lt_iff_toInt_lt, gt_iff_lt, Int32.lt_iff_toInt_lt, one, thousand]
    omega
  unfold history
  cases stoul req.digits with
  | error _ => simp [bind, Except.bind]
  | ok number =>
    cases limitOf req with
    | error _ => simp [bind, Except.bind]
    | ok n =>
      simp only [bind, Except.bind, pure, Except.pure]
      split
      next outside =>
        have refused := mt (in_range n).mpr (not_not.mpr outside)
        simp only [reduceCtorEq, Except.ok.injEq, false_iff, not_and]
        rintro - rfl
        exact not_and.mp refused
      next inside =>
        have accepted := (in_range n).mp inside
        simp only [Parsed.asks.injEq, Prod.mk.injEq, Except.ok.injEq, exists_eq_left']
        constructor
        · rintro ⟨rfl, rfl⟩
          exact ⟨rfl, rfl, accepted⟩
        · rintro ⟨rfl, rfl, -⟩
          exact ⟨rfl, rfl⟩

theorem limit_uses_iff {req : Request} (given : req.getParamValue "limit" ≠ []) :
    (∀ mmsi limit, history req = .asks (mmsi, limit) →
      ∃ n, WholeInteger (req.getParamValue "limit") n ∧ 1 ≤ n ∧ n ≤ 1000 ∧ limit.toInt = n) ↔
      (∃ n, WholeInteger (req.getParamValue "limit") n) ∨
        (∀ limit, stoi (req.getParamValue "limit") = .ok limit →
          ¬ (1 ≤ limit.toInt ∧ limit.toInt ≤ 1000)) ∨
          ∃ e, stoul req.digits = .error e := by
  have read : limitOf req = stoi (req.getParamValue "limit") := by
    rw [limitOf, if_neg given]
  simp only [history_eq_asks_iff, read]
  constructor
  · intro uses
    cases parsed_digits : stoul req.digits with
    | error e => exact .inr (.inr ⟨e, rfl⟩)
    | ok number =>
      by_cases accepted : ∃ limit, stoi (req.getParamValue "limit") = .ok limit ∧ 1 ≤ limit.toInt ∧
          limit.toInt ≤ 1000
      · obtain ⟨limit, parsed, range⟩ := accepted
        obtain ⟨n, whole, -⟩ := uses number.toUInt32 limit ⟨⟨number, parsed_digits, rfl⟩, parsed, range⟩
        exact .inl ⟨n, whole⟩
      · exact .inr (.inl fun limit parsed range => accepted ⟨limit, parsed, range⟩)
  · rintro (⟨n, whole⟩ | refused | ⟨e, failed⟩) mmsi limit ⟨⟨number, parsed, -⟩, at_limit, range⟩
    · have value := stoi_of_whole whole at_limit
      exact ⟨n, whole, by omega, by omega, value⟩
    · exact absurd range (refused limit at_limit)
    · rw [failed] at parsed
      cases parsed

/-- A query is made for whole numbers only, and for these, exactly if every parameter is a number
from end to end, or one of them is refused: it starts with no number, or with one out of range. -/
theorem bad_parameters_iff (nearest : ℚ → Option ℚ) (req : Request) :
    ((∀ box, area nearest req = .asks box → UsesAll nearest req box) ↔
      (∀ text ∈ areaTexts req, ∃ value, WholeDecimal text value) ∨
        ∃ text ∈ areaTexts req, ∃ e, stod nearest text = .error e) ∧
    (req.getParamValue "limit" ≠ [] →
      ((∀ mmsi limit, history req = .asks (mmsi, limit) →
        ∃ n, WholeInteger (req.getParamValue "limit") n ∧ 1 ≤ n ∧ n ≤ 1000 ∧ limit.toInt = n) ↔
      (∃ n, WholeInteger (req.getParamValue "limit") n) ∨
        (∀ limit, stoi (req.getParamValue "limit") = .ok limit →
          ¬ (1 ≤ limit.toInt ∧ limit.toInt ≤ 1000)) ∨
        ∃ e, stoul req.digits = .error e)) :=
  ⟨area_uses_iff, limit_uses_iff⟩

def bytes (text : String) : Bytes := text.toList.map Char.toUInt8

/-- Trailing text, infinity, a hexadecimal number and not a number. -/
def carelessRequest : Request where
  digits := bytes "257000001"
  params := [("min_lat", bytes "58x"), ("max_lat", bytes "inf"), ("min_lon", bytes "0x4"),
    ("max_lon", bytes "nan"), ("limit", bytes "10x")]

/-- All of them pass. -/
theorem carelessRequest_asks :
    area some carelessRequest = .asks ⟨.finite 58, .infinite false, .finite 4, .nan⟩ ∧
    (¬ ∃ value, WholeDecimal (carelessRequest.getParamValue "min_lat") value) ∧
    history carelessRequest = .asks (257000001, 10) ∧
    ¬ ∃ n, WholeInteger (carelessRequest.getParamValue "limit") n := by
  refine ⟨?_, ?_, ?_, ?_⟩
  · rw [area_eq_asks_iff, areaBox_eq_ok_iff]
    exact ⟨by decide +kernel, by decide +kernel, by decide +kernel, by decide +kernel⟩
  · rintro ⟨value, whole⟩
    exact (whole.plain 'x'.toUInt8 (by decide)).no_x (by decide)
  · rw [history_eq_asks_iff]
    exact ⟨⟨257000001, by decide +kernel, rfl⟩, by decide +kernel, by decide, by decide⟩
  · rintro ⟨n, whole⟩
    exact (whole.plain 'x'.toUInt8 (by decide)).no_x (by decide)

def carefulRequest : Request where
  digits := bytes "257000001"
  params := [("min_lat", bytes "58.5"), ("max_lat", bytes "58.5"), ("min_lon", bytes "58.5"),
    ("max_lon", bytes "58.5"), ("limit", bytes "25")]

theorem bad_parameters_iff_careful :
    (∀ box, area some carefulRequest = .asks box → UsesAll some carefulRequest box) ∧
    ∀ mmsi limit, history carefulRequest = .asks (mmsi, limit) →
      ∃ n, WholeInteger (carefulRequest.getParamValue "limit") n ∧ 1 ≤ n ∧ n ≤ 1000 ∧
        limit.toInt = n := by
  obtain ⟨area, limit⟩ := bad_parameters_iff some carefulRequest
  constructor
  · refine area.mpr (.inl fun text member => ⟨scaled 10 [5, 8] [5] 10 0, ?_⟩)
    have same : text = bytes "58.5" := by
      revert text
      decide
    rw [same]
    exact ⟨[], [], bytes "58.5", [], false, [5, 8], [5], 0, rfl, by simp, .none,
      .point (bytes "58") (bytes "5") [5, 8] [5] rfl rfl (by decide), .none, rfl⟩
  · exact (limit (by decide)).mpr (.inl ⟨25, [], [], bytes "25", false, [2, 5], rfl, by simp, .none, rfl,
      by decide, rfl⟩)

/-! ### The ship -/

/-- The row is stored for the ship whose MMSI is `number`; the writer binds an MMSI as an `int`. -/
def IsShip (number : Nat) (row : PositionRow) : Prop :=
  number < 2 ^ 32 ∧ row.mmsi = some (UInt32.ofNat number).toInt32.toInt

instance (number : Nat) (row : PositionRow) : Decidable (IsShip number row) :=
  inferInstanceAs (Decidable (_ ∧ _))

def rowsOf (db : Database) (number : Nat) : List StoredReport :=
  db.positionReports.stored.filter fun report => IsShip number report.row

/-- All records are of the ship, and they show as many of its rows as the limit lets through. -/
structure AnswersFor (db : Database) (number limit : Nat) (records : List PositionRecord) : Prop where
  own : ∀ record ∈ records, record.report.mmsi.toNat = number
  rows : ∃ picked : List StoredReport, picked.Subperm (rowsOf db number) ∧
    picked.length = min limit (rowsOf db number).length ∧ records = picked.map historyRecord

theorem rowsOf_eq {db : Database} {number : Nat} (fits : number < 2 ^ 32) :
    rowsOf db number = reportsOf db (UInt32.ofNat number) := by
  simp only [rowsOf, reportsOf, IsShip, fits, true_and]

theorem rowsOf_eq_nil {db : Database} {number : Nat} (wide : 2 ^ 32 ≤ number) :
    rowsOf db number = [] := by
  rw [rowsOf, List.filter_eq_nil_iff]
  intro report _ own
  have narrow := (of_decide_eq_true own).1
  omega

private theorem sqlLimit_positive {limit : Int32} (positive : 1 ≤ limit.toInt)
    (rows : List StoredReport) :
    sqlLimit limit rows = rows.take limit.toInt.toNat := by
  rw [sqlLimit, if_neg]
  rw [Int32.lt_iff_toInt_lt, Int32.toInt_zero]
  omega

/-- A record of the history of a ship shows its MMSI. -/
theorem historyRecord_mmsi {db : Database} {mmsi : UInt32} {report : StoredReport}
    (member : report ∈ reportsOf db mmsi) : (historyRecord report).report.mmsi = mmsi := by
  have own : report.row.mmsi = some mmsi.toInt32.toInt := by
    simpa using (List.mem_filter.mp member).2
  simp only [historyRecord, historyRow, readCurrentRow, own, columnInt_toInt]
  exact UInt32.toUInt32_toInt32 mmsi

theorem answersFor_of_fits {db : Database} {number : Nat} (fits : number < 2 ^ 32) {limit : Int32}
    (positive : 1 ≤ limit.toInt) {records : List PositionRecord}
    (answer : History db (UInt32.ofNat number) limit records) :
    AnswersFor db number limit.toInt.toNat records := by
  obtain ⟨ordered, held, rfl⟩ := answer
  rw [sqlLimit_positive positive]
  have picked := List.take_sublist limit.toInt.toNat ordered
  constructor
  · intro record member
    obtain ⟨report, first, rfl⟩ := List.mem_map.mp member
    rw [historyRecord_mmsi (held.perm.subset (picked.subset first)), UInt32.toNat_ofNat']
    omega
  · refine ⟨ordered.take limit.toInt.toNat, ?_, ?_, rfl⟩
    · rw [rowsOf_eq fits]
      exact picked.subperm.trans held.perm.subperm
    · rw [rowsOf_eq fits, List.length_take, held.perm.length_eq]

/-- The history route answers for the ship it was asked for, or with a 400, in all cases but one: the
number needs more than 32 and no more than 64 bits, the limit passes, and there are rows of the ship
its low 32 bits denote. -/
theorem history_ship_iff (db : Database) (req : Request) (values : List Nat)
    (path : Digits req.digits values) (some_digit : values ≠ []) :
    (∀ records, HistoryResponds db req (.records records) →
      ∃ limit, limitOf req = .ok limit ∧
        AnswersFor db (Numeral.value 10 values) limit.toInt.toNat records) ↔
    Numeral.value 10 values < 2 ^ 32 ∨ 2 ^ 64 ≤ Numeral.value 10 values ∨
      (∀ limit, limitOf req = .ok limit → ¬ (1 ≤ limit.toInt ∧ limit.toInt ≤ 1000)) ∨
      reportsOf db (UInt32.ofNat (Numeral.value 10 values)) = [] := by
  have parsed := stoul_of_digits path some_digit
  generalize Numeral.value 10 values = number at parsed ⊢
  simp only [HistoryResponds, history_eq_asks_iff, parsed]
  constructor
  · intro keeps
    by_contra wrong
    simp only [not_or, not_lt, not_le, not_forall, not_not] at wrong
    obtain ⟨wide, fits, ⟨limit, at_limit, range⟩, some_row⟩ := wrong
    -- the low 32 bits have rows, and the number has none
    obtain ⟨ordered, all⟩ : ∃ ordered, Descending (fun report : StoredReport => report.row.rank)
        (reportsOf db (UInt32.ofNat number)) ordered := ⟨_, descending_spec⟩
    obtain ⟨other, _, -, picked, sub, -, shown⟩ := keeps _ ⟨_, limit,
      ⟨⟨UInt64.ofNat number, if_pos fits, rfl⟩, at_limit, range⟩, _, by
        rw [UInt64.toUInt32_ofNat']
        exact all, rfl⟩
    rw [rowsOf_eq_nil wide, List.subperm_nil] at sub
    rw [sub, List.map_nil, List.map_eq_nil_iff, sqlLimit_positive range.1, List.take_eq_nil_iff] at shown
    rcases shown with none_asked | none_left
    · omega
    · have same := all.perm
      rw [none_left] at same
      exact some_row same.symm.eq_nil
  · rintro condition records ⟨mmsi, limit, ⟨⟨low, read, rfl⟩, at_limit, range⟩, answer⟩
    refine ⟨limit, at_limit, ?_⟩
    by_cases fits : number < 2 ^ 64
    · rw [if_pos fits] at read
      obtain rfl := Except.ok.inj read
      rw [UInt64.toUInt32_ofNat'] at answer
      rcases condition with narrow | wide | refused | no_row
      · exact answersFor_of_fits narrow range.1 answer
      · omega
      · exact absurd range (refused limit at_limit)
      · by_cases narrow : number < 2 ^ 32
        · exact answersFor_of_fits narrow range.1 answer
        · obtain ⟨ordered, held, rfl⟩ := answer
          rw [no_row] at held
          obtain rfl := held.perm.eq_nil
          have nothing : sqlLimit limit ([] : List StoredReport) = [] := by
            rw [sqlLimit_positive range.1, List.take_nil]
          rw [nothing]
          exact ⟨by simp, [], by simp [rowsOf_eq_nil (not_lt.mp narrow)]⟩
    · rw [if_neg fits] at read
      cases read

/-- One report of ship 1 and one of ship 3000000000, as the writer binds them. -/
def twoShips : Database :=
  (Database.empty.insertReport { mmsi := some 1, receivedAt := some 1000 }).insertReport
    { mmsi := some (-1294967296), receivedAt := some 1000 }

/-- Asked for ship 4294967297, of which there is none, the route answers with ship 1. -/
theorem history_answers_other_ship :
    ∃ record, HistoryResponds twoShips { digits := bytes "4294967297" } (.records [record]) ∧
      record.report.mmsi = 1 ∧
      ¬ ∃ limit, limitOf { digits := bytes "4294967297" } = .ok limit ∧
        AnswersFor twoShips 4294967297 limit.toInt.toNat [record] := by
  refine ⟨historyRecord ⟨1, { mmsi := some 1, receivedAt := some 1000 }⟩, ?_, rfl, ?_⟩
  · have asked : history { digits := bytes "4294967297" } = .asks (1, 50) :=
      history_eq_asks_iff.mpr ⟨⟨4294967297, by decide, by decide⟩, by decide, by decide, by decide⟩
    refine ⟨1, 50, asked,
      [⟨1, { mmsi := some 1, receivedAt := some 1000 }⟩], ⟨?_, List.pairwise_singleton _ _⟩, rfl⟩
    exact List.Perm.refl _
  · rintro ⟨limit, -, answers⟩
    have own := answers.own _ (List.mem_singleton_self _)
    revert own
    decide

/-- An MMSI that needs 32 bits wraps on its way in and back on its way out. -/
theorem history_ship_iff_wide :
    (rowsOf twoShips 3000000000).length = 1 ∧
    ∀ records, HistoryResponds twoShips { digits := bytes "3000000000" } (.records records) →
      ∃ limit, limitOf { digits := bytes "3000000000" } = .ok limit ∧
        AnswersFor twoShips 3000000000 limit.toInt.toNat records :=
  ⟨by decide, (history_ship_iff twoShips { digits := bytes "3000000000" }
    [3, 0, 0, 0, 0, 0, 0, 0, 0, 0] rfl (by decide)).mpr (.inl (by decide))⟩

end Ais.ApiServer
