import AisPipeline.Properties.LatestPositions
import AisPipeline.Properties.PositionRoundTrip

/-!
# How far off a decoded position can be

The decoders leave out a value that is "not available" and pass every other one
on. Which raw values are physically possible, and what the others do to the
tables.
-/
namespace Ais

open Cpp BitString SqliteWriter Transition

/-! ### The raw fields -/

/-- The navigation fields of a position message as transmitted. -/
structure RawNavigation where
  longitude : Int
  latitude : Int
  cog : Nat
  trueHeading : Nat

/-- The fields of types 1, 2 and 3. -/
def classANavigation (payload : Payload) : RawNavigation where
  longitude := (payload.intAt 61 28).toInt
  latitude := (payload.intAt 89 27).toInt
  cog := (payload.uintAt 116 12).toNat
  trueHeading := (payload.uintAt 128 9).toNat

/-- The fields of type 18. -/
def classBNavigation (payload : Payload) : RawNavigation where
  longitude := (payload.intAt 57 28).toInt
  latitude := (payload.intAt 85 27).toInt
  cog := (payload.uintAt 112 12).toNat
  trueHeading := (payload.uintAt 124 9).toNat

/-- Every field is "not available" or stands for a value in its range. -/
structure RawNavigation.Possible (raw : RawNavigation) : Prop where
  latitude : raw.latitude = 54600000 ∨ -54000000 ≤ raw.latitude ∧ raw.latitude ≤ 54000000
  longitude : raw.longitude = 108600000 ∨ -108000000 ≤ raw.longitude ∧ raw.longitude ≤ 108000000
  cog : raw.cog = 3600 ∨ raw.cog < 3600
  trueHeading : raw.trueHeading = 511 ∨ raw.trueHeading ≤ 359

/-- What the widths of the fields allow. -/
structure RawNavigation.Fits (raw : RawNavigation) : Prop where
  latitude : -2 ^ 26 ≤ raw.latitude ∧ raw.latitude < 2 ^ 26
  longitude : -2 ^ 27 ≤ raw.longitude ∧ raw.longitude < 2 ^ 27
  cog : raw.cog < 2 ^ 12
  trueHeading : raw.trueHeading < 2 ^ 9

private theorem intAt_bounds {payload : Payload} {start : Nat} (half : Nat)
    (inside : start + (half + 1) ≤ payload.bitCount) (narrow : half + 1 ≤ 64) :
    -2 ^ half ≤ (payload.intAt start (half + 1)).toInt ∧
      (payload.intAt start (half + 1)).toInt < 2 ^ half := by
  rw [payload.intAt_toInt inside narrow]
  exact signedValue_bounds (length_window inside)

theorem classANavigation_fits {payload : Payload} (long : 168 ≤ payload.bitCount) :
    (classANavigation payload).Fits where
  latitude := intAt_bounds 26 (by omega) (by omega)
  longitude := intAt_bounds 27 (by omega) (by omega)
  cog := payload.uintAt_lt (by omega)
  trueHeading := payload.uintAt_lt (by omega)

theorem classBNavigation_fits {payload : Payload} (long : 168 ≤ payload.bitCount) :
    (classBNavigation payload).Fits where
  latitude := intAt_bounds 26 (by omega) (by omega)
  longitude := intAt_bounds 27 (by omega) (by omega)
  cog := payload.uintAt_lt (by omega)
  trueHeading := payload.uintAt_lt (by omega)

/-! ### Values in their range -/

/-- What is present of a position and its course is physically possible. -/
structure InRange (latitude longitude cog trueHeading : Option ℚ) : Prop where
  latitude : ∀ degrees ∈ latitude, -90 ≤ degrees ∧ degrees ≤ 90
  longitude : ∀ degrees ∈ longitude, -180 ≤ degrees ∧ degrees ≤ 180
  cog : ∀ degrees ∈ cog, 0 ≤ degrees ∧ degrees < 360
  trueHeading : ∀ degrees ∈ trueHeading, 0 ≤ degrees ∧ degrees ≤ 359

def PositionReport.Possible (report : PositionReport) : Prop :=
  InRange report.latitude report.longitude report.cog
    (report.trueHeading.map fun heading => (heading.toInt : ℚ))

def PositionColumns.Possible (columns : PositionColumns) : Prop :=
  InRange columns.latitude columns.longitude columns.cog columns.trueHeading

/-- Every position that is kept is physically possible. -/
structure Database.Possible (db : Database) : Prop where
  positionReports : ∀ row ∈ db.positionReports.rows, row.Possible
  latestPositions : ∀ row ∈ db.latestPositions.rows, row.Possible

theorem Database.possible_empty : Database.empty.Possible where
  positionReports := fun _ member => absurd member List.not_mem_nil
  latestPositions := fun _ member => absurd member List.not_mem_nil

theorem possible_reportRow {report : PositionReport} {receivedAt : Int} :
    (reportRow report receivedAt).Possible ↔ report.Possible :=
  Iff.rfl

/-! ### What a report shows -/

/-- The report gives every field as transmitted, unless it is "not available". -/
structure PositionReport.Shows (report : PositionReport) (raw : RawNavigation) : Prop where
  latitude : report.latitude =
    if raw.latitude = 54600000 then none else some ((raw.latitude : ℚ) / 600000)
  longitude : report.longitude =
    if raw.longitude = 108600000 then none else some ((raw.longitude : ℚ) / 600000)
  cog : report.cog = if raw.cog = 3600 then none else some ((raw.cog : ℚ) / 10)
  trueHeading : (report.trueHeading.map fun heading => heading.toInt) =
    if raw.trueHeading = 511 then none else some (raw.trueHeading : Int)

private theorem reported_int {raw notAvailable : Int64} (scale : ℚ) :
    reported raw notAvailable ((raw.toInt : ℚ) / scale) =
      if raw.toInt = notAvailable.toInt then none else some ((raw.toInt : ℚ) / scale) := by
  simp only [reported, ne_eq, ← Int64.toInt_inj, ite_not]

private theorem reported_nat {raw notAvailable : UInt64} (scale : ℚ) :
    reported raw notAvailable ((raw.toNat : ℚ) / scale) =
      if raw.toNat = notAvailable.toNat then none else some ((raw.toNat : ℚ) / scale) := by
  simp only [reported, ne_eq, ← UInt64.toNat_inj, ite_not]

/-- A heading of nine bits survives its conversion to `int`. -/
private theorem reported_heading {raw : UInt64} (narrow : raw.toNat < 2 ^ 9) :
    ((reported raw 511 raw.toUInt32.toInt32).map fun heading => heading.toInt) =
      if raw.toNat = 511 then none else some (raw.toNat : Int) := by
  have kept : raw.toUInt32.toInt32.toInt = raw.toNat := by
    change (BitVec.ofNat 32 raw.toNat).toInt = raw.toNat
    have small : (BitVec.ofNat 32 raw.toNat).toNat = raw.toNat := by
      rw [BitVec.toNat_ofNat]
      omega
    rw [BitVec.toInt_eq_toNat_of_lt (by omega), small]
  simp only [reported, ne_eq, ← UInt64.toNat_inj, ite_not, UInt64.reduceToNat]
  split
  · rfl
  · rw [Option.map_some, kept]

theorem positionReportAt_shows (payload : Payload) :
    (positionReportAt payload).Shows (classANavigation payload) where
  latitude := reported_int 600000
  longitude := reported_int 600000
  cog := reported_nat 10
  trueHeading := reported_heading (payload.uintAt_lt (by omega))

theorem classBPositionReportAt_shows (payload : Payload) :
    (classBPositionReportAt payload).Shows (classBNavigation payload) where
  latitude := reported_int 600000
  longitude := reported_int 600000
  cog := reported_nat 10
  trueHeading := reported_heading (payload.uintAt_lt (by omega))

private theorem forall_mem_shown {absent : Prop} [Decidable absent] {value : ℚ} {P : ℚ → Prop} :
    (∀ shown ∈ (if absent then none else some value), P shown) ↔ absent ∨ P value := by
  split
  next missing => simp [missing]
  next present => simp [present]

private theorem scaled_between {raw low high : Int} {scale : ℚ} (positive : 0 < scale) :
    (low : ℚ) / scale ≤ raw / scale ∧ (raw : ℚ) / scale ≤ high / scale ↔ low ≤ raw ∧ raw ≤ high := by
  rw [div_le_div_iff_of_pos_right positive, div_le_div_iff_of_pos_right positive, Int.cast_le,
    Int.cast_le]

/-- A report is possible exactly if what was transmitted is. -/
theorem PositionReport.Shows.possible_iff {report : PositionReport} {raw : RawNavigation}
    (shown : report.Shows raw) : report.Possible ↔ raw.Possible := by
  have heading : (report.trueHeading.map fun heading => (heading.toInt : ℚ)) =
      if raw.trueHeading = 511 then none else some (raw.trueHeading : ℚ) := by
    have same := congrArg (Option.map fun degrees : Int => (degrees : ℚ)) shown.trueHeading
    rw [Option.map_map, Function.comp_def] at same
    rw [same]
    split
    · rfl
    · simp
  -- the legal raw values are the legal degrees times the scale
  have latitude : -90 ≤ (raw.latitude : ℚ) / 600000 ∧ (raw.latitude : ℚ) / 600000 ≤ 90 ↔
      -54000000 ≤ raw.latitude ∧ raw.latitude ≤ 54000000 := by
    rw [← scaled_between (by norm_num : (0 : ℚ) < 600000)]
    norm_num
  have longitude : -180 ≤ (raw.longitude : ℚ) / 600000 ∧ (raw.longitude : ℚ) / 600000 ≤ 180 ↔
      -108000000 ≤ raw.longitude ∧ raw.longitude ≤ 108000000 := by
    rw [← scaled_between (by norm_num : (0 : ℚ) < 600000)]
    norm_num
  have cog : 0 ≤ (raw.cog : ℚ) / 10 ∧ (raw.cog : ℚ) / 10 < 360 ↔ raw.cog < 3600 := by
    rw [div_lt_iff₀ (by norm_num)]
    constructor
    · rintro ⟨-, below⟩
      exact_mod_cast (by linarith : (raw.cog : ℚ) < 3600)
    · intro below
      have cast : (raw.cog : ℚ) < 3600 := by exact_mod_cast below
      exact ⟨by positivity, by linarith⟩
  have degrees : 0 ≤ (raw.trueHeading : ℚ) ∧ (raw.trueHeading : ℚ) ≤ 359 ↔ raw.trueHeading ≤ 359 := by
    constructor
    · rintro ⟨-, below⟩
      exact_mod_cast below
    · intro below
      exact ⟨by positivity, by exact_mod_cast below⟩
  rw [Possible, shown.latitude, shown.longitude, shown.cog, heading]
  constructor
  · rintro ⟨at_latitude, at_longitude, at_cog, at_heading⟩
    rw [forall_mem_shown] at at_latitude at_longitude at_cog at_heading
    exact ⟨at_latitude.imp_right latitude.mp, at_longitude.imp_right longitude.mp,
      at_cog.imp_right cog.mp, at_heading.imp_right degrees.mp⟩
  · rintro ⟨at_latitude, at_longitude, at_cog, at_heading⟩
    refine ⟨?_, ?_, ?_, ?_⟩
    · exact forall_mem_shown.mpr (at_latitude.imp_right latitude.mpr)
    · exact forall_mem_shown.mpr (at_longitude.imp_right longitude.mpr)
    · exact forall_mem_shown.mpr (at_cog.imp_right cog.mpr)
    · exact forall_mem_shown.mpr (at_heading.imp_right degrees.mpr)

/-! ### What is stored -/

/-- The trigger puts nothing but the new report into the table. -/
theorem mem_afterInsert {table : LatestPositions} {new : PositionRow} {row : LatestRow}
    (member : row ∈ (table.afterInsert new).rows) :
    row ∈ table.rows ∨ row.toPositionColumns = new.toPositionColumns := by
  have found : (table.afterInsert new).row? row.mmsi = some row :=
    KeyedTable.row?_eq_some_iff.mpr ⟨member, rfl⟩
  have kept : table.row? row.mmsi = some row → row ∈ table.rows := fun old =>
    (KeyedTable.row?_eq_some_iff.mp old).1
  have taken : new.latest? = some row → row.toPositionColumns = new.toPositionColumns := fun shown =>
    (PositionRow.latest?_eq_some_iff.mp shown).2
  rw [afterInsert_row?] at found
  split at found
  next positioned =>
    split at found
    next nothing => exact .inr (taken found)
    next old at_old =>
      split at found
      next newer => exact .inr (taken found)
      next older => exact .inl (kept (at_old.trans found))
  next bare => exact .inl (kept found)

/-- An insert keeps every position possible exactly if the new one is. -/
theorem Database.Possible.insert_iff {db : Database} {report : PositionReport} {receivedAt : Int}
    (possible : db.Possible) : (SqliteWriter.insert db report receivedAt).Possible ↔ report.Possible := by
  constructor
  · intro later
    apply later.positionReports (reportRow report receivedAt)
    rw [SqliteWriter.insert, Database.insertReport, PositionReports.rows_insert]
    exact List.mem_append_right _ (List.mem_singleton_self _)
  · intro shown
    constructor
    · intro row member
      rw [SqliteWriter.insert, Database.insertReport, PositionReports.rows_insert] at member
      rcases List.mem_append.mp member with old | new
      · exact possible.positionReports row old
      · rw [List.mem_singleton.mp new]
        exact possible_reportRow.mpr shown
    · intro row member
      rcases mem_afterInsert member with old | same
      · exact possible.latestPositions row old
      · rw [same]
        exact shown

/-! ### Every run -/

/-- No table of the file holds an impossible position. -/
structure DatabaseFile.Possible (file : DatabaseFile) : Prop where
  positionReports : ∀ row ∈ (file.positionReports.getD .empty).rows, row.Possible
  latestPositions : ∀ row ∈ (file.latestPositions.getD .empty).rows, row.Possible

theorem DatabaseFile.Possible.opened {file : DatabaseFile} {db : Database}
    (possible : file.Possible) (opened : openDatabase file = some db) : db.Possible := by
  simp only [openDatabase] at opened
  split at opened
  next nothing =>
    -- the backfill copies reports
    obtain ⟨latest, filled, same⟩ := Option.bind_eq_some_iff.mp opened
    cases same
    rw [KeyedTable.insertAll, Option.dite_none_right_eq_some] at filled
    obtain ⟨distinct, filled⟩ := filled
    cases filled
    refine ⟨possible.positionReports, fun row member => ?_⟩
    rcases List.mem_append.mp member with old | selected
    · exact possible.latestPositions row old
    · rw [PositionReports.backfill, List.mem_filterMap] at selected
      obtain ⟨report, held, shown⟩ := selected
      rw [Option.ite_none_right_eq_some, PositionRow.latest?_eq_some_iff] at shown
      rw [shown.2.2]
      exact possible.positionReports report.row (List.mem_map_of_mem held)
  next some_left =>
    cases opened
    exact ⟨possible.positionReports, possible.latestPositions⟩

/-- What a session keeps, as long as nothing impossible is written. -/
def SqliteWriter.Session.Possible : Session → Prop
  | .untouched file => file.Possible
  | .live db transaction => db.Possible ∧ ∀ working ∈ transaction, working.Possible

/-- A written report that gives a position is possible. -/
def SqliteWriter.Event.WritesPossible : Event → Prop
  | .wrote (.positionReport report) _ => report.Possible
  | _ => True

theorem Database.Possible.write {db : Database} {message : AisMessage} {receivedAt : Int}
    (possible : db.Possible) (written : (Event.wrote message receivedAt).WritesPossible) :
    (write db message receivedAt).Possible := by
  cases message with
  | positionReport report => exact possible.insert_iff.mpr written
  | staticVoyageData data => exact ⟨possible.positionReports, possible.latestPositions⟩
  | staticDataPartA data => exact ⟨possible.positionReports, possible.latestPositions⟩
  | staticDataPartB data => exact ⟨possible.positionReports, possible.latestPositions⟩

theorem step_possible {s t : Session} {event : Event} (possible : s.Possible)
    (writes : event.WritesPossible) (step : Step s event t) : t.Possible := by
  cases step with
  | opens s db opened =>
    refine ⟨?_, by simp⟩
    cases s with
    | untouched file => exact possible.opened opened
    | live old transaction =>
      have found : old.file.Possible := ⟨possible.1.positionReports, possible.1.latestPositions⟩
      exact found.opened opened
  | begins db => exact ⟨possible.1, by simpa using possible.1⟩
  | writes db working message receivedAt =>
    have written := (possible.2 working rfl).write writes
    exact ⟨possible.1, by simpa using written⟩
  | commits db working => exact ⟨possible.2 working rfl, by simp⟩
  | rollsBack db working => exact ⟨possible.1, by simp⟩
  | prunes db cutoff reports total pruned =>
    exact ⟨⟨fun row member => possible.1.positionReports row (pruned.rows_sublist.subset member),
      possible.1.latestPositions⟩, by simp⟩

theorem run_possible {s t : Session} {trace : List Event} (possible : s.Possible)
    (writes : ∀ event ∈ trace, event.WritesPossible) (run : Run Step s trace t) : t.Possible := by
  induction trace generalizing s with
  | nil => exact run ▸ possible
  | cons event trace ih =>
    obtain ⟨middle, step, rest⟩ := run
    have next := step_possible possible (writes event List.mem_cons_self) step
    exact ih next (fun later member => writes later (List.mem_cons_of_mem event member)) rest

/-! ### What the decoders let through -/

/-- A decoded value is the raw one scaled, and only "not available" is left out. So all four values
are possible exactly if every raw field is, and impossible ones reach the tables by an insert of
such a report and in no other way. -/
theorem navigation_ranges :
    (∀ payload report, decodePositionReport payload = .ok (some report) →
      report.Shows (classANavigation payload) ∧ (classANavigation payload).Fits ∧
        (report.Possible ↔ (classANavigation payload).Possible)) ∧
    (∀ payload report, decodeClassBPositionReport payload = .ok (some report) →
      report.Shows (classBNavigation payload) ∧ (classBNavigation payload).Fits ∧
        (report.Possible ↔ (classBNavigation payload).Possible)) ∧
    (∀ (db : Database) report receivedAt, db.Possible →
      ((SqliteWriter.insert db report receivedAt).Possible ↔ report.Possible)) ∧
    ∀ (file : DatabaseFile) trace db transaction, file.Possible →
      (∀ event ∈ trace, event.WritesPossible) →
      Run SqliteWriter.Step (.untouched file) trace (.live db transaction) → db.Possible := by
  refine ⟨?_, ?_, fun db report receivedAt possible => possible.insert_iff, ?_⟩
  · intro payload report decoded
    rw [decodePositionReport_eq, Except.ok.injEq, Option.ite_none_left_eq_some] at decoded
    obtain ⟨accepted, returned⟩ := decoded
    cases returned
    have shown := positionReportAt_shows payload
    exact ⟨shown, classANavigation_fits (by omega), shown.possible_iff⟩
  · intro payload report decoded
    rw [decodeClassBPositionReport_eq, Except.ok.injEq, Option.ite_none_left_eq_some] at decoded
    obtain ⟨accepted, returned⟩ := decoded
    cases returned
    have shown := classBPositionReportAt_shows payload
    exact ⟨shown, classBNavigation_fits (by omega), shown.possible_iff⟩
  · intro file trace db transaction possible writes run
    have start : (Session.untouched file).Possible := possible
    exact (run_possible start writes run).1

/-- A report of 95 degrees north, 200 degrees east, course 390 and heading 400. -/
def beyondThePole : ClassAFields where
  messageType := 1
  position := .inl rfl
  repeatIndicator := 0
  mmsi := 257000001
  navStatus := 0
  rateOfTurn := 0
  sog := 100
  positionAccuracy := 0
  longitude := 120000000
  latitude := 57000000
  cog := 3900
  trueHeading := 400
  timestamp := 0
  maneuverIndicator := 0
  spare := 0
  raim := 0
  radioStatus := 0

private theorem decode_beyondThePole :
    decodePositionReport ⟨beyondThePole.pack []⟩ = .ok (some beyondThePole.report) := by
  have accepted : ¬ (Payload.bitCount ⟨beyondThePole.pack []⟩ < 168 ∨
      Payload.uintAt ⟨beyondThePole.pack []⟩ 0 6 < 1 ∨ Payload.uintAt ⟨beyondThePole.pack []⟩ 0 6 > 3) := by
    decide +kernel
  rw [decodePositionReport_eq, if_neg accepted, ClassAFields.positionReportAt_pack]

private theorem beyondThePole_impossible : ¬ beyondThePole.report.Possible := by
  intro possible
  have latitude : beyondThePole.report.latitude = some 95 := by decide +kernel
  have below := (possible.latitude 95 latitude).2
  norm_num at below

/-- It is decoded and stored as it is. -/
theorem beyondThePole_decoded :
    decodePositionReport ⟨beyondThePole.pack []⟩ = .ok (some beyondThePole.report) ∧
    beyondThePole.report.latitude = some 95 ∧ beyondThePole.report.longitude = some 200 ∧
    beyondThePole.report.cog = some 390 ∧ beyondThePole.report.trueHeading = some 400 ∧
    ¬ (SqliteWriter.insert .empty beyondThePole.report 0).Possible ∧
    ¬ ∀ payload report, decodePositionReport payload = .ok (some report) → report.Possible := by
  exact ⟨decode_beyondThePole, by decide +kernel, by decide +kernel, by decide +kernel,
    by decide +kernel,
    fun stored => beyondThePole_impossible (Database.possible_empty.insert_iff.mp stored),
    fun all => beyondThePole_impossible (all _ _ decode_beyondThePole)⟩

/-- Off the coast of Norway, on a heading not available. -/
def offBergen : PositionReport where
  mmsi := 257000001
  latitude := some 60
  longitude := some 5
  cog := some 0

/-- The fields of `beyondThePole` are impossible; a writer that is given `offBergen` stores nothing
impossible. -/
theorem navigation_ranges_offBergen :
    ¬ (classANavigation ⟨beyondThePole.pack []⟩).Possible ∧
    ∃ db, Run SqliteWriter.Step (.untouched {})
        [.opened, .began, .wrote (.positionReport offBergen) 0, .committed] (.live db none) ∧
      db.positionReports.rows = [reportRow offBergen 0] ∧ db.Possible := by
  obtain ⟨classA, -, -, runs⟩ := navigation_ranges
  constructor
  · intro possible
    exact beyondThePole_impossible ((classA _ _ decode_beyondThePole).2.2.mpr possible)
  · have run : Run SqliteWriter.Step (.untouched {})
        [.opened, .began, .wrote (.positionReport offBergen) 0, .committed]
        (.live (SqliteWriter.insert .empty offBergen 0) none) :=
      ⟨_, .opens _ _ rfl, _, .begins _, _, .writes _ _ _ _, _, .commits _ _, rfl⟩
    have empty : DatabaseFile.Possible {} :=
      ⟨Database.possible_empty.positionReports, Database.possible_empty.latestPositions⟩
    have possible : offBergen.Possible := by
      constructor <;> intro degrees shown <;> cases shown <;> norm_num
    refine ⟨_, run, rfl, runs _ _ _ _ empty ?_ run⟩
    simpa [Event.WritesPossible] using possible

end Ais
