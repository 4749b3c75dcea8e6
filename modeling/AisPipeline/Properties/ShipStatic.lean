import AisPipeline.Lib.Register
import AisPipeline.Properties.BatchAtomicity

/-!
# `ship_static`, column by column

The row of a ship is a register of partial writes: a type 5 message carries
every column, part A the name and part B the rest of what identifies the ship
and its size. All of them share one timestamp.
-/
namespace Ais

open Cpp

/-- The columns of `ship_static` besides its key and its timestamp. -/
inductive StaticColumn where
  | imo
  | callSign
  | name
  | shipType
  | toBow
  | toStern
  | toPort
  | toStarboard
  | etaMonth
  | etaDay
  | etaHour
  | etaMinute
  | draught
  | destination
  deriving DecidableEq, Repr

/-- What a column holds when it is not NULL. -/
abbrev StaticColumn.Value : StaticColumn → Type
  | .callSign | .name | .destination => Bytes
  | .draught => ℚ
  | .imo | .shipType | .toBow | .toStern | .toPort | .toStarboard | .etaMonth | .etaDay | .etaHour
  | .etaMinute => Int

def ShipStaticRow.column (row : ShipStaticRow) : (column : StaticColumn) → Option column.Value
  | .imo => row.imo
  | .callSign => row.callSign
  | .name => row.name
  | .shipType => row.shipType
  | .toBow => row.toBow
  | .toStern => row.toStern
  | .toPort => row.toPort
  | .toStarboard => row.toStarboard
  | .etaMonth => row.etaMonth
  | .etaDay => row.etaDay
  | .etaHour => row.etaHour
  | .etaMinute => row.etaMinute
  | .draught => row.draught
  | .destination => row.destination

namespace SqliteWriter

/-- The ship a static message is about. -/
def ship? : AisMessage → Option Int
  | .positionReport _ => none
  | .staticVoyageData data => some data.mmsi.toInt32.toInt
  | .staticDataPartA data => some data.mmsi.toInt32.toInt
  | .staticDataPartB data => some data.mmsi.toInt32.toInt

/-- A text as a value of a column; an empty one is NULL. -/
def textValue (text : Bytes) : Option Bytes := if text = [] then none else some text

theorem bindText_eq (text : Bytes) : bindText text = textValue text := by
  cases text <;> rfl

/-- What a type 5 message says of each column. -/
def voyageValue (data : StaticVoyageData) : (column : StaticColumn) → Option column.Value
  | .imo => data.imo.map fun imo => imo.toInt32.toInt
  | .callSign => textValue data.callSign
  | .name => textValue data.name
  | .shipType => some (data.shipType.toNat : Int)
  | .toBow => some (data.toBow.toNat : Int)
  | .toStern => some (data.toStern.toNat : Int)
  | .toPort => some (data.toPort.toNat : Int)
  | .toStarboard => some (data.toStarboard.toNat : Int)
  | .etaMonth => data.etaMonth.map fun month => (month.toNat : Int)
  | .etaDay => data.etaDay.map fun day => (day.toNat : Int)
  | .etaHour => data.etaHour.map fun hour => (hour.toNat : Int)
  | .etaMinute => data.etaMinute.map fun minute => (minute.toNat : Int)
  | .draught => data.draught
  | .destination => textValue data.destination

/-- What a message brings for a column: nothing, NULL, or a value. -/
def carried : AisMessage → (column : StaticColumn) → Option (Option column.Value)
  | .positionReport _, _ => none
  | .staticVoyageData data, column => some (voyageValue data column)
  | .staticDataPartA data, .name => some (textValue data.name)
  | .staticDataPartA _, _ => none
  | .staticDataPartB data, .shipType => some (some data.shipType.toNat)
  | .staticDataPartB data, .callSign => some (textValue data.callSign)
  | .staticDataPartB data, .toBow => some (some data.toBow.toNat)
  | .staticDataPartB data, .toStern => some (some data.toStern.toNat)
  | .staticDataPartB data, .toPort => some (some data.toPort.toNat)
  | .staticDataPartB data, .toStarboard => some (some data.toStarboard.toNat)
  | .staticDataPartB _, _ => none

/-- A static message as a partial write. -/
def staticWrite (sent : Int × AisMessage) : Register.Write StaticColumn.Value Int where
  stamp := sent.1
  value := carried sent.2

/-- `row` is the register `cell`. -/
structure Shows (row : ShipStaticRow) (cell : Register.Row StaticColumn.Value Int) : Prop where
  receivedAt : row.receivedAt = some cell.stamp
  column : ∀ column, row.column column = cell.value column

/-! ### The statements -/

/-- An upsert whose parameters and SET list are those of a partial write is that write. -/
private theorem upsertStatic_shows {db : Database} {excluded : ShipStaticRow}
    (set : ShipStaticRow → ShipStaticRow → ShipStaticRow)
    (keeps : ∀ excluded old, (set excluded old).mmsi = old.mmsi) {sent : Int × AisMessage}
    {cell : Option (Register.Row StaticColumn.Value Int)}
    (inserts : Shows excluded (staticWrite sent).insert)
    (sets : ∀ old cell, Shows old cell → Shows (set excluded old) ((staticWrite sent).overwrite cell))
    (shows_ : Option.Rel Shows (db.shipStatic.row? excluded.mmsi) cell) :
    Option.Rel Shows ((upsertStatic db excluded set keeps).shipStatic.row? excluded.mmsi)
      (some (Register.upsert cell (staticWrite sent))) := by
  rw [upsertStatic, KeyedTable.row?_upsert, if_pos rfl]
  apply Option.Rel.some
  generalize db.shipStatic.row? excluded.mmsi = row at shows_ ⊢
  cases shows_ with
  | none => exact inserts
  | @some old cell shown =>
    have guard : sqlGe excluded.receivedAt old.receivedAt =
        decide (cell.stamp ≤ (staticWrite sent).stamp) := by
      rw [inserts.receivedAt, shown.receivedAt]
      rfl
    simp only [Option.elim_some, guard, Register.upsert, decide_eq_true_eq]
    split
    next newer => exact sets old cell shown
    next older => exact shown

private theorem upsertStatic_frame {db : Database} {excluded : ShipStaticRow}
    (set : ShipStaticRow → ShipStaticRow → ShipStaticRow)
    (keeps : ∀ excluded old, (set excluded old).mmsi = old.mmsi) {mmsi : Int}
    (other : excluded.mmsi ≠ mmsi) :
    (upsertStatic db excluded set keeps).shipStatic.row? mmsi = db.shipStatic.row? mmsi := by
  rw [upsertStatic, KeyedTable.row?_upsert, if_neg other.symm]

/-- The parameters bound for a type 5 message are what it says. -/
theorem voyageRow_column (data : StaticVoyageData) (receivedAt : Int) (column : StaticColumn) :
    (voyageRow data receivedAt).column column = voyageValue data column := by
  cases column
  case callSign => exact bindText_eq data.callSign
  case name => exact bindText_eq data.name
  case destination => exact bindText_eq data.destination
  all_goals rfl

private theorem voyage_inserts (data : StaticVoyageData) (receivedAt : Int) :
    Shows (voyageRow data receivedAt) (staticWrite (receivedAt, .staticVoyageData data)).insert :=
  ⟨rfl, voyageRow_column data receivedAt⟩

private theorem voyage_sets (data : StaticVoyageData) (receivedAt : Int) (old : ShipStaticRow)
    (cell : Register.Row StaticColumn.Value Int) :
    Shows (setVoyage (voyageRow data receivedAt) old)
      ((staticWrite (receivedAt, .staticVoyageData data)).overwrite cell) := by
  refine ⟨rfl, fun column => ?_⟩
  have bound := voyageRow_column data receivedAt column
  -- every column is in the SET list
  cases column
  all_goals exact bound

private theorem partA_inserts (data : StaticDataPartA) (receivedAt : Int) :
    Shows (partARow data receivedAt) (staticWrite (receivedAt, .staticDataPartA data)).insert := by
  refine ⟨rfl, fun column => ?_⟩
  cases column
  case name => exact bindText_eq data.name
  all_goals rfl

/-- Part A leaves every column but the name as it was. -/
private theorem partA_sets (data : StaticDataPartA) (receivedAt : Int) {old : ShipStaticRow}
    {cell : Register.Row StaticColumn.Value Int} (shown : Shows old cell) :
    Shows (setPartA (partARow data receivedAt) old)
      ((staticWrite (receivedAt, .staticDataPartA data)).overwrite cell) := by
  refine ⟨rfl, fun column => ?_⟩
  have kept := shown.column column
  cases column
  case name => exact bindText_eq data.name
  all_goals exact kept

private theorem partB_inserts (data : StaticDataPartB) (receivedAt : Int) :
    Shows (partBRow data receivedAt) (staticWrite (receivedAt, .staticDataPartB data)).insert := by
  refine ⟨rfl, fun column => ?_⟩
  cases column
  case callSign => exact bindText_eq data.callSign
  all_goals rfl

private theorem partB_sets (data : StaticDataPartB) (receivedAt : Int) {old : ShipStaticRow}
    {cell : Register.Row StaticColumn.Value Int} (shown : Shows old cell) :
    Shows (setPartB (partBRow data receivedAt) old)
      ((staticWrite (receivedAt, .staticDataPartB data)).overwrite cell) := by
  refine ⟨rfl, fun column => ?_⟩
  have kept := shown.column column
  cases column
  case callSign => exact bindText_eq data.callSign
  case shipType | toBow | toStern | toPort | toStarboard => rfl
  all_goals exact kept

/-- A static message is a partial write of its ship's row. -/
theorem write_shows {db : Database} {sent : Int × AisMessage} {mmsi : Int}
    {cell : Option (Register.Row StaticColumn.Value Int)} (own : ship? sent.2 = some mmsi)
    (shows_ : Option.Rel Shows (db.shipStatic.row? mmsi) cell) :
    Option.Rel Shows ((write db sent.2 sent.1).shipStatic.row? mmsi)
      (some (Register.upsert cell (staticWrite sent))) := by
  obtain ⟨receivedAt, message⟩ := sent
  cases message with
  | positionReport report => cases own
  | staticVoyageData data =>
    cases own
    exact upsertStatic_shows setVoyage (fun _ _ => rfl) (voyage_inserts data receivedAt)
      (fun old cell _ => voyage_sets data receivedAt old cell) shows_
  | staticDataPartA data =>
    cases own
    exact upsertStatic_shows setPartA (fun _ _ => rfl) (partA_inserts data receivedAt)
      (fun _ _ shown => partA_sets data receivedAt shown) shows_
  | staticDataPartB data =>
    cases own
    exact upsertStatic_shows setPartB (fun _ _ => rfl) (partB_inserts data receivedAt)
      (fun _ _ shown => partB_sets data receivedAt shown) shows_

/-- Any other message leaves the row alone. -/
theorem write_frame (db : Database) {message : AisMessage} (receivedAt : Int) {mmsi : Int}
    (other : ship? message ≠ some mmsi) :
    (write db message receivedAt).shipStatic.row? mmsi = db.shipStatic.row? mmsi := by
  cases message with
  | positionReport report => rfl
  | staticVoyageData data =>
    have apart : (voyageRow data receivedAt).mmsi ≠ mmsi := fun same => other (congrArg some same)
    exact upsertStatic_frame setVoyage (fun _ _ => rfl) apart
  | staticDataPartA data =>
    have apart : (partARow data receivedAt).mmsi ≠ mmsi := fun same => other (congrArg some same)
    exact upsertStatic_frame setPartA (fun _ _ => rfl) apart
  | staticDataPartB data =>
    have apart : (partBRow data receivedAt).mmsi ≠ mmsi := fun same => other (congrArg some same)
    exact upsertStatic_frame setPartB (fun _ _ => rfl) apart

/-! ### Every sequence of messages -/

/-- Messages written one after another, each under its own timestamp. -/
def writeAll (db : Database) (sent : List (Int × AisMessage)) : Database :=
  sent.foldl (fun db (receivedAt, message) => write db message receivedAt) db

/-- The static messages of a ship. -/
def staticOf (mmsi : Int) (sent : List (Int × AisMessage)) : List (Int × AisMessage) :=
  sent.filter fun message => ship? message.2 = some mmsi

/-- The row of a ship is the register its static messages leave. -/
theorem writeAll_shows {db : Database} {mmsi : Int} (fresh : db.shipStatic.row? mmsi = none)
    (sent : List (Int × AisMessage)) :
    Option.Rel Shows ((writeAll db sent).shipStatic.row? mmsi)
      (Register.run ((staticOf mmsi sent).map staticWrite)) := by
  induction sent using List.reverseRecOn with
  | nil =>
    rw [writeAll, List.foldl_nil, fresh]
    exact Option.Rel.none
  | append_singleton sent message ih =>
    have next_db : writeAll db (sent ++ [message]) = write (writeAll db sent) message.2 message.1 := by
      simp [writeAll]
    rw [next_db, staticOf, List.filter_append]
    by_cases own : ship? message.2 = some mmsi
    · rw [List.filter_cons_of_pos (by simpa using own), List.filter_nil, List.map_append,
        List.map_singleton, Register.run_append]
      exact write_shows own ih
    · rw [List.filter_cons_of_neg (by simpa using own), List.filter_nil, List.append_nil,
        write_frame _ _ own]
      exact ih

/-! ### In the order of the timestamps -/

/-- The value of a column in the last message that carries it, NULL if there is none. -/
def lastCarried (messages : List AisMessage) (column : StaticColumn) : Option column.Value :=
  (messages.filterMap fun message => carried message column).getLast?.join

theorem lastValue_staticWrite (own : List (Int × AisMessage)) (column : StaticColumn) :
    Register.lastValue (own.map staticWrite) column = lastCarried (own.map Prod.snd) column := by
  rw [Register.lastValue, lastCarried, List.filterMap_map, List.filterMap_map]
  rfl

/-- The messages of some batches, each with the timestamp of its batch. -/
def messagesOf (batches : List (Int × List AisMessage)) : List (Int × AisMessage) :=
  batches.flatMap fun (receivedAt, messages) => messages.map fun message => (receivedAt, message)

end SqliteWriter

namespace WriterRun

open SqliteWriter Transition

/-- Where batches are cut makes no difference beyond the timestamps. -/
theorem writeBatches_eq (db : Database) (batches : List (Int × List AisMessage)) :
    writeBatches db batches = writeAll db (messagesOf batches) := by
  induction batches generalizing db with
  | nil => rfl
  | cons batch batches ih =>
    have first : writeBatch db batch =
        writeAll db (batch.2.map fun message => (batch.1, message)) := by
      rw [writeAll, List.foldl_map]
      rfl
    have split : messagesOf (batch :: batches) =
        (batch.2.map fun message => (batch.1, message)) ++ messagesOf batches := rfl
    rw [split, writeAll, List.foldl_append, ← writeAll, ← writeAll, ← first, ← ih]
    rfl

theorem messagesOf_ordered {batches : List (Int × List AisMessage)}
    (ordered : (batches.map Prod.fst).Pairwise (· ≤ ·)) :
    (messagesOf batches).Pairwise fun earlier later => earlier.1 ≤ later.1 := by
  rw [messagesOf, List.pairwise_flatMap]
  refine ⟨fun batch member => ?_, ?_⟩
  · rw [List.pairwise_map]
    exact List.pairwise_of_forall fun _ _ => le_rfl
  · refine (List.pairwise_map.mp ordered).imp fun {earlier later} low a in_a b in_b => ?_
    obtain ⟨_, -, rfl⟩ := List.mem_map.mp in_a
    obtain ⟨_, -, rfl⟩ := List.mem_map.mp in_b
    exact low

/-- `ship_static` holds, column by column, the last value sent. In every run on a database without
static data whose batches come in the order of their timestamps, a ship without static messages has
no row; any other has exactly one, whose timestamp is that of its last static message and each of
whose columns holds what the last message that carries it brought, however the messages were cut
into batches. -/
theorem shipStatic_last (db : Database) (nothing : db.shipStatic.rows = []) (trace : List Event)
    (s : State) (run : Run Step (initial db) trace s)
    (ordered : ((committed trace).map Prod.fst).Pairwise (· ≤ ·)) (mmsi : Int) :
    (staticOf mmsi (messagesOf (committed trace)) = [] →
      (s.connection.stored.shipStatic.rows.filter fun row => row.mmsi = mmsi) = []) ∧
    ∀ last, (staticOf mmsi (messagesOf (committed trace))).getLast? = some last →
      ∃ row, (s.connection.stored.shipStatic.rows.filter fun row => row.mmsi = mmsi) = [row] ∧
        row.receivedAt = some last.1 ∧
        ∀ column, row.column column =
          lastCarried ((staticOf mmsi (messagesOf (committed trace))).map Prod.snd) column := by
  have fresh : db.shipStatic.row? mmsi = none := by
    rw [KeyedTable.row?, nothing]
    rfl
  have shown := writeAll_shows fresh (messagesOf (committed trace))
  have stamps : ((staticOf mmsi (messagesOf (committed trace))).map staticWrite).Pairwise
      fun earlier later => earlier.stamp ≤ later.stamp := by
    rw [List.pairwise_map]
    exact (messagesOf_ordered ordered).filter _
  rw [← writeBatches_eq, ← (run_sameButReports run).shipStatic, Register.run_of_ordered stamps,
    List.getLast?_map] at shown
  rw [KeyedTable.filter_key]
  generalize s.connection.stored.shipStatic.row? mmsi = found at shown ⊢
  constructor
  · intro no_message
    rw [no_message] at shown
    cases shown
    rfl
  · intro last at_end
    rw [at_end] at shown
    cases shown with
    | @some row cell shows_ =>
      refine ⟨row, rfl, shows_.receivedAt, fun column => ?_⟩
      rw [shows_.column, ← lastValue_staticWrite]

/-- A type 5 message of a ship, and later its part A and part B in two batches of the same second. -/
def threeStatics : List (Int × List AisMessage) :=
  [(990, [.staticVoyageData
      { mmsi := 1, imo := some 9, name := [ 'V'.toUInt8], shipType := 60, destination := [ 'D'.toUInt8] }]),
    (1000, [.staticDataPartA { mmsi := 1, name := [ 'A'.toUInt8] }, .positionReport { mmsi := 1 }]),
    (1000, [.staticDataPartB { mmsi := 1, shipType := 70 }])]

theorem shipStatic_last_parts :
    ∃ trace s, Run Step (initial .empty) trace s ∧ committed trace = threeStatics ∧
      ∃ row, (s.connection.stored.shipStatic.rows.filter fun row => row.mmsi = 1) = [row] ∧
        row.receivedAt = some 1000 ∧ row.name = some [ 'A'.toUInt8] ∧ row.shipType = some 70 ∧
        row.callSign = none ∧ row.imo = some 9 ∧ row.destination = some [ 'D'.toUInt8] := by
  obtain ⟨trace, run, batches⟩ := exists_run .empty threeStatics (by simp [threeStatics])
  have ordered : ((committed trace).map Prod.fst).Pairwise (· ≤ ·) := by
    rw [batches]
    decide
  have last := (shipStatic_last .empty rfl trace _ run ordered 1).2
  rw [batches] at last
  obtain ⟨row, found, stamp, columns⟩ := last _ rfl
  exact ⟨trace, _, run, batches, row, found, stamp, columns .name, columns .shipType,
    columns .callSign, columns .imo, columns .destination⟩

end WriterRun

namespace SqliteWriter

/-! ### In any order -/

open Newest

/-- The value of a column in the message with the greatest timestamp of those that carry it. -/
def newestCarried (messages : List (Int × AisMessage)) (column : StaticColumn) :
    Option column.Value :=
  (newest Prod.fst (messages.filter fun message => (carried message.2 column).isSome)).bind
    fun message => (carried message.2 column).join

/-- The message with the greatest timestamp carries every column in which any of the messages has a
value. -/
def NewestCarriesAll (messages : List (Int × AisMessage)) : Prop :=
  ∀ latest ∈ messages, (∀ message ∈ messages, message.1 ≤ latest.1) →
    ∀ column, carried latest.2 column = none →
      ∀ message ∈ messages, (carried message.2 column).join = none

private theorem newestCovers_map (messages : List (Int × AisMessage)) :
    Register.NewestCovers (messages.map staticWrite) ↔ NewestCarriesAll messages := by
  simp only [Register.NewestCovers, List.forall_mem_map]
  rfl

private theorem newestValue_map (messages : List (Int × AisMessage)) (column : StaticColumn) :
    Register.newestValue (messages.map staticWrite) column = newestCarried messages column := by
  rw [Register.newestValue, List.filter_map, newest_map, Option.bind_map]
  rfl

/-- An order of the writes comes from an order of the messages. -/
private theorem exists_order {messages : List (Int × AisMessage)}
    {order : List (Register.Write StaticColumn.Value Int)}
    (perm : order.Perm (messages.map staticWrite)) :
    ∃ order' : List (Int × AisMessage), order'.Perm messages ∧ order = order'.map staticWrite := by
  have factored := (congrFun (congrFun (List.eq_map_comp_perm staticWrite) order) messages).mpr perm
  obtain ⟨order', same, perm'⟩ := factored
  exact ⟨order', perm', same⟩

/-- The key, the timestamp and the columns are all there is to a row. -/
private theorem ShipStaticRow.eq_of_shows {row row' : ShipStaticRow}
    {cell : Register.Row StaticColumn.Value Int} (key : row.mmsi = row'.mmsi) (shown : Shows row cell)
    (shown' : Shows row' cell) : row = row' := by
  have stamp := shown.receivedAt.trans shown'.receivedAt.symm
  have columns (column : StaticColumn) : row.column column = row'.column column :=
    (shown.column column).trans (shown'.column column).symm
  cases row
  cases row'
  rw [ShipStaticRow.mk.injEq]
  exact ⟨key, columns .imo, columns .callSign, columns .name, columns .shipType, columns .toBow,
    columns .toStern, columns .toPort, columns .toStarboard, columns .etaMonth, columns .etaDay,
    columns .etaHour, columns .etaMinute, columns .draught, columns .destination, stamp⟩

private theorem Shows.cell_unique {row : ShipStaticRow}
    {cell cell' : Register.Row StaticColumn.Value Int} (shown : Shows row cell)
    (shown' : Shows row cell') : cell = cell' := by
  have stamp : cell.stamp = cell'.stamp :=
    Option.some.inj (shown.receivedAt.symm.trans shown'.receivedAt)
  have values : cell.value = cell'.value :=
    funext fun column => (shown.column column).symm.trans (shown'.column column)
  cases cell
  cases stamp
  cases values
  rfl

section Late

variable {db : Database} {mmsi : Int} {messages : List (Int × AisMessage)}

private theorem order_shows (fresh : db.shipStatic.row? mmsi = none)
    (own : ∀ message ∈ messages, ship? message.2 = some mmsi) {order : List (Int × AisMessage)}
    (perm : order.Perm messages) :
    Option.Rel Shows ((writeAll db order).shipStatic.row? mmsi)
      (Register.run (order.map staticWrite)) := by
  have all_static : staticOf mmsi order = order := by
    rw [staticOf, List.filter_eq_self]
    intro message member
    simpa using own message (perm.mem_iff.mp member)
  have shown := writeAll_shows fresh order
  rwa [all_static] at shown

/-- Two orders leave the same row exactly where they leave the same register. -/
private theorem rows_agree_iff (fresh : db.shipStatic.row? mmsi = none)
    (own : ∀ message ∈ messages, ship? message.2 = some mmsi) {order order' : List (Int × AisMessage)}
    (perm : order.Perm messages) (perm' : order'.Perm messages) :
    (writeAll db order).shipStatic.row? mmsi = (writeAll db order').shipStatic.row? mmsi ↔
      Register.run (order.map staticWrite) = Register.run (order'.map staticWrite) := by
  have shown := order_shows fresh own perm
  have shown' := order_shows fresh own perm'
  have key {row : ShipStaticRow} (found : (writeAll db order).shipStatic.row? mmsi = some row) :
      row.mmsi = mmsi := KeyedTable.row?_key found
  have key' {row : ShipStaticRow} (found : (writeAll db order').shipStatic.row? mmsi = some row) :
      row.mmsi = mmsi := KeyedTable.row?_key found
  generalize (writeAll db order).shipStatic.row? mmsi = found at shown key ⊢
  generalize (writeAll db order').shipStatic.row? mmsi = found' at shown' key' ⊢
  generalize Register.run (order.map staticWrite) = cell at shown ⊢
  generalize Register.run (order'.map staticWrite) = cell' at shown' ⊢
  cases shown with
  | none =>
    cases shown' with
    | none => exact iff_of_true rfl rfl
    | some shows_' => simp
  | some shows_ =>
    cases shown' with
    | none => simp
    | some shows_' =>
      rw [Option.some.injEq, Option.some.injEq]
      constructor
      · rintro rfl
        exact shows_.cell_unique shows_'
      · rintro rfl
        exact ShipStaticRow.eq_of_shows ((key rfl).trans (key' rfl).symm) shows_ shows_'

/-- Late static data is put in its place, whatever the order of arrival, exactly when the newest
message of the ship carries every column in which any of them has a value: only then all orders
leave the same row, and only then each column holds the newest value sent. -/
theorem late_static_iff (fresh : db.shipStatic.row? mmsi = none)
    (own : ∀ message ∈ messages, ship? message.2 = some mmsi)
    (distinct : (messages.map Prod.fst).Nodup) :
    ((∀ order order' : List (Int × AisMessage), order.Perm messages → order'.Perm messages →
      (writeAll db order).shipStatic.row? mmsi = (writeAll db order').shipStatic.row? mmsi) ↔
        NewestCarriesAll messages) ∧
    ((∀ order : List (Int × AisMessage), order.Perm messages →
      ∀ row, (writeAll db order).shipStatic.row? mmsi = some row →
        ∀ column, row.column column = newestCarried messages column) ↔
          NewestCarriesAll messages) := by
  have stamps : ((messages.map staticWrite).map Register.Write.stamp).Nodup := by
    rw [List.map_map]
    exact distinct
  rw [← newestCovers_map]
  constructor
  · rw [← Register.orders_agree_iff stamps]
    constructor
    · intro agree writes writes' in_order in_order'
      obtain ⟨order, perm, rfl⟩ := exists_order in_order
      obtain ⟨order', perm', rfl⟩ := exists_order in_order'
      exact (rows_agree_iff fresh own perm perm').mp (agree order order' perm perm')
    · intro agree order order' perm perm'
      exact (rows_agree_iff fresh own perm perm').mpr
        (agree _ _ (perm.map staticWrite) (perm'.map staticWrite))
  · rw [← Register.newest_values_iff stamps]
    constructor
    · intro held writes in_order column
      obtain ⟨order, perm, rfl⟩ := exists_order in_order
      have shown := order_shows fresh own perm
      rw [newestValue_map]
      cases found : (writeAll db order).shipStatic.row? mmsi with
      | some row =>
        rw [found] at shown
        generalize Register.run (order.map staticWrite) = cell at shown ⊢
        cases shown with
        | some shows_ => exact (shows_.column column).symm.trans (held order perm row found column)
      -- without a row there was no message
      | none =>
        rw [found] at shown
        have no_row : Register.run (order.map staticWrite) = none := by
          generalize Register.run (order.map staticWrite) = cell at shown ⊢
          cases shown
          rfl
        rw [Register.run_eq_none_iff, List.map_eq_nil_iff] at no_row
        subst no_row
        rw [perm.nil_eq.symm]
        rfl
    · intro held order perm row found column
      have values := held (order.map staticWrite) (perm.map staticWrite) column
      have shown := order_shows fresh own perm
      rw [found] at shown
      rw [newestValue_map] at values
      generalize Register.run (order.map staticWrite) = cell at shown values
      cases shown with
      | some shows_ => exact (shows_.column column).trans values

end Late

/-- Part B at time 1, then part A at time 2. -/
def latePartB : List (Int × AisMessage) :=
  [(2, .staticDataPartA { mmsi := 1, name := [ 'A'.toUInt8] }),
    (1, .staticDataPartB { mmsi := 1, shipType := 70 })]

/-- If part B arrives after part A its columns stay NULL, though no other message carries them. -/
theorem latePartB_lost :
    ∃ row row', (writeAll .empty latePartB).shipStatic.row? 1 = some row ∧
      (writeAll .empty latePartB.reverse).shipStatic.row? 1 = some row' ∧
      row.shipType = none ∧ row'.shipType = some 70 ∧
      newestCarried latePartB .shipType = some 70 :=
  ⟨_, _, rfl, rfl, rfl, rfl, by decide⟩

/-- A type 5 message makes up for a part A that is late. -/
def latePartA : List (Int × AisMessage) :=
  [(2, .staticVoyageData { mmsi := 1, name := [ 'B'.toUInt8] }),
    (1, .staticDataPartA { mmsi := 1, name := [ 'A'.toUInt8] })]

theorem late_static_iff_voyage :
    NewestCarriesAll latePartA ∧ ∀ order : List (Int × AisMessage), order.Perm latePartA →
      ∀ row, (writeAll .empty order).shipStatic.row? 1 = some row →
        ∀ column, row.column column = newestCarried latePartA column := by
  have covered : NewestCarriesAll latePartA := by
    intro latest member greatest column not_carried
    rcases List.mem_cons.mp member with rfl | older
    · cases not_carried
    · obtain rfl := List.mem_singleton.mp older
      exact absurd (greatest _ List.mem_cons_self) (by decide)
  exact ⟨covered, (late_static_iff rfl (by decide) (by decide)).2.mpr covered⟩

end SqliteWriter
end Ais
