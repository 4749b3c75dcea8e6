import AisPipeline.Lib.Snapshots
import AisPipeline.Pipeline.WriterRun

/-!
# The database file on its disk

One writer after the other on one file, statement by statement, with what ends
them: a process may be gone at any point, and a power cut may also take the last
commits with it, as `synchronous=NORMAL` allows. An exception that leaves the
constructor or `run` ends the process, so it is no case of its own.
-/
namespace Ais.Disk

open Cpp SqliteWriter Snapshots

/-- What is in the file. The index on `position_reports` changes no result and is left out. -/
structure Content extends DatabaseFile where
  /-- `position_reports_update_latest` exists -/
  trigger : Bool := false

/-- A file the constructor has been through. -/
def Content.ofDatabase (db : Database) : Content := { db.file with trigger := true }

namespace Content

/-! The statements of the constructor. -/

def createReports (content : Content) : Content :=
  { content with positionReports := some (content.positionReports.getD .empty) }

def createStatic (content : Content) : Content :=
  { content with shipStatic := some (content.shipStatic.getD .empty) }

def createLatest (content : Content) : Content :=
  { content with latestPositions := some (content.latestPositions.getD .empty) }

def createTrigger (content : Content) : Content := { content with trigger := true }

/-- `SELECT EXISTS (SELECT 1 FROM latest_positions)`. -/
def hasLatest (content : Content) : Bool :=
  content.latestPositions.any fun latest => !latest.rows.isEmpty

/-- `none` is an INSERT that fails. -/
def backfill (content : Content) : Option Content := do
  let reports ← content.positionReports
  let latest ← content.latestPositions
  let filled ← latest.insertAll reports.backfill
  return { content with latestPositions := some filled }

/-- One message of a batch. `latest_positions` follows as long as there is a trigger. -/
def write (content : Content) (message : AisMessage) (receivedAt : Int) : Option Content := do
  let positionReports ← content.positionReports
  let shipStatic ← content.shipStatic
  match content.trigger, content.latestPositions with
  | true, some latestPositions =>
    let db := SqliteWriter.write ⟨positionReports, shipStatic, latestPositions⟩ message receivedAt
    return { db.file with trigger := true }
  -- the trigger's own INSERT would have no table
  | true, none => none
  | false, _ =>
    let db := SqliteWriter.write ⟨positionReports, shipStatic, .empty⟩ message receivedAt
    return { content with
      positionReports := some db.positionReports
      shipStatic := some db.shipStatic }

end Content

/-- The statements the constructor runs outside of a transaction, each a commit of its own. -/
inductive Creation where
  | reports
  | static
  | index

/-- The statements of its transaction. -/
inductive Installation where
  | table
  | trigger
  | check
  | backfill
  | commit

inductive Connection where
  | closed
  /-- in the constructor, before the statement -/
  | creating (next : Creation)
  /-- before its BEGIN -/
  | created
  | installing (working : Content) (next : Installation)
  /-- in `run`, outside of a transaction -/
  | idle
  | writing (receivedAt : Int) (written : List AisMessage) (working : Content)
  /-- in the loop of `delete_older_than` -/
  | deleting (cutoff : Int)

/-- The constructor has returned. -/
def Connection.inRun : Connection → Prop
  | .idle | .writing _ _ _ | .deleting _ => True
  | .closed | .creating _ | .created | .installing _ _ => False

structure State where
  disk : Store Content
  connection : Connection := .closed

/-- What a commit did. -/
inductive Commit where
  | created (statement : Creation)
  | installed
  | batch (receivedAt : Int) (messages : List AisMessage)
  /-- one chunk of a prune -/
  | deleted (picked : List Int)

inductive Event where
  | silent
  | committed (commit : Commit)
  | powerCut (lost : Nat)

inductive Step : State → Event → State → Prop where
  | opens (s : State) (at_closed : s.connection = .closed) :
      Step s .silent { s with connection := .creating .reports }
  | createsReports (s : State) (at_create : s.connection = .creating .reports) :
      Step s (.committed (.created .reports))
        ⟨s.disk.commit s.disk.current.createReports, .creating .static⟩
  | createsStatic (s : State) (at_create : s.connection = .creating .static) :
      Step s (.committed (.created .static))
        ⟨s.disk.commit s.disk.current.createStatic, .creating .index⟩
  | createsIndex (s : State) (at_create : s.connection = .creating .index) :
      Step s (.committed (.created .index)) ⟨s.disk.commit s.disk.current, .created⟩
  -- the transaction of the constructor
  | beginsInstalling (s : State) (at_begin : s.connection = .created) :
      Step s .silent { s with connection := .installing s.disk.current .table }
  | createsLatest (s : State) (working : Content)
      (at_create : s.connection = .installing working .table) :
      Step s .silent { s with connection := .installing working.createLatest .trigger }
  | createsTrigger (s : State) (working : Content)
      (at_create : s.connection = .installing working .trigger) :
      Step s .silent { s with connection := .installing working.createTrigger .check }
  | checks (s : State) (working : Content)
      (at_check : s.connection = .installing working .check) :
      Step s .silent
        { s with connection := .installing working (if working.hasLatest then .commit else .backfill) }
  | backfills (s : State) (working filled : Content)
      (at_fill : s.connection = .installing working .backfill)
      (ran : working.backfill = some filled) :
      Step s .silent { s with connection := .installing filled .commit }
  | installs (s : State) (working : Content)
      (at_commit : s.connection = .installing working .commit) :
      Step s (.committed .installed) ⟨s.disk.commit working, .idle⟩
  -- `run`
  | begins (s : State) (receivedAt : Int) (at_loop : s.connection = .idle) :
      Step s .silent { s with connection := .writing receivedAt [] s.disk.current }
  | writes (s : State) (receivedAt : Int) (written : List AisMessage) (message : AisMessage)
      (working after : Content) (at_write : s.connection = .writing receivedAt written working)
      (ran : working.write message receivedAt = some after) :
      Step s .silent { s with connection := .writing receivedAt (written ++ [message]) after }
  | commits (s : State) (receivedAt : Int) (written : List AisMessage) (working : Content)
      (at_write : s.connection = .writing receivedAt written working) :
      Step s (.committed (.batch receivedAt written)) ⟨s.disk.commit working, .idle⟩
  | prunes (s : State) (cutoff : Int) (at_loop : s.connection = .idle) :
      Step s .silent { s with connection := .deleting cutoff }
  | deletes (s : State) (cutoff : Int) (reports : PositionReports) (picked : List Int)
      (at_delete : s.connection = .deleting cutoff)
      (stored : s.disk.current.positionReports = some reports)
      (matching : picked.Sublist (reports.olderThan cutoff))
      (limited : picked.length = min pruneChunkSize (reports.olderThan cutoff).length) :
      Step s (.committed (.deleted picked))
        ⟨s.disk.commit { s.disk.current with positionReports := some (reports.delete picked) },
          if picked.length = pruneChunkSize then .deleting cutoff else .idle⟩
  -- an open transaction is gone with its connection
  | ends (s : State) : Step s .silent { s with connection := .closed }
  | loses (s : State) (lost : Nat) (left : Store Content) (undone : s.disk.cut lost = some left) :
      Step s (.powerCut lost) ⟨left, .closed⟩
  -- a checkpoint, at any time
  | syncs (s : State) (kept : Nat) : Step s .silent { s with disk := s.disk.sync kept }

/-- A file as it is found, before this version of the program has opened it. -/
def found (file : DatabaseFile) : State where
  disk := { current := { file with } }

/-! ### What a trace tells -/

def Event.change? : Event → Option (Change Commit)
  | .silent => none
  | .committed commit => some (.committed commit)
  | .powerCut lost => some (.lost lost)

/-- The commits that no power cut has undone. -/
def surviving (trace : List Event) : List Commit :=
  Snapshots.surviving (trace.filterMap Event.change?)

@[simp] theorem surviving_append (trace : List Event) (event : Event) :
    surviving (trace ++ [event]) =
      event.change?.elim (surviving trace) (Change.apply (surviving trace)) := by
  cases shown : event.change? with
  | none => simp [surviving, shown]
  | some change => simp [surviving, shown]

def Commit.apply (db : Database) : Commit → Database
  | .created _ | .installed => db
  | .batch receivedAt messages => WriterRun.writeBatch db (receivedAt, messages)
  | .deleted picked => { db with positionReports := db.positionReports.delete picked }

def replay (db : Database) (commits : List Commit) : Database := commits.foldl Commit.apply db

@[simp] theorem replay_append (db : Database) (commits : List Commit) (commit : Commit) :
    replay db (commits ++ [commit]) = commit.apply (replay db commits) := by
  simp [replay]

/-- The reports a commit inserts. -/
def Commit.reports : Commit → List PositionRow
  | .batch receivedAt messages => messages.flatMap fun message => insertedBy message receivedAt
  | .created _ | .installed | .deleted _ => []

end Ais.Disk
