import AisPipeline.Pipeline.SqliteWriter

/-!
# What pruning removes

Whichever rows each chunk picks, the loop ends with the rows that are not older
than the cutoff.
-/
namespace Ais

open Transition

namespace PositionReports

/-- `received_at < cutoff`. -/
def isOlder (cutoff : Int) (report : StoredReport) : Bool := report.row.receivedAt.any (· < cutoff)

/-- The table without the rows older than `cutoff`. -/
def prune (table : PositionReports) (cutoff : Int) : PositionReports where
  stored := table.stored.filter fun report => !isOlder cutoff report
  ascending := table.ascending.filter _

theorem mem_rows_prune {table : PositionReports} {cutoff : Int} {row : PositionRow} :
    row ∈ (table.prune cutoff).rows ↔
      row ∈ table.rows ∧ ∀ receivedAt ∈ row.receivedAt, cutoff ≤ receivedAt := by
  simp only [rows, prune, List.mem_map, List.mem_filter, isOlder, Bool.not_eq_true',
    Option.any_eq_false, decide_eq_false_iff_not, not_lt]
  constructor
  · rintro ⟨report, ⟨member, young⟩, rfl⟩
    exact ⟨⟨report, member, rfl⟩, young⟩
  · rintro ⟨⟨report, member, rfl⟩, young⟩
    exact ⟨report, ⟨member, young⟩, rfl⟩

private theorem eq_of_stored {a b : PositionReports} (same : a.stored = b.stored) : a = b := by
  cases a
  cases b
  cases same
  rfl

/-- A `rowid` belongs to one row. -/
theorem eq_of_rowid {table : PositionReports} {a b : StoredReport} (in_a : a ∈ table.stored)
    (in_b : b ∈ table.stored) (same : a.rowid = b.rowid) : a = b := by
  have distinct : (table.stored.map StoredReport.rowid).Nodup := by
    rw [List.Nodup, List.pairwise_map]
    exact table.ascending.imp fun {_ _} lower => ne_of_lt lower
  exact List.inj_on_of_nodup_map distinct in_a in_b same

theorem mem_olderThan {table : PositionReports} {cutoff : Int} {report : StoredReport}
    (member : report ∈ table.stored) :
    report.rowid ∈ table.olderThan cutoff ↔ isOlder cutoff report = true := by
  rw [olderThan, List.mem_map]
  constructor
  · rintro ⟨other, matches_, same⟩
    obtain ⟨other_member, older⟩ := List.mem_filter.mp matches_
    rw [← eq_of_rowid other_member member same]
    exact older
  · intro older
    exact ⟨report, List.mem_filter.mpr ⟨member, older⟩, rfl⟩

theorem delete_olderThan (table : PositionReports) (cutoff : Int) :
    table.delete (table.olderThan cutoff) = table.prune cutoff := by
  apply eq_of_stored
  apply List.filter_congr
  intro report member
  have picked := @mem_olderThan table cutoff report member
  cases older : isOlder cutoff report with
  | true => simpa [older] using picked
  | false => simpa [older] using picked

/-- Old rows deleted first make no difference to what is left. -/
theorem prune_delete {table : PositionReports} {cutoff : Int} {picked : List Int}
    (old : picked ⊆ table.olderThan cutoff) : (table.delete picked).prune cutoff = table.prune cutoff := by
  apply eq_of_stored
  simp only [prune, delete, List.filter_filter]
  apply List.filter_congr
  intro report member
  cases older : isOlder cutoff report with
  | true => rfl
  | false =>
    have kept : report.rowid ∉ picked := by
      intro was_picked
      rw [(mem_olderThan member).mp (old was_picked)] at older
      cases older
    simp [kept]

/-- Two deletions in a row. -/
theorem delete_delete (table : PositionReports) (first second : List Int) :
    (table.delete first).delete second = table.delete (first ++ second) := by
  apply eq_of_stored
  simp only [delete, List.filter_filter]
  apply List.filter_congr
  intro report member
  simp [Bool.and_comm]

theorem delete_nil (table : PositionReports) : table.delete [] = table := by
  apply eq_of_stored
  simp [delete]

theorem olderThan_delete (table : PositionReports) (cutoff : Int) (picked : List Int) :
    (table.delete picked).olderThan cutoff =
      (table.olderThan cutoff).filter fun rowid => rowid ∉ picked := by
  simp only [olderThan, delete, List.filter_filter, List.filter_map, Function.comp_def]
  congr 1
  apply List.filter_congr
  intro report member
  exact Bool.and_comm _ _

theorem olderThan_prune (table : PositionReports) (cutoff : Int) :
    (table.prune cutoff).olderThan cutoff = [] := by
  simp only [olderThan, prune, List.filter_filter, List.map_eq_nil_iff, List.filter_eq_nil_iff]
  intro report member
  simp [isOlder]

theorem olderThan_nodup (table : PositionReports) (cutoff : Int) :
    (table.olderThan cutoff).Nodup := by
  rw [olderThan, List.Nodup, List.pairwise_map]
  exact (table.ascending.filter _).imp fun {_ _} lower => ne_of_lt lower

/-- What is deleted of the old rows is no longer among them, and nothing else. -/
theorem length_olderThan_delete {table : PositionReports} {cutoff : Int} {picked : List Int}
    (old : picked ⊆ table.olderThan cutoff) (distinct : picked.Nodup) :
    ((table.delete picked).olderThan cutoff).length + picked.length =
      (table.olderThan cutoff).length := by
  have taken : ((table.olderThan cutoff).filter fun rowid => rowid ∈ picked).Perm picked := by
    rw [List.perm_ext_iff_of_nodup ((table.olderThan_nodup cutoff).filter _) distinct]
    intro rowid
    simpa using fun member => @old rowid member
  have split_ := List.length_eq_length_filter_add (l := table.olderThan cutoff) fun rowid =>
    decide (rowid ∈ picked)
  rw [taken.length_eq] at split_
  rw [olderThan_delete]
  simp only [decide_not]
  omega

end PositionReports

namespace SqliteWriter

/-- A chunk that is not full took every row that was left. -/
theorem DeletesChunk.of_short {cutoff : Int} {limit deleted : Nat} {reports reports' : PositionReports}
    (chunk : DeletesChunk cutoff limit reports reports' deleted) (short : deleted ≠ limit) :
    reports' = reports.prune cutoff := by
  obtain ⟨picked, sub, count, rfl, rfl⟩ := chunk
  have all : picked = reports.olderThan cutoff := by
    apply sub.eq_of_length
    omega
  rw [all, reports.delete_olderThan]

theorem DeletesChunk.prune_eq {cutoff : Int} {limit deleted : Nat} {reports reports' : PositionReports}
    (chunk : DeletesChunk cutoff limit reports reports' deleted) :
    reports'.prune cutoff = reports.prune cutoff := by
  obtain ⟨picked, sub, -, rfl, -⟩ := chunk
  exact PositionReports.prune_delete sub.subset

/-- What the loop of `delete_older_than` leaves. -/
theorem DeletesOlderThan.eq_prune {cutoff : Int} {limit total : Nat}
    {reports reports' : PositionReports}
    (pruned : DeletesOlderThan cutoff limit reports reports' total) :
    reports' = reports.prune cutoff := by
  induction pruned with
  | last reports reports' deleted chunk short => exact chunk.of_short short
  | again reports middle reports' deleted total chunk full rest ih => rw [ih, chunk.prune_eq]

/-! ### The loop, one chunk at a time -/

/-- `delete_older_than` between two chunks, or back in its caller. -/
inductive PruneState where
  | deleting (db : Database) (total : Nat)
  | returned (db : Database) (total : Nat)

/-- One pass of the loop; the label is the number of rows the chunk deleted. -/
inductive PruneStep (cutoff : Int) (limit : Nat) : PruneState → Nat → PruneState → Prop where
  | again (db reports deleted total) :
      DeletesChunk cutoff limit db.positionReports reports deleted → deleted = limit →
      PruneStep cutoff limit (.deleting db total) deleted
        (.deleting { db with positionReports := reports } (total + deleted))
  | last (db reports deleted total) :
      DeletesChunk cutoff limit db.positionReports reports deleted → deleted ≠ limit →
      PruneStep cutoff limit (.deleting db total) deleted
        (.returned { db with positionReports := reports } (total + deleted))

theorem DeletesChunk.length_olderThan {cutoff : Int} {limit deleted : Nat}
    {reports reports' : PositionReports} (chunk : DeletesChunk cutoff limit reports reports' deleted) :
    (reports'.olderThan cutoff).length + deleted = (reports.olderThan cutoff).length := by
  obtain ⟨picked, old, -, rfl, rfl⟩ := chunk
  exact PositionReports.length_olderThan_delete old.subset
    (old.nodup (reports.olderThan_nodup cutoff))

/-- A chunk can always be deleted. -/
theorem exists_deletesChunk (cutoff : Int) (limit : Nat) (reports : PositionReports) :
    ∃ reports' deleted, DeletesChunk cutoff limit reports reports' deleted :=
  ⟨_, _, (reports.olderThan cutoff).take limit, List.take_sublist _ _, List.length_take, rfl, rfl⟩

/-- What is true of the database `db₀` that was to be pruned and of where the loop is. -/
def PruneState.Pruning (cutoff : Int) (db₀ : Database) : PruneState → Prop
  | .deleting db total => ∃ picked, picked ⊆ db₀.positionReports.olderThan cutoff ∧ picked.Nodup ∧
      picked.length = total ∧ db = { db₀ with positionReports := db₀.positionReports.delete picked }
  | .returned db total => total = (db₀.positionReports.olderThan cutoff).length ∧
      db = { db₀ with positionReports := db₀.positionReports.prune cutoff }

/-- The rows deleted so far and those of one more chunk. -/
private theorem picked_append {table : PositionReports} {cutoff : Int} {picked more : List Int}
    (old : picked ⊆ table.olderThan cutoff) (distinct : picked.Nodup)
    (later : more.Sublist ((table.delete picked).olderThan cutoff)) :
    picked ++ more ⊆ table.olderThan cutoff ∧ (picked ++ more).Nodup := by
  rw [PositionReports.olderThan_delete] at later
  constructor
  · intro rowid member
    rcases List.mem_append.mp member with first | second
    · exact old first
    · exact (List.mem_filter.mp (later.subset second)).1
  · rw [List.nodup_append']
    refine ⟨distinct, later.nodup ((table.olderThan_nodup cutoff).filter _), fun rowid first second => ?_⟩
    simpa [first] using (List.mem_filter.mp (later.subset second)).2

theorem PruneStep.pruning {cutoff : Int} {limit deleted : Nat} {db₀ : Database} {s t : PruneState}
    (pruning : s.Pruning cutoff db₀) (step : PruneStep cutoff limit s deleted t) :
    t.Pruning cutoff db₀ := by
  cases step with
  | again db reports deleted total chunk full =>
    obtain ⟨picked, old, distinct, rfl, rfl⟩ := pruning
    obtain ⟨more, later, -, rfl, rfl⟩ := chunk
    obtain ⟨all_old, all_distinct⟩ := picked_append old distinct later
    exact ⟨picked ++ more, all_old, all_distinct, List.length_append,
      by rw [PositionReports.delete_delete]⟩
  | last db reports deleted total chunk short =>
    obtain ⟨picked, old, distinct, rfl, rfl⟩ := pruning
    have left := chunk.of_short short
    have count : (reports.olderThan cutoff).length + deleted =
        ((db₀.positionReports.delete picked).olderThan cutoff).length := chunk.length_olderThan
    have before := PositionReports.length_olderThan_delete old distinct
    rw [left, PositionReports.olderThan_prune, List.length_nil] at count
    rw [PositionReports.prune_delete old] at left
    exact ⟨by omega, by rw [left]⟩

theorem run_pruning {cutoff : Int} {limit : Nat} {db : Database} {trace : List Nat} {s : PruneState}
    (run : Run (PruneStep cutoff limit) (.deleting db 0) trace s) : s.Pruning cutoff db := by
  have start : PruneState.Pruning cutoff db (.deleting db 0) :=
    ⟨[], List.nil_subset _, List.nodup_nil, rfl, by rw [PositionReports.delete_nil]⟩
  exact Run.invariant (fun _ s => s.Pruning cutoff db) start (fun kept step => step.pruning kept) run

/-- Every pass but the last deletes a full chunk. -/
def PruneState.Passes (limit : Nat) (trace : List Nat) : PruneState → Prop
  | .deleting _ total => total = trace.length * limit
  | .returned _ total => ∃ full, trace.length = full + 1 ∧ full * limit ≤ total ∧
      total < (full + 1) * limit

theorem PruneStep.passes {cutoff : Int} {limit deleted : Nat} {trace : List Nat} {s t : PruneState}
    (passes : s.Passes limit trace) (step : PruneStep cutoff limit s deleted t) :
    t.Passes limit (trace ++ [deleted]) := by
  cases step with
  | again db reports deleted total chunk full =>
    obtain rfl : total = trace.length * limit := passes
    rw [PruneState.Passes, List.length_append, List.length_singleton, full, Nat.succ_mul]
  | last db reports deleted total chunk short =>
    obtain rfl : total = trace.length * limit := passes
    obtain ⟨picked, -, count, -, rfl⟩ := chunk
    have small : picked.length < limit := by omega
    refine ⟨trace.length, by simp, Nat.le_add_right _ _, ?_⟩
    rw [Nat.succ_mul]
    omega

theorem run_passes {cutoff : Int} {limit : Nat} {db : Database} {trace : List Nat} {s : PruneState}
    (run : Run (PruneStep cutoff limit) (.deleting db 0) trace s) : s.Passes limit trace := by
  have start : PruneState.Passes limit [] (.deleting db 0) := (Nat.zero_mul limit).symm
  exact Run.invariant (fun trace s => s.Passes limit trace) start (fun kept step => step.passes kept) run

/-- The runs that return are the derivations of `DeletesOlderThan`. -/
theorem run_returns_iff {cutoff : Int} {limit before total : Nat} {db db' : Database} :
    (∃ trace, Run (PruneStep cutoff limit) (.deleting db before) trace (.returned db' total)) ↔
      ∃ reports deleted, DeletesOlderThan cutoff limit db.positionReports reports deleted ∧
        db' = { db with positionReports := reports } ∧ total = before + deleted := by
  constructor
  · rintro ⟨trace, run⟩
    induction trace generalizing db before with
    | nil => cases run
    | cons count trace ih =>
      obtain ⟨middle, step, rest⟩ := run
      cases step with
      | again db reports deleted before chunk full =>
        obtain ⟨left, more, later, rfl, rfl⟩ := ih rest
        exact ⟨left, _, .again _ _ _ _ _ chunk full later, rfl, by omega⟩
      | last db reports deleted before chunk short =>
        -- a loop that has returned makes no further step
        cases trace with
        | nil =>
          cases rest
          exact ⟨reports, _, .last _ _ _ chunk short, rfl, rfl⟩
        | cons label trace =>
          obtain ⟨next, stuck, -⟩ := rest
          cases stuck
  · rintro ⟨reports, deleted, derivation, rfl, rfl⟩
    generalize at_start : db.positionReports = found at derivation
    induction derivation generalizing db before with
    | last found reports deleted chunk short =>
      subst at_start
      exact ⟨_, .single (.last db reports deleted before chunk short)⟩
    | again found middle reports deleted total chunk full rest ih =>
      subst at_start
      obtain ⟨trace, run⟩ := @ih (before + deleted) { db with positionReports := middle } rfl
      rw [Nat.add_assoc] at run
      exact ⟨deleted :: trace, _, .again db middle deleted before chunk full, run⟩

/-- The loop can return from wherever it is: a full chunk leaves fewer old rows. -/
theorem exists_return {cutoff : Int} {limit : Nat} (positive : 0 < limit) (db : Database) (total : Nat) :
    ∃ trace db' total', Run (PruneStep cutoff limit) (.deleting db total) trace (.returned db' total') := by
  induction old : (db.positionReports.olderThan cutoff).length using Nat.strong_induction_on
    generalizing db total with
  | h old_rows ih =>
    obtain ⟨reports, deleted, chunk⟩ := exists_deletesChunk cutoff limit db.positionReports
    by_cases full : deleted = limit
    · have fewer := chunk.length_olderThan
      obtain ⟨trace, db', total', run⟩ := ih (reports.olderThan cutoff).length (by omega)
        { db with positionReports := reports } (total + deleted) rfl
      exact ⟨deleted :: trace, db', total', _, .again db reports deleted total chunk full, run⟩
    · exact ⟨[deleted], _, _, .single (.last db reports deleted total chunk full)⟩

theorem run_returned {cutoff : Int} {limit total : Nat} {db db' : Database} {trace : List Nat}
    (run : Run (PruneStep cutoff limit) (.deleting db 0) trace (.returned db' total)) :
    db' = { db with positionReports := db.positionReports.prune cutoff } ∧
    total = (db.positionReports.olderThan cutoff).length ∧
    trace.length = (db.positionReports.olderThan cutoff).length / limit + 1 := by
  obtain ⟨count, left⟩ := run_pruning run
  obtain ⟨full, length, low, high⟩ := run_passes run
  refine ⟨left, count, ?_⟩
  rw [length, ← count, Nat.div_eq_of_lt_le low high]

/-- The result of a prune is the same whichever rows the chunks pick, and there is one. -/
theorem deletesOlderThan_iff {cutoff : Int} {limit : Nat} (positive : 0 < limit) {db : Database}
    {reports : PositionReports} {total : Nat} :
    DeletesOlderThan cutoff limit db.positionReports reports total ↔
      reports = db.positionReports.prune cutoff ∧
        total = (db.positionReports.olderThan cutoff).length := by
  constructor
  · intro derivation
    obtain ⟨trace, run⟩ := run_returns_iff.mpr ⟨reports, total, derivation, rfl, rfl⟩
    obtain ⟨left, count, -⟩ := run_returned run
    exact ⟨congrArg Database.positionReports left, by omega⟩
  · rintro ⟨rfl, rfl⟩
    obtain ⟨trace, db', total, run⟩ := @exists_return cutoff limit positive db 0
    obtain ⟨reports, deleted, derivation, left, count⟩ := run_returns_iff.mp ⟨trace, run⟩
    obtain ⟨rfl, rfl, -⟩ := run_returned run
    have same : db.positionReports.prune cutoff = reports := congrArg Database.positionReports left
    rw [same, count, Nat.zero_add]
    exact derivation

/-- Pruning is exact and terminates. Whichever rows the chunks pick, the loop makes one pass for
each full chunk and one more, cannot get stuck before, and returns the number of rows older than
the cutoff with just these rows gone; in between some of them are gone and nothing else. -/
theorem deleteOlderThan_exact (cutoff : Int) (limit : Nat) (positive : 0 < limit) (db : Database) :
    (∀ trace db' total, Run (PruneStep cutoff limit) (.deleting db 0) trace (.deleting db' total) →
      (∃ picked, picked ⊆ db.positionReports.olderThan cutoff ∧ picked.Nodup ∧ picked.length = total ∧
        db' = { db with positionReports := db.positionReports.delete picked }) ∧
      trace.length ≤ (db.positionReports.olderThan cutoff).length / limit ∧
      ∃ deleted s, PruneStep cutoff limit (.deleting db' total) deleted s) ∧
    (∀ trace db' total, Run (PruneStep cutoff limit) (.deleting db 0) trace (.returned db' total) →
      db' = { db with positionReports := db.positionReports.prune cutoff } ∧
      total = (db.positionReports.olderThan cutoff).length ∧
      trace.length = (db.positionReports.olderThan cutoff).length / limit + 1) ∧
    ∀ reports total, DeletesOlderThan cutoff limit db.positionReports reports total ↔
      reports = db.positionReports.prune cutoff ∧
        total = (db.positionReports.olderThan cutoff).length := by
  refine ⟨?_, fun trace db' total run => run_returned run,
    fun reports total => deletesOlderThan_iff positive⟩
  intro trace db' total run
  obtain ⟨picked, old, distinct, size, left⟩ := run_pruning run
  refine ⟨⟨picked, old, distinct, size, left⟩, ?_, ?_⟩
  · have passes : total = trace.length * limit := run_passes run
    have bound := (List.subperm_of_subset distinct old).length_le
    rw [Nat.le_div_iff_mul_le positive]
    omega
  · obtain ⟨reports, deleted, chunk⟩ := exists_deletesChunk cutoff limit db'.positionReports
    by_cases full : deleted = limit
    · exact ⟨deleted, _, .again db' reports deleted total chunk full⟩
    · exact ⟨deleted, _, .last db' reports deleted total chunk full⟩

/-- Two old reports and one without a time. -/
def mixedReports : PositionReports :=
  ((PositionReports.empty.insert { receivedAt := some 2 }).insert { receivedAt := none }).insert
    { receivedAt := some 1 }

/-- With chunks of one row the second pass is full as well, so there is a third. -/
theorem deleteOlderThan_exact_mixed :
    DeletesOlderThan 10 1 mixedReports (mixedReports.prune 10) 2 ∧
    (mixedReports.prune 10).rows = [{ receivedAt := none }] ∧
    ∃ trace db', Run (PruneStep 10 1) (.deleting ⟨mixedReports, .empty, .empty⟩ 0) trace
      (.returned db' 2) ∧ trace.length = 3 := by
  let db : Database := ⟨mixedReports, .empty, .empty⟩
  obtain ⟨-, returned, results⟩ := deleteOlderThan_exact 10 1 (by decide) db
  have pruned : DeletesOlderThan 10 1 mixedReports (mixedReports.prune 10) 2 :=
    (results (mixedReports.prune 10) 2).mpr ⟨rfl, rfl⟩
  obtain ⟨trace, run⟩ := (@run_returns_iff 10 1 0 2 db _).mpr ⟨_, _, pruned, rfl, (Nat.zero_add 2).symm⟩
  have passes : (mixedReports.olderThan 10).length / 1 + 1 = 3 := by decide
  exact ⟨pruned, rfl, trace, _, run, (returned trace _ 2 run).2.2.trans passes⟩

end SqliteWriter
end Ais
