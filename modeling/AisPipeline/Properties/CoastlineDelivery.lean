import AisPipeline.Properties.CoastlineGaps
import AisPipeline.Properties.CoastlineLoading
import AisPipeline.Properties.Simplification
import AisPipeline.Web.BuildCoastline

/-!
# From the files to the screen

What the build has written and the loader has read is what is drawn: of every
feature in the files, the segments with an end in the view rounded outwards to
whole degrees.
-/
namespace Ais.BuildCoastline

open Coastline Js Polyline Transition
open Cpp (Double)
open UseCoastline (Listed Loaded)

theorem consecutive_map {α β : Type*} (f : α → β) (vertices : List α) :
    consecutive (vertices.map f) = (consecutive vertices).map (Prod.map f f) := by
  rw [consecutive, consecutive, ← List.map_tail, List.zip_map]

/-! ### The line of a feature -/

section Simplified

variable {K D : Type} [LinearOrder D] [NatCast D]
  (distance : Double × Double → Double × Double → Double × Double → D)
  (forward : Double × Double → K × K)

/-- The line goes through some of the feature's points, both ends among them, and each point left
out is close to the two kept around it. -/
def Follows (numbers : List Double) (line : List (K × K)) : Prop :=
  ∃ keep : Fin (toPoints numbers).length → Bool,
    line = (kept (toPoints numbers) keep).map forward ∧
    (∀ i : Fin (toPoints numbers).length, i.val = 0 ∨ i.val + 1 = (toPoints numbers).length →
      keep i = true) ∧
    ∀ low high, Gaps.Gap (keptSet keep) low high →
      Close distance (toPoints numbers) (simplifyMetres : D) low high

/-- The simplification of a line comes to an end. -/
theorem lineOf_follows (numbers : List Double) :
    Follows distance forward numbers (lineOf distance forward numbers) := by
  obtain ⟨keep, found, ends, close⟩ :=
    simplifyBy_spec distance (toPoints numbers) (simplifyMetres : D)
  refine ⟨keep, ?_, ends, close⟩
  rw [lineOf, found _ le_rfl, Option.getD_some]

end Simplified

section Build

variable {K D : Type} [Field K] [LinearOrder K] [FloorRing K] [LinearOrder D] [NatCast D]
  (nearest : ℚ → Double)
  (distance : Double × Double → Double × Double → Double × Double → D)
  (forward : Double × Double → K × K)

/-! ### What is built -/

/-- The features of the files. -/
def features (inputs : List (String × List Text)) : List (List Double) :=
  inputs.flatMap fun input => (Gml.coastlines nearest input.1 input.2).yielded

/-- The runs of a line with their tiles, as they are written. -/
def stored (line : List (K × K)) : List (TileId × List (K × K)) :=
  (tilesOf line).map fun stored => (stored.1, stored.2.map roundPoint)

variable {nearest distance forward}

theorem foldl_addLine (read : List (List Double)) (tiles : Tiles K) :
    read.foldl (fun tiles numbers => addLine tiles (lineOf distance forward numbers)) tiles =
      Grouping.addAll tiles (read.flatMap fun numbers => stored (lineOf distance forward numbers)) := by
  induction read generalizing tiles with
  | nil => rfl
  | cons numbers read ih =>
    rw [List.foldl_cons, ih, addLine, List.flatMap_cons, Grouping.addAll_append, stored]

/-- The files are collected when none has a malformed feature. -/
theorem collect_eq_ok {inputs : List (String × List Text)} {tiles result : Tiles K} :
    collect nearest distance forward tiles inputs = .ok result ↔
      (∀ input ∈ inputs, (Gml.coastlines nearest input.1 input.2).error = none) ∧
        Grouping.addAll tiles ((features nearest inputs).flatMap fun numbers => stored (lineOf distance forward numbers)) = result := by
  induction inputs generalizing tiles with
  | nil => simp [collect, features, Grouping.addAll]
  | cons input inputs ih =>
    obtain ⟨path, chunks⟩ := input
    rw [collect]
    cases threw : (Gml.coastlines nearest path chunks).error with
    | some err => simp [threw]
    | none =>
      simp only [threw, ih, List.forall_mem_cons, true_and]
      rw [foldl_addLine, ← Grouping.addAll_append, ← List.flatMap_append, features, features,
        List.flatMap_cons]

theorem main_eq_ok {inputs : List (String × List Text)} {built : Output K}
    (ok : main nearest distance forward inputs = .ok built) :
    built.files = Grouping.addAll [] ((features nearest inputs).flatMap fun numbers => stored (lineOf distance forward numbers)) ∧
      ∀ id, id ∈ built.index ↔ id ∈ built.files.map Prod.fst := by
  rw [main] at ok
  split at ok
  · cases ok
  · cases collected : collect nearest distance forward [] inputs with
    | error err => rw [collected] at ok; cases ok
    | ok tiles =>
      rw [collected] at ok
      cases ok
      exact ⟨(collect_eq_ok.mp collected).2.symm, fun id => List.mem_mergeSort⟩

/-- The build fails only without files and on a malformed feature. -/
theorem exists_main {inputs : List (String × List Text)} (some_file : inputs ≠ [])
    (fine : ∀ input ∈ inputs, (Gml.coastlines nearest input.1 input.2).error = none) :
    ∃ built, main nearest distance forward inputs = .ok built := by
  rw [main, if_neg some_file, collect_eq_ok.mpr ⟨fine, rfl⟩]
  exact ⟨_, rfl⟩

/-- What is in a tile's file. -/
theorem mem_file {inputs : List (String × List Text)} {built : Output K}
    (ok : main nearest distance forward inputs = .ok built) {id : TileId} {run : List (K × K)} :
    run ∈ Grouping.group built.files id ↔
      ∃ numbers ∈ features nearest inputs, ∃ clipped,
        (id, clipped) ∈ tilesOf (lineOf distance forward numbers) ∧ clipped.map roundPoint = run := by
  rw [(main_eq_ok ok).1, Grouping.group_addAll]
  simp [Grouping.group, stored]

/-- The index lists the tiles with a run. -/
theorem mem_index {inputs : List (String × List Text)} {built : Output K}
    (ok : main nearest distance forward inputs = .ok built) {id : TileId} :
    id ∈ built.index ↔ Grouping.group built.files id ≠ [] := by
  have proper : Grouping.Proper built.files := by
    rw [(main_eq_ok ok).1]
    exact Grouping.proper_nil.addAll _
  rw [(main_eq_ok ok).2, proper.mem_keys]

theorem lookup_file {inputs : List (String × List Text)} {built : Output K}
    (ok : main nearest distance forward inputs = .ok built) {id : TileId} (listed : id ∈ built.index) :
    built.files.lookup id = some (Grouping.group built.files id) := by
  rw [mem_index ok, Grouping.group] at listed
  rw [Grouping.group]
  cases found : built.files.lookup id with
  | none => simp [found] at listed
  | some lines => rfl

/-! ### What is drawn -/

variable [IsStrictOrderedRing K]

/-- The segment is drawn. -/
def Draws (tiles : List (UseCoastline.CoastlineTile (List (List (K × K))))) (ends : (K × K) × (K × K)) :
    Prop :=
  ∃ tile ∈ tiles, ∃ run ∈ tile.data, ends ∈ consecutive run

/-- The coast on the screen. Where the index and the tiles that arrive are the files of one build,
every tile that is asked for has a file; and a view that shows no error has the rounded segments
of the features' lines with an end in the view rounded outwards, and nothing else, where a line
that merely touches the northern or eastern edge of the rounded view is left out. -/
theorem coast_delivered (inputs : List (String × List Text)) (built : Output K)
    (ok : main nearest distance forward inputs = .ok built) (trace : List UseCoastline.Event)
    (s : UseCoastline.State (List (List (K × K)))) (run : Run UseCoastline.Step {} trace s)
    (index : ∀ ids, Listed s ids → ids = built.index)
    (files : ∀ id data, Loaded s id data → built.files.lookup id = some data) :
    (∀ numbers ∈ features nearest inputs,
      Follows distance forward numbers (lineOf distance forward numbers)) ∧
    (∀ fetch ∈ s.tilePromises.fetches, ∃ lines, built.files.lookup fetch.key = some lines) ∧
    ∀ view : ViewBox K, view.south < view.north → view.west < view.east →
      s.state.key = coastlineTilesIn view → s.state.error = none →
      ∀ ends, Draws s.state.tiles ends ↔
        ∃ numbers ∈ features nearest inputs,
          ∃ segment ∈ consecutive (lineOf distance forward numbers),
            Prod.map roundPoint roundPoint segment = ends ∧
            (InDegrees view segment.1 ∨ InDegrees view segment.2) ∧
            Enters view (lineOf distance forward numbers) := by
  have kept := UseCoastline.run_kept run
  refine ⟨fun numbers _ => lineOf_follows distance forward numbers, ?_, ?_⟩
  · intro fetch member
    obtain ⟨ids, listed, inside⟩ := kept.listed fetch member
    rw [index ids listed] at inside
    exact ⟨_, lookup_file ok inside⟩
  intro view southNorth westEast key fine ends
  have some_key : s.state.key ≠ [] := by
    have corner : (⟨⌊view.south⌋, ⌊view.west⌋⟩ : TileId) ∈ coastlineTilesIn view :=
      mem_coastlineTilesIn.mpr ⟨⟨le_rfl, (Int.floor_le _).trans_lt southNorth⟩, le_rfl,
        (Int.floor_le _).trans_lt westEast⟩
    rw [key]
    exact List.ne_nil_of_mem corner
  obtain ⟨ids, listed, drawn⟩ := kept.shows_.drawn fine some_key
  rw [index ids listed, key] at drawn
  have data {tile : UseCoastline.CoastlineTile (List (List (K × K)))} (member : tile ∈ s.state.tiles) :
      tile.data = Grouping.group built.files tile.id := by
    rw [Grouping.group, files _ _ (kept.shows_.loaded tile member), Option.getD_some]
  constructor
  · rintro ⟨tile, member, run, in_tile, neighbours⟩
    rw [data member, mem_file ok] at in_tile
    obtain ⟨numbers, of_files, clipped, in_line, rfl⟩ := in_tile
    rw [consecutive_map, List.mem_map] at neighbours
    obtain ⟨segment, neighbours, rounded⟩ := neighbours
    have in_view : tile.id ∈ coastlineTilesIn view :=
      List.mem_of_mem_filter (drawn ▸ List.mem_map_of_mem member)
    obtain ⟨of_segment, anchored, enters⟩ :=
      (segment_stored_iff southNorth westEast segment).mp ⟨tile.id, in_view, clipped, in_line, neighbours⟩
    exact ⟨numbers, of_files, segment, of_segment, rounded, anchored, enters⟩
  · rintro ⟨numbers, of_files, segment, of_segment, rfl, anchored, enters⟩
    obtain ⟨id, in_view, clipped, in_line, neighbours⟩ :=
      (segment_stored_iff southNorth westEast segment).mpr ⟨of_segment, anchored, enters⟩
    have in_file : clipped.map roundPoint ∈ Grouping.group built.files id :=
      (mem_file ok).mpr ⟨numbers, of_files, clipped, in_line, rfl⟩
    have in_index : id ∈ built.index := (mem_index ok).mpr (List.ne_nil_of_mem in_file)
    have on_screen : id ∈ s.state.tiles.map UseCoastline.CoastlineTile.id := by
      rw [drawn]
      exact List.mem_filter.mpr ⟨in_view, by simpa using in_index⟩
    obtain ⟨tile, member, rfl⟩ := List.mem_map.mp on_screen
    refine ⟨tile, member, _, (data member).symm ▸ in_file, ?_⟩
    rw [consecutive_map]
    exact List.mem_map_of_mem neighbours

end Build

/-- One shore in one file, cut into two chunks. -/
def shore : List (String × List Text) :=
  [("N250.gml", [units "<app:Kystkontur ><gml:posList>1.5 1.5 2.5 1.5</gml:posList>",
    units "</app:Kystkontur>"])]

/-- A projection that leaves the coordinates as they are. -/
def identical (point : Double × Double) : ℚ × ℚ :=
  match point with
  | (.finite x, .finite y) => (x, y)
  | _ => (0, 0)

/-- A view in the middle of one tile. -/
def oneTile : ViewBox ℚ := ⟨5 / 4, 5 / 4, 7 / 4, 7 / 4⟩

private theorem tilesIn_oneTile : coastlineTilesIn oneTile = [⟨1, 1⟩] := by
  have corner : ⌊(5 / 4 : ℚ) / coastlineTileDegrees⌋ * coastlineTileDegrees = 1 := by
    norm_num [coastlineTileDegrees, Int.floor_eq_iff]
  have degrees : degreesBelow 1 (7 / 4 : ℚ) = [1] := by
    rw [degreesBelow, Counting.values, if_pos (by norm_num), Counting.values,
      if_neg (by norm_num [coastlineTileDegrees])]
  simp only [coastlineTilesIn, oneTile, corner, degrees]
  rfl

/-- A run that draws one listed tile. -/
private theorem exists_run_tile {T : Type} {id : TileId} {ids : List TileId} (inside : id ∈ ids)
    (data : T) :
    ∃ (trace : List UseCoastline.Event) (s : UseCoastline.State T), Run UseCoastline.Step {} trace s ∧
      s.state.key = [id] ∧ s.state.error = none ∧ (∀ listed, Listed s listed → listed = ids) ∧
      ∀ other found, Loaded s other found → other = id ∧ found = data := by
  have wanted : ([id].filter fun id => id ∈ ids) = [id] := by simpa using inside
  let asked : UseCoastline.State T :=
    { indexPromise := { fetches := [⟨(), .fulfilled ids⟩], cached := Function.update (fun _ => none) () (some 0) }
      rendered := [id]
      ran := [id]
      loads := [⟨[id], false, .index 0⟩]
      live := some 0 }
  have requests := UseCoastline.Step.requestsTiles asked 0 ⟨[id], false, .index 0⟩ 0 ids rfl rfl rfl
  rw [wanted] at requests
  have run : ∃ s : UseCoastline.State T, s.state.key = [id] ∧ s.state.error = none ∧
      s.indexPromise.fetches = [⟨(), .fulfilled ids⟩] ∧
      s.tilePromises.fetches = [⟨id, .fulfilled data⟩] ∧ Run UseCoastline.Step {}
        [.rendered [id], .ranEffects, .answered, .continued, .answered, .continued] s :=
    ⟨_, rfl, rfl, rfl, rfl, _, .renders _ [id], _, .runsEffects _ (List.cons_ne_nil id []),
      _, .indexArrives _ 0 ⟨(), .pending⟩ ids rfl rfl, _, requests,
      _, .tileArrives _ 0 ⟨id, .pending⟩ data rfl rfl,
      _, .draws _ 0 ⟨[id], false, .tiles [(id, 0)]⟩ _ [⟨id, data⟩] rfl rfl (.cons ⟨rfl, rfl⟩ .nil), rfl⟩
  obtain ⟨s, key, fine, index, tiles, run⟩ := run
  refine ⟨_, s, run, key, fine, ?_, ?_⟩
  · rintro listed ⟨i, arrived⟩
    obtain ⟨fetch, sent, value⟩ := PromiseCache.Cache.value?_eq_some_iff.mp arrived
    rw [index] at sent
    obtain rfl := List.mem_singleton.mp (List.mem_of_getElem? sent)
    exact (PromiseCache.Promise.fulfilled.inj value).symm
  · rintro other found ⟨i, fetch, sent, rfl, arrived⟩
    obtain ⟨same, sent', value⟩ := PromiseCache.Cache.value?_eq_some_iff.mp arrived
    obtain rfl := Option.some.inj (sent.symm.trans sent')
    rw [tiles] at sent
    obtain rfl := List.mem_singleton.mp (List.mem_of_getElem? sent)
    exact ⟨rfl, (PromiseCache.Promise.fulfilled.inj value).symm⟩

/-- The shore is on the screen. -/
theorem coast_delivered_shore :
    ∃ (built : Output ℚ) (s : UseCoastline.State (List (List (ℚ × ℚ)))),
      main Double.finite (fun _ _ _ => (0 : ℚ)) identical shore = .ok built ∧
        s.state.key = coastlineTilesIn oneTile ∧
        Draws s.state.tiles ((3 / 2, 3 / 2), (5 / 2, 3 / 2)) := by
  let flat (_ _ _ : Double × Double) : ℚ := 0
  have fine : ∀ input ∈ shore, (Gml.coastlines Double.finite input.1 input.2).error = none := by
    decide +kernel
  obtain ⟨built, ok⟩ : ∃ built, main Double.finite flat identical shore = .ok built :=
    exists_main (List.cons_ne_nil _ _) fine
  have read : features Double.finite shore =
      [[.finite (3 / 2), .finite (3 / 2), .finite (5 / 2), .finite (3 / 2)]] := by decide +kernel
  have of_files : [.finite (3 / 2), .finite (3 / 2), .finite (5 / 2), .finite (3 / 2)] ∈
      features Double.finite shore := read ▸ List.mem_singleton_self _
  have line : lineOf flat identical
      [.finite (3 / 2), .finite (3 / 2), .finite (5 / 2), .finite (3 / 2)] =
        [((3 / 2 : ℚ), 3 / 2), (5 / 2, 3 / 2)] := rfl
  have southNorth : oneTile.south < oneTile.north := by norm_num [oneTile]
  have westEast : oneTile.west < oneTile.east := by norm_num [oneTile]
  have anchored : InDegrees oneTile (3 / 2, 3 / 2) := by norm_num [InDegrees, oneTile]
  have enters : Enters oneTile [((3 / 2 : ℚ), 3 / 2), (5 / 2, 3 / 2)] := by
    norm_num [Enters, oneTile]
  -- the tile is in the index, and a loader that has read it draws it
  obtain ⟨id, in_view, clipped, in_line, neighbours⟩ :=
    (segment_stored_iff southNorth westEast ((3 / 2, 3 / 2), (5 / 2, 3 / 2))).mpr
      ⟨List.mem_singleton_self _, .inl anchored, enters⟩
  rw [tilesIn_oneTile, List.mem_singleton] at in_view
  subst in_view
  have in_file := (mem_file ok).mpr ⟨_, of_files, clipped, line ▸ in_line, rfl⟩
  have in_index := (mem_index ok).mpr (List.ne_nil_of_mem in_file)
  obtain ⟨trace, s, run, key, shown, listed, loaded⟩ :=
    exists_run_tile in_index (Grouping.group built.files ⟨1, 1⟩)
  rw [← tilesIn_oneTile] at key
  have files (other : TileId) (data : List (List (ℚ × ℚ))) (found : Loaded s other data) :
      built.files.lookup other = some data := by
    obtain ⟨rfl, rfl⟩ := loaded other data found
    exact lookup_file ok in_index
  have rounded : Prod.map roundPoint roundPoint (((3 / 2 : ℚ), (3 / 2 : ℚ)), ((5 / 2 : ℚ), (3 / 2 : ℚ))) =
      ((3 / 2, 3 / 2), (5 / 2, 3 / 2)) := by decide +kernel
  have segment : ((3 / 2, 3 / 2), (5 / 2, 3 / 2)) ∈ consecutive (lineOf flat identical
      [.finite (3 / 2), .finite (3 / 2), .finite (5 / 2), .finite (3 / 2)]) :=
    line ▸ List.mem_singleton_self _
  have delivered := coast_delivered shore built ok trace s run listed files
  exact ⟨built, s, ok, key, (delivered.2.2 oneTile southNorth westEast key shown _).mpr
    ⟨_, of_files, _, segment, rounded, .inl anchored, line ▸ enters⟩⟩

end Ais.BuildCoastline
