import AisPipeline.Properties.NavigationRanges
import AisPipeline.Properties.RadarDisplay
import AisPipeline.Web.RadarBlips

/-!
# One icon for each look

The icons are kept under a text made of what they depend on, so that a blip is
drawn with the icon it would get without the cache, blips that look alike have
the same one for good, and there are never more than the source says.
-/
namespace Ais.RadarBlips

open Cpp (Bytes)
open Js

/-! ### The text of a look -/

private theorem category_text {category : BlipCategory} {c : UInt16} (member : c ∈ category.text) :
    c ≠ 124 := by
  have all : (category.text.all fun c => c ≠ 124) = true := by cases category <;> decide
  simpa using List.all_eq_true.mp all c member

private theorem category_injective {first second : BlipCategory} (same : first.text = second.text) :
    first = second := by
  cases first <;> cases second <;> first | rfl | exact absurd same (by decide)

private def direction (snapped : Option Int) : Text :=
  match snapped with
  | some snapped => integerText snapped
  | none => units "dot"

private theorem direction_text {snapped : Option Int} {c : UInt16} (member : c ∈ direction snapped) :
    c ≠ 124 := by
  cases snapped with
  | none =>
    have all : ((units "dot").all fun c => c ≠ 124) = true := by decide
    simpa using List.all_eq_true.mp all c member
  | some snapped =>
    rintro rfl
    exact absurd (low_of_mem_integerText member) (by decide)

private theorem direction_injective {first second : Option Int} (same : direction first = direction second) :
    first = second := by
  have apart {n : Int} : integerText n ≠ units "dot" := by
    intro same
    have member : 100 ∈ integerText n := same ▸ List.mem_cons_self
    exact absurd (low_of_mem_integerText member) (by decide)
  cases first with
  | none =>
    cases second with
    | none => rfl
    | some m => exact absurd same.symm apart
  | some n =>
    cases second with
    | none => exact absurd same apart
    | some m => rw [integerText_injective same]

private theorem flag_text {b : Bool} {c : UInt16} (member : c ∈ Look.flag b) : c ≠ 124 := by
  have all : ((Look.flag b).all fun c => c ≠ 124) = true := by cases b <;> decide
  simpa using List.all_eq_true.mp all c member

private theorem flag_injective {first second : Bool} (same : Look.flag first = Look.flag second) :
    first = second := by
  cases first <;> cases second <;> first | rfl | exact absurd same (by decide)

/-- The parts of a text up to a bar and behind it can be told. -/
private theorem bar_injective {before before' after after' : Text} (absent : ∀ c ∈ before, c ≠ 124)
    (absent' : ∀ c ∈ before', c ≠ 124) (same : before ++ 124 :: after = before' ++ 124 :: after') :
    before = before' ∧ after = after' := by
  have cut := congrArg (cutAt fun c => c = 124) same
  rw [cutAt_some (fun c member => decide_eq_false (absent c member)) (decide_eq_true rfl),
    cutAt_some (fun c member => decide_eq_false (absent' c member)) (decide_eq_true rfl)] at cut
  exact ⟨congrArg Prod.fst cut, Option.some.inj (congrArg Prod.snd cut)⟩

private theorem Look.key_eq (look : Look) :
    look.key = look.category.text ++ 124 :: (direction look.snapped ++ 124 :: (Look.flag look.stale ++
      124 :: Look.flag look.selected)) := by
  have bar : units "|" = [124] := rfl
  simp only [Look.key, bar, List.append_assoc, List.singleton_append]
  rfl

theorem Look.key_injective : Function.Injective Look.key := by
  intro look look' same
  rw [look.key_eq, look'.key_eq] at same
  obtain ⟨category, same⟩ := bar_injective (fun _ => category_text) (fun _ => category_text) same
  obtain ⟨snapped, same⟩ := bar_injective (fun _ => direction_text) (fun _ => direction_text) same
  obtain ⟨stale, selected⟩ := bar_injective (fun _ => flag_text) (fun _ => flag_text) same
  exact Look.ext (category_injective category) (direction_injective snapped) (flag_injective stale)
    (flag_injective selected)

/-! ### Directions -/

/-- The arrow points within two and a half degrees of the bearing. -/
theorem snap_close (bearing : ℚ) : ∃ turns : ℤ, |bearing - (snap bearing + 360 * turns)| ≤ 5 / 2 := by
  -- whole turns drop out, and rounding is off by half a step at most
  let steps : ℚ := bearing / bearingStepDegrees + 1 / (2 : Nat)
  let step : ℤ := ⌊steps⌋
  refine ⟨(step * bearingStepDegrees).tdiv 360, ?_⟩
  have whole : (snap bearing : ℚ) + 360 * ((step * bearingStepDegrees).tdiv 360 : ℤ) = step * 5 := by
    have divided := Int.tmod_add_mul_tdiv (step * bearingStepDegrees) 360
    exact_mod_cast divided
  have low : (step : ℚ) ≤ steps := Int.floor_le steps
  have high : steps < step + 1 := Int.lt_floor_add_one steps
  have fifth : steps = bearing / 5 + 1 / 2 := by
    rw [show steps = bearing / (5 : Nat) + 1 / (2 : Nat) from rfl]
    push_cast
    rfl
  rw [whole, abs_le]
  constructor
  · linarith
  · linarith

/-- The arrow is turned by one of 72 angles. -/
@[irreducible] def angles : Finset Int := (Finset.range 72).image fun n : Nat => 5 * (n : Int)

theorem snap_mem_angles {bearing : ℚ} (forward : 0 ≤ bearing) : snap bearing ∈ angles := by
  have positive : 0 ≤ ⌊bearing / bearingStepDegrees + 1 / (2 : Nat)⌋ := by
    apply Int.floor_nonneg.mpr
    positivity
  obtain ⟨step, same⟩ := Int.eq_ofNat_of_zero_le positive
  rw [snap, same, bearingStepDegrees, angles, Finset.mem_image]
  refine ⟨step % 72, Finset.mem_range.mpr (Nat.mod_lt _ (by decide)), ?_⟩
  rw [Int.tmod_eq_emod_of_nonneg (by omega)]
  omega

/-! ### The icons that are made -/

/-- The ship has no bearing, or one that the arrow can point to. -/
def Look.Turned (look : Look) : Prop := ∀ snapped ∈ look.snapped, snapped ∈ angles

def categories : Finset BlipCategory :=
  {.passenger, .cargo, .tanker, .fishing, .service, .leisure, .other, .unknown}

private theorem mem_categories (category : BlipCategory) : category ∈ categories := by
  cases category <;> decide

def looks : Finset Look :=
  (categories ×ˢ Finset.insertNone angles ×ˢ (Finset.univ : Finset Bool) ×ˢ (Finset.univ : Finset Bool)).image
    fun parts => ⟨parts.1, parts.2.1, parts.2.2.1, parts.2.2.2⟩

/-- As many as the source says: 8 categories, 72 bearings and a dot, stale or not, selected or not. -/
theorem card_looks : looks.card ≤ 8 * (72 + 1) * 2 * 2 := by
  refine Finset.card_image_le.trans ?_
  have turned : (Finset.insertNone angles).card ≤ 72 + 1 := by
    rw [Finset.card_insertNone, angles]
    exact Nat.succ_le_succ (Finset.card_image_le.trans (Finset.card_range 72).le)
  rw [Finset.card_product, Finset.card_product, Finset.card_product]
  have count : categories.card = 8 := rfl
  have flags : (Finset.univ : Finset Bool).card = 2 := rfl
  rw [count, flags]
  omega

theorem Look.Turned.mem_looks {look : Look} (turned : look.Turned) : look ∈ looks := by
  have direction : look.snapped ∈ Finset.insertNone angles := Finset.mem_insertNone.mpr turned
  rw [looks, Finset.mem_image]
  refine ⟨(look.category, look.snapped, look.stale, look.selected), ?_, rfl⟩
  simp only [Finset.mem_product, Finset.mem_univ, and_true]
  exact ⟨mem_categories look.category, direction⟩

/-! ### A rendering -/

/-- What the icon of a record depends on. -/
def lookOf (props : Props) (record : PositionRecord) : Look where
  category := categoryOf record
  snapped := (bearingOf record).map snap
  stale := isStale record props.now
  selected := props.selects record

/-- The marker of a record, with the icon made for its look. -/
structure Shows (props : Props) (record : PositionRecord) (cache : IconCache) (marker : Marker) : Prop where
  key : marker.key = record.report.mmsi
  latitude : record.report.latitude = some marker.position.1
  longitude : record.report.longitude = some marker.position.2
  icon : cache.Holds marker.icon (lookOf props record).key (lookOf props record).icon
  above : marker.zIndexOffset = if props.selects record then 1000 else 0
  title : marker.title = displayName record
  points : ∀ bearing ∈ bearingOf record, ∃ snapped ∈ (lookOf props record).snapped,
    ∃ turns : ℤ, |bearing - (snapped + 360 * turns)| ≤ 5 / 2

theorem shows_lasting (props : Props) (record : PositionRecord) : Memo.Lasting (Shows props record) :=
  fun grows shows => { shows with icon := grows.holds shows.icon }

/-- The cache of a page that has asked for such icons only. -/
def Kept (cache : IconCache) : Prop := Memo.Sound Look.key Look.icon Look.Turned cache

theorem Kept.length_le {cache : IconCache} (kept : Kept cache) : cache.built.length ≤ 8 * (72 + 1) * 2 * 2 := by
  have few : ∀ look : Look, look.Turned → look.key ∈ looks.image Look.key := by
    intro look turned
    have member := turned.mem_looks
    exact Finset.mem_image_of_mem Look.key member
  exact (Memo.Sound.length_le kept (looks.image Look.key) few).trans (Finset.card_image_le.trans card_looks)

theorem marker_yields {props : Props} {record : PositionedRecord} (turned : (lookOf props record).Turned) :
    Memo.Yields Kept (marker props record) (Shows props record) := by
  let look := lookOf props record
  have icon : Memo.Yields Kept (Memo.request look.key look.icon) fun cache place =>
      cache.Holds place look.key look.icon :=
    Memo.request_yields (fun _ _ _ _ same => congrArg Look.icon (Look.key_injective same)) turned
  exact icon.map (fun place => (⟨record.val.report.mmsi, record.position, place,
    if props.selects record then 1000 else 0, displayName record⟩ : Marker)) fun cache place holds =>
      { key := rfl
        latitude := (Option.some_get _).symm
        longitude := (Option.some_get _).symm
        icon := holds
        above := rfl
        title := rfl
        points := fun bearing found => by
          refine ⟨snap bearing, ?_, snap_close bearing⟩
          rw [lookOf, Option.mem_def.mp found]
          rfl }

theorem radarBlips_yields {props : Props} (turned : ∀ record ∈ props.records, (lookOf props record).Turned) :
    Memo.Yields Kept (radarBlips props) fun cache markers =>
      List.Forall₂ (fun record : PositionedRecord => Shows props record cache) props.records markers :=
  Memo.Yields.mapM (fun record => shows_lasting props record) fun record member =>
    marker_yields (turned record member)

theorem renderings_yields {renders : List Props}
    (turned : ∀ props ∈ renders, ∀ record ∈ props.records, (lookOf props record).Turned) :
    Memo.Yields Kept (renderings renders) fun cache drawn =>
      List.Forall₂ (fun props markers =>
        List.Forall₂ (fun record : PositionedRecord => Shows props record cache) props.records markers)
        renders drawn :=
  Memo.Yields.mapM (fun _ _ _ _ grows shown =>
      shown.imp fun _ _ shows => shows_lasting _ _ grows shows)
    fun props member => radarBlips_yields (turned props member)

/-! ### The bearings of the feed -/

/-- Course and heading are not below zero. -/
def Forward (report : PositionReport) : Prop :=
  (∀ cog ∈ report.cog, 0 ≤ cog) ∧ ∀ heading ∈ report.trueHeading, 0 ≤ heading.toInt

private theorem forward_of_shows {report : PositionReport} {raw : RawNavigation} (shown : report.Shows raw) :
    Forward report := by
  constructor
  · intro cog sent
    rw [shown.cog] at sent
    split at sent
    · cases sent
    · cases sent
      positivity
  · intro heading sent
    have same := shown.trueHeading
    rw [sent, Option.map_some] at same
    split at same
    · cases same
    · have value := Option.some.inj same
      omega

private theorem forward_of_messageAt {payload : Payload} {report : PositionReport}
    (decoded : messageAt payload = some (.positionReport report)) : Forward report := by
  rw [messageAt] at decoded
  split at decoded
  · cases decoded
  split at decoded
  · split at decoded
    · cases decoded
    · cases decoded
      exact forward_of_shows (positionReportAt_shows payload)
  split at decoded
  · split at decoded <;> cases decoded
  split at decoded
  · split at decoded
    · cases decoded
    · cases decoded
      exact forward_of_shows (classBPositionReportAt_shows payload)
  · grind

/-! ### The ships of the page -/

open Display PolledSource Process Transition

theorem turned_of_serves {lines : List Bytes} {messages : List AisMessage} {mmsi : Int} {record : PositionRecord}
    (heard : messages <+: Pipeline.messagesOf lines) (serves : Serves messages mmsi record) (props : Props) :
    (lookOf props record).Turned := by
  obtain ⟨report, sent, -, same⟩ := serves.exists_report
  obtain ⟨payload, decoded⟩ := Pipeline.exists_payload_of_mem_messagesOf (heard.subset sent)
  obtain ⟨cog, heading⟩ := forward_of_messageAt decoded
  intro snapped turned
  obtain ⟨bearing, found, rfl⟩ := Option.map_eq_some_iff.mp (Option.mem_def.mp turned)
  apply snap_mem_angles
  rw [bearingOf, same] at found
  split at found
  · cases found
  · rcases Option.or_eq_some_iff.mp found with ahead | ⟨-, over_ground⟩
    · obtain ⟨degrees, sent, rfl⟩ := Option.map_eq_some_iff.mp ahead
      exact_mod_cast heading degrees sent
    · exact cog bearing over_ground

/-- React finds each marker again by its key. -/
theorem keys_nodup {messages : List AisMessage} {ships : List Int} {records : List PositionRecord}
    (distinct : ships.Nodup) (serves : List.Forall₂ (Serves messages) ships records) :
    (records.map fun record => record.report.mmsi).Nodup := by
  -- the number of a ship can be read off its record
  have own : (records.map fun record => record.report.mmsi).map (fun mmsi => mmsi.toInt32.toInt) = ships := by
    induction serves with
    | nil => rfl
    | cons first rest ih =>
      obtain ⟨report, -, mmsi, same⟩ := first.exists_report
      rw [List.map_cons, List.map_cons, ih (List.nodup_cons.mp distinct).2, same]
      exact congrArg (· :: _) mmsi
  rw [← own] at distinct
  exact distinct.of_map _

private theorem keys_eq {props : Props} {cache : IconCache} {records : List PositionRecord} {markers : List Marker}
    (shown : List.Forall₂ (fun record marker => Shows props record cache marker) records markers) :
    (records.map fun record => record.report.mmsi) = markers.map Marker.key := by
  induction shown with
  | nil => rfl
  | cons first _ ih => rw [List.map_cons, List.map_cons, ih, first.key]

/-- A rendering of the map at some moment, and what the page is set to. -/
structure Render where
  moment : Nat
  centre : RadarCentre
  rangeNm : ℝ
  now : Int
  selectedMmsi : Option Int

section

variable (cosDegrees : ℝ → ℝ) (states : Nat → Display)

noncomputable def Render.visible (render : Render) : List PositionRecord :=
  Radar.visible cosDegrees render.centre render.rangeNm (states render.moment).page.state.records

noncomputable def Render.props (render : Render) : Props where
  records := (render.visible cosDegrees states).attachWith _ fun _ member =>
    (List.mem_filter.mp (List.mem_of_mem_filter member)).2
  now := render.now
  selectedMmsi := render.selectedMmsi

end

variable {cosDegrees : ℝ → ℝ} {client : TcpClient} {capacity1 capacity2 : Nat} {labels : List Display.Event}
  {states : Nat → Display}

private theorem map_props_records (render : Render) :
    (render.props cosDegrees states).records.map Subtype.val = render.visible cosDegrees states := by
  rw [Render.props, List.map_attachWith]
  exact List.attach_map_subtype_val _

/-- The records on the page are of ships of the feed at some moment, one each. -/
theorem exists_read (start : states 0 = Display.initial capacity1 capacity2)
    (along : Along (Display.Step client) states labels)
    (ordered : ((committedBy labels labels.length).map Prod.fst).Pairwise (· ≤ ·)) :
    ∃ read : Nat → Nat, Monotone read ∧ ∀ k ≤ labels.length,
      read k ≤ k ∧
      sentBy labels (read k) <+: Pipeline.messagesOf (receivedBy labels (read k)) ∧
      (∀ record ∈ (states k).page.state.records, ∃ mmsi, Serves (sentBy labels (read k)) mmsi record) ∧
      ((states k).page.state.records.map fun record => record.report.mmsi).Nodup := by
  obtain ⟨read, monotone, reads⟩ := reads_along (usePositions_shows client) start along
  refine ⟨read, monotone, fun k within => ?_⟩
  have shown := reads k within
  obtain ⟨heard, ships, distinct, -, serves⟩ := serves_along start along ordered (shown.past.trans within)
  refine ⟨shown.past, heard, ?_⟩
  rcases shown.display with blank | ⟨deps, records, rfl, same⟩
  · rw [blank]
    exact ⟨fun record member => absurd member List.not_mem_nil, List.nodup_nil⟩
  · have fewer : (states k).page.state.records.Sublist
        (PositionReader.latestPositions (states (read k)).source.writer.connection.stored) := by
      rw [same, PositionReader.positionsInArea_eq]
      exact List.filter_sublist
    refine ⟨fun record member => ?_, (keys_nodup distinct serves).sublist (fewer.map _)⟩
    exact exists_ship serves (fewer.subset member)

/-- In every run of the pipeline, the API and the page, as long as the clock is not set back from one
batch to the next, and however often the page is drawn, at whatever moments, for whatever ring, clock
and selection: each marker shows a ship the feed has sent, with the icon made for its look, although
the icon may have been made for another ship long before. Blips have the same icon exactly if they look
alike, no more icons are made than the source says, and no two markers have the same key. -/
theorem blips_follow_feed (cosDegrees : ℝ → ℝ) (client : TcpClient) (capacity1 capacity2 : Nat)
    (labels : List Display.Event) (states : Nat → Display)
    (start : states 0 = Display.initial capacity1 capacity2)
    (along : Along (Display.Step client) states labels)
    (ordered : ((committedBy labels labels.length).map Prod.fst).Pairwise (· ≤ ·)) (renders : List Render)
    (within : ∀ render ∈ renders, render.moment ≤ labels.length) :
    ∃ read : Nat → Nat, Monotone read ∧ (∀ k ≤ labels.length, read k ≤ k) ∧
      ∃ (drawn : List (List Marker)) (cache : IconCache),
        renderings (renders.map (Render.props cosDegrees states)) {} = (drawn, cache) ∧
        cache.built.length ≤ 8 * (72 + 1) * 2 * 2 ∧
        (∀ i j (look look' : Look), cache.Holds i look.key look.icon → cache.Holds j look'.key look'.icon →
          (i = j ↔ look = look')) ∧
        List.Forall₂ (fun render markers => (markers.map Marker.key).Nodup ∧
          List.Forall₂ (fun record marker =>
            (∃ mmsi, Serves (sentBy labels (read render.moment)) mmsi record) ∧
              Shows (render.props cosDegrees states) record cache marker)
            (render.visible cosDegrees states) markers) renders drawn := by
  obtain ⟨read, monotone, reads⟩ := exists_read start along ordered
  refine ⟨read, monotone, fun k within => (reads k within).1, ?_⟩
  have of_ship : ∀ render ∈ renders, ∀ record ∈ render.visible cosDegrees states,
      ∃ mmsi, Serves (sentBy labels (read render.moment)) mmsi record := by
    intro render member record seen
    exact (reads render.moment (within render member)).2.2.1 record
      (List.mem_of_mem_filter (List.mem_of_mem_filter seen))
  have turned : ∀ props ∈ renders.map (Render.props cosDegrees states), ∀ record ∈ props.records,
      (lookOf props record).Turned := by
    intro props made record member
    obtain ⟨render, member', rfl⟩ := List.mem_map.mp made
    have seen : record.val ∈ render.visible cosDegrees states := by
      rw [← map_props_records]
      exact List.mem_map_of_mem member
    obtain ⟨mmsi, serves⟩ := of_ship render member' record.val seen
    exact turned_of_serves (reads render.moment (within render member')).2.1 serves _
  -- one run through the cache gives all three: it stays sound, and each marker has its icon
  obtain ⟨kept, -, shown⟩ := renderings_yields turned {} Memo.sound_empty
  refine ⟨_, _, rfl, ?_, fun i j look look' holds holds' => ?_, ?_⟩
  · exact kept.length_le
  · rw [Memo.Sound.same_iff kept holds holds', Look.key_injective.eq_iff]
  · have all : ∀ render ∈ renders, (∀ record ∈ render.visible cosDegrees states,
          ∃ mmsi, Serves (sentBy labels (read render.moment)) mmsi record) ∧
        ((render.visible cosDegrees states).map fun record => record.report.mmsi).Nodup := by
      intro render member
      have fewer : (render.visible cosDegrees states).Sublist (states render.moment).page.state.records :=
        List.filter_sublist.trans List.filter_sublist
      exact ⟨of_ship render member,
        (reads render.moment (within render member)).2.2.2.sublist (fewer.map _)⟩
    have each := (List.forall₂_and_left _ _).mpr ⟨all, List.forall₂_map_left_iff.mp shown⟩
    refine each.imp fun render markers ⟨⟨ships, keys⟩, shows⟩ => ?_
    have shows_each := List.forall₂_map_left_iff (f := Subtype.val)
      (R := fun record marker => Shows (render.props cosDegrees states) record _ marker).mpr shows
    rw [map_props_records] at shows_each
    exact ⟨keys_eq shows_each ▸ keys, (List.forall₂_and_left _ _).mpr ⟨ships, shows_each⟩⟩

/-- The ship that sent the report moves, and its type is not known. -/
private theorem lookOf_report (render : Render) (recent : render.now ≤ 300000) :
    lookOf (render.props cosDegrees states) Display.reportRecord =
      ⟨.unknown, some 40, false, (some 265547250 : Option Int) = render.selectedMmsi⟩ := by
  have heading : (bearingOf Display.reportRecord).map snap = some 40 := by decide +kernel
  have fresh : isStale Display.reportRecord render.now = false := by
    have age : (render.now : ℚ) ≤ 300000 := by exact_mod_cast recent
    rw [isStale, ageInSeconds, decide_eq_false_iff_not, not_lt, App.staleAfterSeconds]
    simp only [Display.reportRecord, zero_mul, sub_zero]
    linarith
  rw [lookOf, heading]
  exact Look.ext rfl rfl fresh rfl

/-- A page drawn twice after a poll, with one icon for both blips of the ship, and again when its ship
has been selected, with another. -/
theorem blips_follow_feed_report :
    ∃ (labels : List Display.Event) (states : Nat → Display) (renders : List Render)
      (first second selected : Marker) (cache : IconCache),
      Along (Display.Step ({} : Config).client) states labels ∧
      sentBy labels labels.length = [.positionReport reportSent] ∧
      renderings (renders.map (Render.props Radar.exactCosDegrees states)) {} =
        ([[first], [second], [selected]], cache) ∧
      first.key = 265547250 ∧ first.icon = second.icon ∧ second.icon ≠ selected.icon ∧
      cache.built.length ≤ 8 * (72 + 1) * 2 * 2 := by
  obtain ⟨labels, states, start, along, ordered, sent, state, -⟩ := Display.exists_run_report_poll 5
  let early : Render :=
    { moment := labels.length, centre := ⟨58, 12⟩, rangeNm := 60, now := 10000, selectedMmsi := none }
  let later : Render := { early with now := 20000 }
  let chosen : Render := { later with selectedMmsi := some 265547250 }
  obtain ⟨read, -, -, drawn, cache, made, few, alike, shown⟩ := blips_follow_feed Radar.exactCosDegrees
    ({} : Config).client 500 500 labels states start along ordered [early, later, chosen]
    (by simp [early, later, chosen])
  -- every drawing shows the one ship
  have single (render : Render) (after : render.moment = labels.length) (centre : render.centre = ⟨58, 12⟩)
      (range : render.rangeNm = 60) {markers : List Marker}
      (each : List.Forall₂ (fun record marker =>
        (∃ mmsi, Serves (sentBy labels (read render.moment)) mmsi record) ∧
          Shows (render.props Radar.exactCosDegrees states) record cache marker)
        (render.visible Radar.exactCosDegrees states) markers) :
      ∃ marker, markers = [marker] ∧
        Shows (render.props Radar.exactCosDegrees states) Display.reportRecord cache marker := by
    rw [Render.visible, after, centre, range, state, Display.visible_report] at each
    obtain ⟨marker, more, ⟨-, shows⟩, nothing, rfl⟩ := List.forall₂_cons_left_iff.mp each
    obtain rfl := List.forall₂_nil_left_iff.mp nothing
    exact ⟨marker, rfl, shows⟩
  rcases shown with - | ⟨⟨-, one⟩, - | ⟨⟨-, two⟩, - | ⟨⟨-, three⟩, nothing⟩⟩⟩
  cases nothing
  obtain ⟨first, rfl, shows_first⟩ := single early rfl rfl rfl one
  obtain ⟨second, rfl, shows_second⟩ := single later rfl rfl rfl two
  obtain ⟨selected, rfl, shows_selected⟩ := single chosen rfl rfl rfl three
  have just : (10000 : Int) ≤ 300000 := by decide
  have soon : (20000 : Int) ≤ 300000 := by decide
  have same : first.icon = second.icon := by
    rw [alike _ _ _ _ shows_first.icon shows_second.icon, lookOf_report early just, lookOf_report later soon]
  have other : second.icon ≠ selected.icon := by
    rw [Ne, alike _ _ _ _ shows_second.icon shows_selected.icon, lookOf_report later soon,
      lookOf_report chosen soon]
    simp [early, later, chosen]
  exact ⟨labels, states, _, first, second, selected, cache, along, sent, made, shows_first.key, same, other, few⟩

end Ais.RadarBlips
