import AisPipeline.Web.UseRadarView
import Mathlib.Tactic.Linarith

/-!
# A view survives a reload

What is written to the URL is read back as the same range and the same place to
five decimals, and from then on it no longer changes; the rest of the query is
left alone.
-/
namespace Ais.UseRadarView

open Js Transition
open Cpp (Double)

/-- What is used of rounding to doubles. -/
structure Rounds (nearest : ℚ → Double) (rounded : ℚ → ℚ) : Prop where
  finite : ∀ q, |q| ≤ 2 ^ 53 → nearest q = .finite (rounded q)
  only : ∀ q d, nearest q = .finite d → d = rounded q
  monotone : Monotone rounded
  whole : ∀ n : ℤ, |(n : ℚ)| ≤ 2 ^ 53 → rounded n = n
  close : ∀ q, |q| ≤ 256 → |rounded q - q| ≤ 1 / 10 ^ 6

variable {nearest : ℚ → Double} {rounded : ℚ → ℚ}

/-! ### Numbers -/

/-- A coordinate after a reload. -/
def reread (nearest : ℚ → Double) : Double → Double
  | .finite value => nearest (fixed 5 value)
  | .infinite negative => .infinite negative
  | .nan => .nan

theorem number_toFixed5 (value : Double) : number nearest (toFixed5 value) = reread nearest value := by
  cases value with
  | finite value => exact number_toFixed nearest 5 value
  | infinite negative => cases negative <;> rfl
  | nan => rfl

theorem number_wholeText (n : Nat) : number nearest (wholeText n) = nearest n := by
  have read := @number_numeral nearest false (Numeral.write 10 n) [] (Numeral.write_ne_nil 10 n)
    (by simpa using fun d member => Numeral.lt_of_mem_write (by decide) member)
  simpa [wholeText] using read

/-- A number close to five decimals has these decimals. -/
theorem scaledTo_of_close {value : ℚ} {n : Nat} (close : |value - n / 10 ^ 5| ≤ 1 / 10 ^ 6) :
    scaledTo 5 value = n := by
  obtain ⟨low, high⟩ := abs_le.mp close
  have floor : ⌊value * (10 ^ 5 : Nat) + 1 / (2 : Nat)⌋ = n := by
    rw [Int.floor_eq_iff]
    push_cast
    constructor
    · linarith
    · linarith
  rw [scaledTo, floor, Int.toNat_natCast]

/-- A number close to one with five decimals is written as that one. -/
theorem fixed_of_close {written value : ℚ} {n : Nat} (positive : 0 < n) (size : |written| = n / 10 ^ 5)
    (close : |value - written| ≤ 1 / 10 ^ 6) : fixed 5 value = written := by
  have least : (1 : ℚ) ≤ n := by exact_mod_cast positive
  obtain ⟨low, high⟩ := abs_le.mp close
  rcases lt_or_ge written 0 with below | above
  · rw [abs_of_neg below] at size
    have value_below : value < 0 := by linarith
    have scaled : scaledTo 5 |value| = n := by
      apply scaledTo_of_close
      rw [abs_of_neg value_below, ← size, abs_le]
      constructor
      · linarith
      · linarith
    rw [fixed, if_pos value_below, scaled, ← size, neg_neg]
  · rw [abs_of_nonneg above] at size
    have value_above : 0 ≤ value := by linarith
    have scaled : scaledTo 5 |value| = n := by
      apply scaledTo_of_close
      rwa [abs_of_nonneg value_above, ← size]
    rw [fixed, if_neg (not_lt.mpr value_above), scaled, size]

theorem abs_fixed (x : ℚ) : |fixed 5 x| = (scaledTo 5 |x| : ℚ) / 10 ^ 5 := by
  have size : (0 : ℚ) ≤ (scaledTo 5 |x| : ℚ) / 10 ^ 5 := by positivity
  rw [fixed]
  split
  · rw [abs_neg, abs_of_nonneg size]
  · exact abs_of_nonneg size

/-- What is read back of five decimals is written as them again. -/
theorem fixed_rounded (rounds : Rounds nearest rounded) {x : ℚ} (bound : |fixed 5 x| ≤ 256) :
    fixed 5 (rounded (fixed 5 x)) = fixed 5 x := by
  rcases Nat.eq_zero_or_pos (scaledTo 5 |x|) with none_left | positive
  · have zero : fixed 5 x = 0 := by
      rw [← abs_eq_zero, abs_fixed, none_left, Nat.cast_zero, zero_div]
    have kept : rounded 0 = 0 := by exact_mod_cast rounds.whole 0 (by norm_num)
    rw [zero, kept]
    decide +kernel
  · exact fixed_of_close positive (abs_fixed x) (rounds.close _ bound)

theorem scaledTo_nonneg {x : ℚ} (nonneg : 0 ≤ x) : (scaledTo 5 x : ℤ) = ⌊x * (10 ^ 5 : Nat) + 1 / (2 : Nat)⌋ := by
  have above : 0 ≤ ⌊x * (10 ^ 5 : Nat) + 1 / (2 : Nat)⌋ := Int.floor_nonneg.mpr (by positivity)
  rw [scaledTo, Int.toNat_of_nonneg above]

/-- Five decimals are at most half a unit of the last one away. -/
theorem abs_fixed_sub (x : ℚ) : |fixed 5 x - x| ≤ 5 / 10 ^ 6 := by
  have low := Int.floor_le (|x| * (10 ^ 5 : Nat) + 1 / (2 : Nat))
  have high := Int.lt_floor_add_one (|x| * (10 ^ 5 : Nat) + 1 / (2 : Nat))
  rw [← scaledTo_nonneg (abs_nonneg x)] at low high
  push_cast at low high
  have magnitude : |(scaledTo 5 |x| : ℚ) / 10 ^ 5 - (|x|)| ≤ 5 / 10 ^ 6 := by
    rw [abs_le]
    constructor
    · linarith
    · linarith
  rw [fixed]
  split
  next below =>
    rw [abs_of_neg below] at magnitude ⊢
    rwa [← abs_neg, neg_sub, sub_neg_eq_add, add_comm, ← sub_neg_eq_add]
  next above =>
    rwa [abs_of_nonneg (not_lt.mp above)] at magnitude ⊢

/-- Five decimals do not leave bounds that are whole. -/
theorem abs_fixed_le {x : ℚ} {limit : Nat} (bound : |x| ≤ limit) : |fixed 5 x| ≤ limit := by
  have scaled : (scaledTo 5 |x| : ℤ) ≤ limit * 10 ^ 5 := by
    rw [scaledTo_nonneg (abs_nonneg x), ← Int.lt_add_one_iff, Int.floor_lt]
    push_cast
    linarith
  rw [abs_fixed, div_le_iff₀ (by positivity)]
  exact_mod_cast scaled

theorem rounded_natCast (rounds : Rounds nearest rounded) {n : Nat} (small : n ≤ 2 ^ 53) :
    rounded n = n ∧ rounded (-n) = -n := by
  have bound : |((n : ℤ) : ℚ)| ≤ 2 ^ 53 := by
    rw [Int.cast_natCast, Nat.abs_cast]
    exact_mod_cast small
  have negative : |((-n : ℤ) : ℚ)| ≤ 2 ^ 53 := by rwa [Int.cast_neg, abs_neg]
  exact ⟨by exact_mod_cast rounds.whole n bound, by exact_mod_cast rounds.whole (-n) negative⟩

theorem abs_rounded_le (rounds : Rounds nearest rounded) {x : ℚ} {limit : Nat} (small : limit ≤ 2 ^ 53)
    (bound : |x| ≤ limit) : |rounded x| ≤ limit := by
  obtain ⟨low, high⟩ := abs_le.mp bound
  obtain ⟨top, bottom⟩ := rounded_natCast rounds small
  have above := rounds.monotone low
  have below := rounds.monotone high
  rw [bottom] at above
  rw [top] at below
  exact abs_le.mpr ⟨above, below⟩

/-- What is rounded into bounds was not a whole unit outside. -/
theorem abs_le_of_rounded (rounds : Rounds nearest rounded) {x : ℚ} {limit : Nat} (small : limit + 1 ≤ 2 ^ 53)
    (bound : |rounded x| ≤ limit) : |x| ≤ limit + 1 := by
  obtain ⟨top, bottom⟩ := rounded_natCast rounds small
  push_cast at top bottom
  obtain ⟨low, high⟩ := abs_le.mp bound
  rw [abs_le]
  constructor
  · by_contra beyond
    have far := rounds.monotone (le_of_not_ge beyond)
    linarith
  · by_contra beyond
    have far := rounds.monotone (le_of_not_ge beyond)
    linarith

/-! ### Reading what was written -/

theorem get?_writeName {name : Option Text} {params : Params} :
    Pairs.get? (writeName name params) (units "name") = name.filter fun name => name ≠ [] := by
  rw [writeName]
  split
  next written => rw [written, Pairs.get?_set_self]
  next dropped => rw [dropped, Pairs.get?_delete_self]

theorem get?_writeName_other {name : Option Text} {params : Params} {key : Text} (other : key ≠ units "name") :
    Pairs.get? (writeName name params) key = Pairs.get? params key := by
  rw [writeName]
  split
  · exact Pairs.get?_set_other other
  · exact Pairs.get?_delete_other other

section

variable (view : RadarView) (params : Params)

theorem get?_lat : Pairs.get? (writeToUrl view params) (units "lat") = some (toFixed5 view.centre.lat) := by
  simp only [writeToUrl]
  rw [Pairs.get?_set_other (by decide), get?_writeName_other (by decide), Pairs.get?_set_other (by decide),
    Pairs.get?_set_self]

theorem get?_lon : Pairs.get? (writeToUrl view params) (units "lon") = some (toFixed5 view.centre.lon) := by
  simp only [writeToUrl]
  rw [Pairs.get?_set_other (by decide), get?_writeName_other (by decide), Pairs.get?_set_self]

theorem get?_name :
    Pairs.get? (writeToUrl view params) (units "name") = view.centre.name.filter fun name => name ≠ [] := by
  simp only [writeToUrl]
  rw [Pairs.get?_set_other (by decide), get?_writeName]

theorem get?_range : Pairs.get? (writeToUrl view params) (units "range") = some (wholeText view.rangeNm) := by
  simp only [writeToUrl]
  rw [Pairs.get?_set_self]

end

/-- Where the radar is after a reload. -/
def rereadCentre (nearest : ℚ → Double) (centre : RadarCentre) : RadarCentre :=
  let lat := reread nearest centre.lat
  let lon := reread nearest centre.lon
  if within 85 lat && within 180 lon then
    { lat, lon, name := centre.name.filter fun name => name ≠ [] }
  else defaultCentre nearest

theorem readCentre_writeToUrl (view : RadarView) (params : Params) :
    readCentre nearest (writeToUrl view params) = rereadCentre nearest view.centre := by
  have lat : numberOf nearest (writeToUrl view params) (units "lat") = reread nearest view.centre.lat := by
    rw [numberOf, get?_lat, Option.getD_some, number_toFixed5]
  have lon : numberOf nearest (writeToUrl view params) (units "lon") = reread nearest view.centre.lon := by
    rw [numberOf, get?_lon, Option.getD_some, number_toFixed5]
  rw [readCentre, lat, lon, get?_lat, get?_lon, get?_name, Option.filter_filter]
  simp only [Option.isSome_some, Bool.true_and, Bool.and_self, rereadCentre]

/-- The ranges are all different doubles. -/
theorem find?_range (rounds : Rounds nearest rounded) {ranges : List Nat} (small : ∀ r ∈ ranges, r ≤ 2 ^ 53)
    {rangeNm : Nat} (member : rangeNm ∈ ranges) :
    (ranges.find? fun (r : Nat) => nearest rangeNm = .finite r) = some rangeNm := by
  have exact_ : nearest rangeNm = .finite rangeNm := by
    have bound : |(rangeNm : ℚ)| ≤ 2 ^ 53 := by
      rw [Nat.abs_cast]
      exact_mod_cast small rangeNm member
    rw [rounds.finite _ bound, (rounded_natCast rounds (small rangeNm member)).1]
  rw [exact_]
  clear exact_
  induction ranges with
  | nil => cases member
  | cons first ranges ih =>
    by_cases same : rangeNm = first
    · subst same
      exact List.find?_cons_of_pos (by simp)
    · rw [List.find?_cons_of_neg (by simpa using same)]
      exact ih (fun r later => small r (List.mem_cons_of_mem first later))
        ((List.mem_cons.mp member).resolve_left same)

theorem readRange_writeToUrl (rounds : Rounds nearest rounded) {view : RadarView} (params : Params)
    (settable : view.rangeNm ∈ radarRangesNm) :
    readRange nearest (writeToUrl view params) = view.rangeNm := by
  have range : numberOf nearest (writeToUrl view params) (units "range") = nearest view.rangeNm := by
    rw [numberOf, get?_range, Option.getD_some, number_wholeText]
  rw [readRange, range, get?_range, Option.isSome_some, if_pos rfl,
    find?_range rounds (by decide) settable, Option.getD_some]

/-! ### Reading again -/

/-- The view after a reload. -/
def survived (nearest : ℚ → Double) (view : RadarView) : RadarView :=
  { view with centre := rereadCentre nearest view.centre }

theorem readFromUrl_writeToUrl (rounds : Rounds nearest rounded) {view : RadarView} (params : Params)
    (settable : view.rangeNm ∈ radarRangesNm) :
    readFromUrl nearest (writeToUrl view params) = survived nearest view := by
  rw [readFromUrl, readCentre_writeToUrl, readRange_writeToUrl rounds params settable, survived]

/-- A coordinate that was read back once is read back unchanged. -/
theorem reread_reread (rounds : Rounds nearest rounded) {limit : Nat} (small : limit ≤ 180) {d : Double}
    (inside : within limit (reread nearest d) = true) :
    reread nearest (reread nearest d) = reread nearest d := by
  cases d with
  | infinite negative => cases inside
  | nan => cases inside
  | finite value =>
    rw [reread] at inside ⊢
    generalize read : nearest (fixed 5 value) = back at inside ⊢
    cases back with
    | infinite negative => cases inside
    | nan => cases inside
    | finite again =>
      have same := rounds.only _ _ read
      rw [within, decide_eq_true_eq, same] at inside
      have fits : (limit : ℚ) + 1 ≤ 256 := by exact_mod_cast (by omega : limit + 1 ≤ 256)
      have bound : |fixed 5 value| ≤ 256 := (abs_le_of_rounded rounds (by omega) inside).trans fits
      rw [reread, same, fixed_rounded rounds bound, read, same]

theorem rereadCentre_default (rounds : Rounds nearest rounded) :
    rereadCentre nearest (defaultCentre nearest) = defaultCentre nearest := by
  have kept (x : ℚ) (decimals : fixed 5 x = x) (limit : Nat) (bound : |x| ≤ limit) (small : limit ≤ 180) :
      reread nearest (nearest x) = nearest x ∧ within limit (nearest x) = true := by
    have fits : |x| ≤ 256 := bound.trans (by exact_mod_cast (by omega : limit ≤ 256))
    have read : nearest x = .finite (rounded x) := rounds.finite x (fits.trans (by norm_num))
    have again := fixed_rounded rounds (show |fixed 5 x| ≤ 256 by rwa [decimals])
    rw [decimals] at again
    rw [read, reread, again, read, within, decide_eq_true_eq]
    exact ⟨rfl, abs_rounded_le rounds (by omega) bound⟩
  obtain ⟨lat, lat_inside⟩ := kept (624722 / 10000) (by decide +kernel) 85 (by norm_num) (by decide)
  obtain ⟨lon, lon_inside⟩ := kept (61495 / 10000) (by decide +kernel) 180 (by norm_num) (by decide)
  have named : (some (units "Ålesund")).filter (fun name => name ≠ []) = some (units "Ålesund") := by decide
  rw [rereadCentre]
  simp only [defaultCentre, lat, lon, named]
  rw [if_pos (by simpa using ⟨lat_inside, lon_inside⟩)]

theorem rereadCentre_rereadCentre (rounds : Rounds nearest rounded) (centre : RadarCentre) :
    rereadCentre nearest (rereadCentre nearest centre) = rereadCentre nearest centre := by
  by_cases inside : (within 85 (reread nearest centre.lat) && within 180 (reread nearest centre.lon)) = true
  · have both := (Bool.and_eq_true _ _).mp inside
    have lat : reread nearest (reread nearest centre.lat) = reread nearest centre.lat :=
      reread_reread rounds (by decide : 85 ≤ 180) both.1
    have lon : reread nearest (reread nearest centre.lon) = reread nearest centre.lon :=
      reread_reread rounds le_rfl both.2
    have once : rereadCentre nearest centre =
        { lat := reread nearest centre.lat, lon := reread nearest centre.lon,
          name := centre.name.filter fun name => name ≠ [] } := by
      simp only [rereadCentre, if_pos inside]
    rw [once, rereadCentre]
    simp only [lat, lon, if_pos inside, Option.filter_filter, Bool.and_self]
  · have once : rereadCentre nearest centre = defaultCentre nearest := by
      simp only [rereadCentre, if_neg inside]
    rw [once, rereadCentre_default rounds]

theorem survived_survived (rounds : Rounds nearest rounded) (view : RadarView) :
    survived nearest (survived nearest view) = survived nearest view := by
  rw [survived, survived, rereadCentre_rereadCentre rounds]

/-- A centre on the map comes back within six millionths of a degree, under its name. -/
theorem rereadCentre_close (rounds : Rounds nearest rounded) {lat lon : ℚ} (name : Option Text)
    (lat_bound : |lat| ≤ 85) (lon_bound : |lon| ≤ 180) :
    ∃ lat' lon' : ℚ, rereadCentre nearest ⟨.finite lat, .finite lon, name⟩ =
        ⟨.finite lat', .finite lon', name.filter fun name => name ≠ []⟩ ∧
      |lat' - lat| ≤ 6 / 10 ^ 6 ∧ |lon' - lon| ≤ 6 / 10 ^ 6 := by
  have coordinate (x : ℚ) (limit : Nat) (small : limit ≤ 180) (bound : |x| ≤ limit) :
      nearest (fixed 5 x) = .finite (rounded (fixed 5 x)) ∧ |rounded (fixed 5 x)| ≤ limit ∧
        |rounded (fixed 5 x) - x| ≤ 6 / 10 ^ 6 := by
    have written := abs_fixed_le bound
    have fits : |fixed 5 x| ≤ 256 := written.trans (by exact_mod_cast (by omega : limit ≤ 256))
    refine ⟨rounds.finite _ (fits.trans (by norm_num)), abs_rounded_le rounds (by omega) written, ?_⟩
    calc |rounded (fixed 5 x) - x|
        ≤ |rounded (fixed 5 x) - fixed 5 x| + |fixed 5 x - x| := abs_sub_le _ _ _
      _ ≤ 1 / 10 ^ 6 + 5 / 10 ^ 6 := add_le_add (rounds.close _ fits) (abs_fixed_sub x)
      _ = 6 / 10 ^ 6 := by norm_num
  obtain ⟨lat_read, lat_inside, lat_close⟩ := coordinate lat 85 (by decide) lat_bound
  obtain ⟨lon_read, lon_inside, lon_close⟩ := coordinate lon 180 le_rfl lon_bound
  refine ⟨_, _, ?_, lat_close, lon_close⟩
  rw [rereadCentre]
  simp only [reread, lat_read, lon_read, within]
  rw [if_pos (by simpa using ⟨lat_inside, lon_inside⟩)]

/-! ### Along a run -/

def ownNames : List Text := [units "lat", units "lon", units "name", units "range"]

/-- The part of the query that is not the radar's. -/
def foreign (params : Params) : Params := params.filter fun pair => pair.1 ∉ ownNames

theorem foreign_set {params : Params} {key : Text} (value : Text) (own : key ∈ ownNames) :
    foreign (Pairs.set params key value) = foreign params :=
  Pairs.filter_set fun _ => decide_eq_false (not_not_intro own)

theorem foreign_writeName (name : Option Text) (params : Params) :
    foreign (writeName name params) = foreign params := by
  have own : units "name" ∈ ownNames := by decide
  rw [writeName]
  split
  · exact foreign_set _ own
  · exact Pairs.filter_delete fun _ => decide_eq_false (not_not_intro own)

theorem foreign_writeToUrl (view : RadarView) (params : Params) :
    foreign (writeToUrl view params) = foreign params := by
  simp only [writeToUrl]
  rw [foreign_set _ (by decide), foreign_writeName, foreign_set _ (by decide), foreign_set _ (by decide)]

theorem stepRange_mem (rangeNm : Nat) (direction : Direction) : stepRange rangeNm direction ∈ radarRangesNm := by
  have length : radarRangesNm.length = 13 := rfl
  rw [stepRange]
  simp only [List.getD_eq_getElem?_getD]
  rw [List.getElem?_eq_getElem (by omega), Option.getD_some]
  exact List.getElem_mem _

theorem readRange_mem (params : Params) : readRange nearest params ∈ radarRangesNm := by
  rw [readRange]
  split
  · cases found : radarRangesNm.find? fun (rangeNm : Nat) =>
        numberOf nearest params (units "range") = .finite rangeNm with
    | none => decide
    | some rangeNm => exact List.mem_of_find?_eq_some found
  · decide

/-- What holds of a page on which the view was only changed by its controls. -/
structure Follows (nearest : ℚ → Double) (params : Params) (s : State) : Prop where
  settable : s.view.rangeNm ∈ radarRangesNm
  shown : s.shown.rangeNm ∈ radarRangesNm
  rest : foreign s.params = foreign params
  written : s.written = true → ∃ before, s.params = writeToUrl s.shown before

theorem follows_opened (params : Params) : Follows nearest params (opened nearest params) where
  settable := readRange_mem params
  shown := readRange_mem params
  rest := rfl
  written done := by cases done

theorem follows_step {params : Params} {s t : State} {event : Event} (follows : Follows nearest params s)
    (step : Step nearest s event t) : Follows nearest params t := by
  cases step with
  | renders => exact ⟨follows.settable, follows.settable, follows.rest, fun done => by cases done⟩
  | writes due =>
    refine ⟨follows.settable, follows.shown, ?_, fun _ => ⟨s.params, rfl⟩⟩
    exact (foreign_writeToUrl s.shown s.params).trans follows.rest
  | centres centre => exact ⟨follows.settable, follows.shown, follows.rest, follows.written⟩
  | steps direction => exact ⟨stepRange_mem _ direction, follows.shown, follows.rest, follows.written⟩
  | reloads => exact ⟨readRange_mem s.params, readRange_mem s.params, follows.rest, fun done => by cases done⟩

/-- Whatever link the page was opened with, and however the view was changed, written and reloaded since:
once a rendered view is written, the URL leads back to it, and what it leads to is written the same. -/
theorem view_survives (rounds : Rounds nearest rounded) (params : Params) (trace : List Event) (s : State)
    (run : Run (Step nearest) (opened nearest params) trace s) :
    s.view.rangeNm ∈ radarRangesNm ∧ s.shown.rangeNm ∈ radarRangesNm ∧ foreign s.params = foreign params ∧
      (s.written = true →
        (readFromUrl nearest s.params).rangeNm = s.shown.rangeNm ∧
        (∀ (lat lon : ℚ) (name : Option Text), s.shown.centre = ⟨.finite lat, .finite lon, name⟩ →
          |lat| ≤ 85 → |lon| ≤ 180 →
          ∃ lat' lon' : ℚ, (readFromUrl nearest s.params).centre =
              ⟨.finite lat', .finite lon', name.filter fun name => name ≠ []⟩ ∧
            |lat' - lat| ≤ 6 / 10 ^ 6 ∧ |lon' - lon| ≤ 6 / 10 ^ 6) ∧
        ∀ again, readFromUrl nearest (writeToUrl (readFromUrl nearest s.params) again) =
          readFromUrl nearest s.params) := by
  have follows : Follows nearest params s :=
    Run.invariant (fun _ s => Follows nearest params s) (follows_opened params) follows_step run
  refine ⟨follows.settable, follows.shown, follows.rest, fun done => ?_⟩
  obtain ⟨before, written⟩ := follows.written done
  have read : readFromUrl nearest s.params = survived nearest s.shown := by
    rw [written, readFromUrl_writeToUrl rounds before follows.shown]
  have settable : (survived nearest s.shown).rangeNm ∈ radarRangesNm := follows.shown
  rw [read]
  refine ⟨rfl, fun lat lon name here lat_bound lon_bound => ?_, fun again => ?_⟩
  · rw [survived, here]
    exact rereadCentre_close rounds name lat_bound lon_bound
  · rw [readFromUrl_writeToUrl rounds again settable, survived_survived rounds]

theorem rounds_finite : Rounds .finite id where
  finite _ _ := rfl
  only _ _ same := (Double.finite.inj same).symm
  monotone := monotone_id
  whole _ _ := rfl
  close q _ := by simp

/-- The query `lat=62.5&debug=1&lon=6`. -/
private def linked : Params :=
  [(units "lat", units "62.5"), (units "debug", units "1"), (units "lon", units "6")]

/-- A page opened with a link, moved, zoomed in and written. -/
theorem view_survives_moved :
    ∃ s, Run (Step .finite) (opened .finite linked)
        [.centred ⟨.finite (125 / 2), .finite (-1 / 4), some (units "Home")⟩, .stepped .in, .rendered, .wrote] s ∧
      foreign s.params = [(units "debug", units "1")] ∧
      (readFromUrl .finite s.params).rangeNm = 48 ∧
      ∃ lat' lon' : ℚ, (readFromUrl .finite s.params).centre =
          ⟨.finite lat', .finite lon', some (units "Home")⟩ ∧
        |lat' - 125 / 2| ≤ 6 / 10 ^ 6 ∧ |lon' - -1 / 4| ≤ 6 / 10 ^ 6 := by
  have run : Run (Step .finite) (opened .finite linked)
      [.centred ⟨.finite (125 / 2), .finite (-1 / 4), some (units "Home")⟩, .stepped .in, .rendered, .wrote] _ :=
    ⟨_, .centres _ _, _, .steps _ _, _, .renders _, _, .writes _ rfl, rfl⟩
  obtain ⟨_, _, rest, read⟩ := view_survives rounds_finite _ _ _ run
  obtain ⟨range, centre, _⟩ := read rfl
  refine ⟨_, run, rest.trans ?_, range, centre _ _ _ rfl ?_ ?_⟩
  · decide
  · norm_num [abs_le]
  · norm_num [abs_le]

end Ais.UseRadarView
