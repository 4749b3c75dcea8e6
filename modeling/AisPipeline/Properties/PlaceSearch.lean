import AisPipeline.Web.LocationPicker

/-!
# The radar moves only where it was asked to

In every order of keys, clicks, timers, renders and answers: results of a text
that is no longer in the box are neither listed nor chosen, a place is chosen
for an Enter only if nothing was typed after it, and two searches are no less
than the delay apart.
-/
namespace Ais.LocationPicker

open Js Transition State

/-! ### Since when -/

def Event.types : Event → Bool
  | .typed _ => true
  | _ => false

def Event.searches : Event → Bool
  | .searched _ => true
  | _ => false

def Event.settlesDevice : Event → Bool
  | .deviceFound _ _ | .deviceFailed _ => true
  | _ => false

/-- None of these. -/
def Event.quiet (event : Event) : Bool := !event.types && !event.searches && !event.settlesDevice

/-- The text that was typed last. -/
def Typed (trace : List Event) (text : Text) : Prop := Since (fun event => event.types) (.typed text) trace

/-- Enter was pressed, to wait for results, and nothing was typed after it. -/
def Entered (trace : List Event) : Prop := Since (fun event => event.types) (.entered none) trace

/-- The position was asked for, and that has not been answered. -/
def Asked (trace : List Event) : Prop := Since (fun event => event.settlesDevice) .deviceAsked trace

/-- These are the results for a text. -/
def Answered (trace : List Event) (query : Text) (places : List Place) : Prop :=
  ∃ chosen, .answered query places chosen ∈ trace

/-- The time that passes along a trace. -/
def Event.time : Event → Nat
  | .elapsed ms => ms
  | _ => 0

def elapsed (trace : List Event) : Nat := (trace.map Event.time).sum

variable {trace : List Event} {s t : State} {event : Event}

/-! ### The invariant -/

/-- The box is empty or holds what was typed last. -/
def Holds (trace : List Event) (query : Text) : Prop := query = [] ∨ Typed trace query

/-- Results are those of an answer. -/
def Known (trace : List Event) (search : SearchState) : Prop :=
  ∀ query places, search = .done query places → Answered trace query places

/-- The run of the effect is for what it last ran for, and if it waits, all searches before were sent
before it was set up. -/
structure Fits (trace : List Event) (ran : Text) (now : Nat) (effect : Search) : Prop where
  ran : ran = effect.trimmed
  long : minQueryLength ≤ effect.trimmed.length
  after : effect.stage = .waiting → ∀ before query rest, trace = before ++ .searched query :: rest →
    now ≤ effect.setAt + elapsed rest

/-- What holds also while a handler of the user's has not been rendered. -/
structure Handled (trace : List Event) (s : State) : Prop where
  query : Holds trace s.query
  search : Known trace s.search
  shownSearch : Known trace s.shownSearch
  entered : s.enterPending = true → Entered trace
  effect : ∀ effect, s.effect = some effect → Fits trace s.ran s.now effect
  device : s.deviceRequests = if s.locating then 1 else 0
  asked : s.locating = true → Asked trace

structure Kept (trace : List Event) (s : State) : Prop extends Handled trace s where
  shownQuery : Holds trace s.shownQuery
  /-- the button is disabled while a position is out -/
  disabled : s.locating = true → s.shownLocating = true
  typed : ∀ effect, s.effect = some effect → ∃ text, Typed trace text ∧ trim text = effect.trimmed

theorem kept_initial : Kept [] {} where
  query := .inl rfl
  search := by rintro query places ⟨⟩
  shownSearch := by rintro query places ⟨⟩
  entered := by rintro ⟨⟩
  effect := by rintro effect ⟨⟩
  device := rfl
  asked := by rintro ⟨⟩
  shownQuery := .inl rfl
  disabled := by rintro ⟨⟩
  typed := by rintro effect ⟨⟩

/-! ### One more event -/

theorem Holds.snoc {query : Text} (holds : Holds trace query) (typing : event.types = false) :
    Holds (trace ++ [event]) query := holds.imp_right fun typed => Since.snoc typed (by simp [typing])

theorem Known.snoc {search : SearchState} (known : Known trace search) (event : Event) :
    Known (trace ++ [event]) search := by
  intro query places done
  obtain ⟨chosen, answered⟩ := known query places done
  exact ⟨chosen, List.mem_append_left _ answered⟩

theorem elapsed_snoc (trace : List Event) (event : Event) :
    elapsed (trace ++ [event]) = elapsed trace + event.time := by
  simp [elapsed]

theorem Fits.snoc {ran : Text} {now : Nat} {effect : Search} (fits : Fits trace ran now effect)
    (searching : event.searches = false) : Fits (trace ++ [event]) ran (now + event.time) effect where
  ran := fits.ran
  long := fits.long
  after waiting before query rest cut := by
    rcases List.eq_nil_or_concat rest with rfl | ⟨rest, last, rfl⟩
    · obtain ⟨-, same⟩ := List.append_inj' cut rfl
      rw [List.singleton_inj.mp same] at searching
      cases searching
    · rw [List.concat_eq_append, ← List.cons_append, ← List.append_assoc] at cut
      obtain ⟨earlier_cut, same⟩ := List.append_inj' cut rfl
      obtain rfl := List.singleton_inj.mp same
      have earlier := fits.after waiting before query rest earlier_cut
      rw [List.concat_eq_append, elapsed_snoc]
      omega

/-- All but the device is as before when something happens that neither types nor searches. -/
theorem Kept.snoc (kept : Kept trace s) (quiet : event.quiet = true) :
    Kept (trace ++ [event]) { s with now := s.now + event.time } := by
  obtain ⟨typing, searching, settling⟩ : event.types = false ∧ event.searches = false ∧
      event.settlesDevice = false := by simpa [Event.quiet, and_assoc] using quiet
  exact {
    query := kept.query.snoc typing
    search := kept.search.snoc event
    shownSearch := kept.shownSearch.snoc event
    entered := fun pending => Since.snoc (kept.entered pending) (by simp [typing])
    effect := fun effect mounted => (kept.effect effect mounted).snoc searching
    device := kept.device
    asked := fun locating => Since.snoc (kept.asked locating) (by simp [settling])
    shownQuery := kept.shownQuery.snoc typing
    disabled := kept.disabled
    typed := fun effect mounted => (kept.typed effect mounted).imp fun _ typed =>
      ⟨Since.snoc typed.1 (by simp [typing]), typed.2⟩ }

/-! ### Renders and effects -/

theorem Handled.render (handled : Handled trace s) : Handled trace s.render where
  query := handled.query
  search := handled.search
  shownSearch := handled.search
  entered := handled.entered
  effect := handled.effect
  device := handled.device
  asked := handled.asked

theorem runEffects_cases (s : State) :
    s.runEffects = s ∧ trim s.shownQuery = s.ran ∨
      ∃ aborted, s.runEffects = { s with
        aborted := aborted
        ran := trim s.shownQuery
        effect := if active s.shownQuery then some { trimmed := trim s.shownQuery, setAt := s.now } else none } := by
  rw [runEffects]
  split
  next same => exact .inl ⟨rfl, same⟩
  next => exact .inr ⟨_, rfl⟩

theorem Handled.runEffects (handled : Handled trace s) : Handled trace s.runEffects := by
  rcases runEffects_cases s with ⟨same, -⟩ | ⟨aborted, ran⟩
  · rwa [same]
  · rw [ran]
    refine { handled with effect := fun effect mounted => ?_ }
    split at mounted
    next long =>
      obtain rfl := Option.some.inj mounted
      exact ⟨rfl, of_decide_eq_true long, fun _ _ _ _ _ => Nat.le_add_right _ _⟩
    next => cases mounted

/-- A text that is long enough was typed. -/
theorem Holds.typed {query : Text} (holds : Holds trace query) (long : minQueryLength ≤ (trim query).length) :
    Typed trace query := by
  refine holds.resolve_left ?_
  rintro rfl
  exact absurd long (by decide)

/-- Once the effects have run, they are for what is shown. -/
theorem Handled.kept (handled : Handled trace s) (shown : Holds trace s.shownQuery)
    (disabled : s.locating = true → s.shownLocating = true) : Kept trace s.runEffects := by
  have after : Holds trace s.runEffects.shownQuery ∧ s.runEffects.ran = trim s.shownQuery ∧
      (s.runEffects.locating = true → s.runEffects.shownLocating = true) := by
    rcases runEffects_cases s with ⟨same, current⟩ | ⟨aborted, ran⟩
    · rw [same]
      exact ⟨shown, current.symm, disabled⟩
    · rw [ran]
      exact ⟨shown, rfl, disabled⟩
  refine ⟨handled.runEffects, after.1, after.2.2, fun effect mounted => ?_⟩
  · have fits := handled.runEffects.effect effect mounted
    have same : trim s.shownQuery = effect.trimmed := after.2.1.symm.trans fits.ran
    exact ⟨s.shownQuery, shown.typed (by rw [same]; exact fits.long), same⟩

theorem Handled.flush (handled : Handled trace s) : Kept trace s.flush :=
  handled.runEffects.render.kept handled.runEffects.query id

theorem Handled.choose (handled : Handled trace s) : Handled trace s.choose :=
  { handled with
    query := .inl rfl
    search := by rintro query places ⟨⟩
    entered := by rintro ⟨⟩ }

/-! ### Every step -/

theorem Handled.types (handled : Handled trace s) (text : Text) :
    Handled (trace ++ [.typed text]) { s with enterPending := false, query := text } where
  query := .inr (Since.here trace _)
  search := handled.search.snoc _
  shownSearch := handled.shownSearch.snoc _
  entered := by rintro ⟨⟩
  effect effect mounted := (handled.effect effect mounted).snoc rfl
  device := handled.device
  asked locating := Since.snoc (handled.asked locating) Bool.false_ne_true

theorem Kept.fires (kept : Kept trace s) {effect : Search} (mounted : s.effect = some effect) :
    Kept (trace ++ [.searched effect.trimmed])
      { s with search := .searching effect.trimmed, effect := some { effect with stage := .requested } } where
  query := kept.query.snoc rfl
  search := by rintro query places ⟨⟩
  shownSearch := kept.shownSearch.snoc _
  entered pending := Since.snoc (kept.entered pending) Bool.false_ne_true
  effect := by
    rintro _ ⟨⟩
    exact ⟨(kept.effect effect mounted).ran, (kept.effect effect mounted).long, by rintro ⟨⟩⟩
  disabled := kept.disabled
  device := kept.device
  asked locating := Since.snoc (kept.asked locating) Bool.false_ne_true
  shownQuery := kept.shownQuery.snoc rfl
  typed := by
    rintro _ ⟨⟩
    obtain ⟨text, typed, same⟩ := kept.typed effect mounted
    exact ⟨text, Since.snoc typed Bool.false_ne_true, same⟩

/-- The request of an effect settles. -/
theorem Kept.settles (kept : Kept trace s) {effect : Search} (mounted : s.effect = some effect) :
    Kept trace { s with effect := some { effect with stage := .settled } } where
  toHandled := { kept.toHandled with
    effect := by
      rintro _ ⟨⟩
      exact ⟨(kept.effect effect mounted).ran, (kept.effect effect mounted).long, by rintro ⟨⟩⟩ }
  shownQuery := kept.shownQuery
  disabled := kept.disabled
  typed := by
    rintro _ ⟨⟩
    exact kept.typed effect mounted

theorem Kept.onResults (kept : Kept trace s) {query : Text} {places : List Place}
    (answered : Answered trace query places) : Kept trace (s.onResults query places).1 := by
  rw [State.onResults]
  split
  · exact ⟨kept.choose, kept.shownQuery, kept.disabled, kept.typed⟩
  · refine ⟨{ kept.toHandled with search := ?_ }, kept.shownQuery, kept.disabled, kept.typed⟩
    rintro _ _ ⟨⟩
    exact answered

theorem effect_onResults (s : State) (query : Text) (places : List Place) :
    (s.onResults query places).1.effect = s.effect := by
  rw [State.onResults]
  split
  · rfl
  · rfl

/-- What Enter does. -/
theorem enter_cases (s : State) :
    (∃ query place places, active s.shownQuery = true ∧ s.current = some (.done query (place :: places)) ∧
      s.enter = (s.choose.flush, some place)) ∨
    s.enter = ({ s with enterPending := true }, none) ∨ s.enter = (s, none) := by
  rw [State.enter]
  split
  next long =>
    split
    next query place places current => exact .inl ⟨query, place, places, long, current, rfl⟩
    · exact .inr (.inr rfl)
    · exact .inr (.inr rfl)
    · exact .inr (.inl rfl)
    · exact .inr (.inl rfl)
    · exact .inr (.inl rfl)
  next => exact .inr (.inr rfl)

theorem Kept.enters (kept : Kept trace s) : Kept (trace ++ [.entered s.enter.2]) s.enter.1 := by
  have later (chosen : Option Place) : Kept (trace ++ [.entered chosen]) s := kept.snoc rfl
  rcases enter_cases s with ⟨query, place, places, -, -, enter⟩ | enter | enter
  · rw [enter]
    exact (later (some place)).choose.flush
  · rw [enter]
    refine ⟨{ (later none).toHandled with entered := fun _ => ?_ }, (later none).shownQuery, (later none).disabled,
      (later none).typed⟩
    exact Since.here trace _
  · rw [enter]
    exact later none

theorem Kept.asksDevice (kept : Kept trace s) (enabled : s.shownLocating = false) :
    Handled (trace ++ [.deviceAsked])
      { s with locating := true, locateError := none, deviceRequests := s.deviceRequests + 1 } where
  query := kept.query.snoc rfl
  search := kept.search.snoc _
  shownSearch := kept.shownSearch.snoc _
  entered pending := Since.snoc (kept.entered pending) Bool.false_ne_true
  effect effect mounted := (kept.effect effect mounted).snoc rfl
  device := by
    have idle : s.locating = false := by
      rw [← Bool.not_eq_true]
      intro locating
      rw [kept.disabled locating] at enabled
      cases enabled
    have device := kept.device
    rw [idle] at device
    exact congrArg Nat.succ device
  asked _ := Since.here trace _

/-- The position of the device has come, or not. -/
theorem Kept.settlesDevice (kept : Kept trace s) {requests : Nat} (out : s.deviceRequests = requests + 1)
    (locateError : Option String) (typing : event.types = false) (searching : event.searches = false) :
    Kept (trace ++ [event])
      { s with now := s.now + event.time, locating := false, deviceRequests := requests, locateError := locateError } where
  query := kept.query.snoc typing
  search := kept.search.snoc event
  shownSearch := kept.shownSearch.snoc event
  entered pending := Since.snoc (kept.entered pending) (by simp [typing])
  effect effect mounted := (kept.effect effect mounted).snoc searching
  disabled := by rintro ⟨⟩
  device := by
    have device := kept.device
    rw [out] at device
    split at device
    next => exact Nat.succ.inj device
    next => cases device
  asked := by rintro ⟨⟩
  shownQuery := kept.shownQuery.snoc typing
  typed effect mounted := by
    obtain ⟨text, typed, same⟩ := kept.typed effect mounted
    exact ⟨text, Since.snoc typed (by simp [typing]), same⟩

theorem Kept.step (kept : Kept trace s) (step : Step s event t) : Kept (trace ++ [event]) t := by
  cases step with
  | types text => exact (kept.toHandled.types text).flush
  | escapes =>
    have later : Kept (trace ++ [.escaped]) s := kept.snoc rfl
    exact Handled.flush { later.toHandled with query := .inl rfl }
  | enters => exact kept.enters
  | clicks query places place shown results listed =>
    have later : Kept (trace ++ [.clicked place]) s := kept.snoc rfl
    exact later.choose.flush
  | elapses ms => exact kept.snoc rfl
  | fires effect mounted waiting due => exact kept.fires mounted
  | answers effect places mounted out =>
    generalize chosen : (s.onResults effect.trimmed places).2 = choice
    have later : Kept (trace ++ [.answered effect.trimmed places choice]) s := kept.snoc rfl
    have shown := later.onResults ⟨choice, List.mem_append_right _ (List.mem_singleton_self _)⟩
    exact shown.settles ((effect_onResults s effect.trimmed places).trans mounted)
  | fails effect message mounted out =>
    have later : Kept (trace ++ [.failed effect.trimmed message]) s := kept.snoc rfl
    have settled := later.settles mounted
    refine ⟨{ settled.toHandled with search := ?_, entered := ?_ }, settled.shownQuery, settled.disabled, settled.typed⟩
    · rintro query places ⟨⟩
    · rintro ⟨⟩
  | rejects before after query out =>
    have later : Kept (trace ++ [.rejected]) s := kept.snoc rfl
    exact ⟨{ later.toHandled with }, later.shownQuery, later.disabled, later.typed⟩
  | renders =>
    have later : Kept (trace ++ [.rendered]) s := kept.snoc rfl
    exact ⟨later.toHandled.render, later.query, id, later.typed⟩
  | runsEffects =>
    have later : Kept (trace ++ [.ranEffects]) s := kept.snoc rfl
    exact later.toHandled.kept later.shownQuery later.disabled
  | lacksDevice enabled =>
    have later : Kept (trace ++ [.deviceMissing]) s := kept.snoc rfl
    exact Handled.flush { later.toHandled with }
  | asksDevice enabled => exact (kept.asksDevice enabled).flush
  | findsDevice lat lon requests out => exact kept.settlesDevice out s.locateError rfl rfl
  | missesDevice denied requests out => exact kept.settlesDevice out _ rfl rfl

/-! ### Whole runs -/

theorem run_kept (run : Run Step {} trace s) : Kept trace s :=
  Run.invariant Kept kept_initial (fun kept step => kept.step step) run

/-- The results that are listed are those of the text in the box. -/
theorem Kept.listed (kept : Kept trace s) (long : active s.shownQuery = true) {query : Text} {places : List Place}
    (results : s.current = some (.done query places)) :
    Typed trace s.shownQuery ∧ query = trim s.shownQuery ∧ Answered trace query places := by
  rw [State.current] at results
  split at results
  next belongs =>
    have shown := Option.some.inj results
    rw [shown] at belongs
    exact ⟨kept.shownQuery.typed (of_decide_eq_true long), Option.some.inj belongs, kept.shownSearch _ _ shown⟩
  next => cases results

/-- Why the radar moves. -/
inductive Wanted (trace : List Event) (event : Event) : UseRadarView.RadarCentre → Prop where
  | place (text : Text) (places : List Place) (place : Place) (typed : Typed trace text)
      (answered : Answered (trace ++ [event]) (trim text) places) (listed : place ∈ places)
      (entered : (∃ query chosen, event = .answered query places chosen) → Entered trace) :
      Wanted trace event place.centre
  | device (lat lon : Cpp.Double) (found : event = .deviceFound lat lon) (asked : Asked trace) :
      Wanted trace event ⟨lat, lon, none⟩

theorem Kept.wanted (kept : Kept trace s) (step : Step s event t) {centre : UseRadarView.RadarCentre}
    (moves : event.move? = some centre) : Wanted trace event centre := by
  have before (query : Text) (places : List Place) (answered : Answered trace query places) :
      Answered (trace ++ [event]) query places := answered.imp fun _ => List.mem_append_left _
  cases step with
  | enters =>
    rcases enter_cases s with ⟨query, place, places, long, results, enter⟩ | enter | enter
    · rw [enter] at moves before ⊢
      obtain rfl := Option.some.inj moves
      obtain ⟨typed, rfl, answered⟩ := kept.listed long results
      exact .place _ _ place typed (before _ _ answered) List.mem_cons_self (by rintro ⟨_, _, ⟨⟩⟩)
    · rw [enter] at moves
      cases moves
    · rw [enter] at moves
      cases moves
  | clicks query places place shown results listed =>
    obtain rfl := Option.some.inj moves
    obtain ⟨typed, rfl, answered⟩ := kept.listed shown results
    exact .place _ _ place typed (before _ _ answered) listed (by rintro ⟨_, _, ⟨⟩⟩)
  | answers effect places mounted out =>
    obtain ⟨text, typed, same⟩ := kept.typed effect mounted
    obtain ⟨place, chosen, rfl⟩ := Option.map_eq_some_iff.mp moves
    have pending : s.enterPending = true ∧ places.head? = some place := by
      rw [State.onResults] at chosen
      split at chosen
      next first found =>
        split at found
        next pending => exact ⟨pending, found.trans chosen⟩
        next => cases found
      next => cases chosen
    refine .place text places place typed ?_ (List.mem_of_head? pending.2) fun _ => kept.entered pending.1
    rw [same]
    exact ⟨_, List.mem_append_right _ (List.mem_singleton_self _)⟩
  | findsDevice lat lon requests out =>
    obtain rfl := Option.some.inj moves
    refine .device lat lon rfl (kept.asked ?_)
    have device := kept.device
    rw [out] at device
    split at device
    next locating => exact locating
    next => cases device
  | types | escapes | elapses | fires | fails | rejects | renders | runsEffects | lacksDevice | asksDevice
  | missesDevice => cases moves

/-- In every run of the picker: whenever it moves the radar, the place is one of the results for the
text that was typed last, and if it was not clicked or entered, Enter had been pressed after that
text; or it is the position of the device, which had been asked for. Only results for the text in the
box are listed, and between two searches passes at least the delay. -/
theorem picker_keeps_to_text (trace : List Event) (s : State) (run : Run Step {} trace s) :
    (∀ before event after centre, trace = before ++ event :: after → event.move? = some centre →
      Wanted before event centre) ∧
    (∀ query places, active s.shownQuery = true → s.current = some (.done query places) →
      Typed trace s.shownQuery ∧ query = trim s.shownQuery ∧ Answered trace query places) ∧
    ∀ before first between second after,
      trace = before ++ .searched first :: (between ++ .searched second :: after) →
      searchDelayMs ≤ elapsed between := by
  refine ⟨?_, fun query places long results => (run_kept run).listed long results, ?_⟩
  · rintro before event after centre rfl moves
    obtain ⟨middle, first, next, step, -⟩ := run_append.mp run
    exact (run_kept first).wanted step moves
  · rintro before first between second after rfl
    rw [← List.cons_append, ← List.append_assoc] at run
    obtain ⟨middle, earlier, next, step, -⟩ := run_append.mp run
    cases step with
    | fires effect mounted waiting due =>
      have set_up := ((run_kept earlier).effect effect mounted).after waiting before first between rfl
      omega

/-- Typing, Enter, and the first result. -/
theorem picker_keeps_to_text_entered :
    ∃ trace s place, Run Step {} trace s ∧
      (Event.answered (units "Ale") [place] (some place)) ∈ trace ∧
      Wanted (trace.dropLast) (.answered (units "Ale") [place] (some place)) place.centre := by
  let place : Place := ⟨units "Alesund", units "By", none, .finite 62, .finite 6⟩
  let before : List Event := [.typed (units "Ale "), .elapsed 300, .searched (units "Ale"), .rendered, .entered none]
  have run : Run Step {} (before ++ [.answered (units "Ale") [place] (some place)]) _ :=
    ⟨_, .types _ _, _, .elapses _ 300, _, .fires _ ⟨units "Ale", 0, .waiting⟩ rfl rfl (by decide),
      _, .renders _, _, .enters _, _, .answers _ ⟨units "Ale", 0, .requested⟩ [place] rfl rfl, rfl⟩
  refine ⟨_, _, place, run, List.mem_append_right _ (List.mem_singleton_self _), ?_⟩
  obtain ⟨wanted, -⟩ := picker_keeps_to_text _ _ run
  rw [List.dropLast_concat]
  exact wanted before _ [] place.centre rfl rfl

end Ais.LocationPicker
