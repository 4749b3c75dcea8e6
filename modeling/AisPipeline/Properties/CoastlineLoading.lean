import AisPipeline.Web.UseCoastline

/-!
# What the coastline loader shows

Along every run, with effects cleaned up and fetches failing in any order, a
tile is fetched once until it fails, and only if the index lists it; and what
is shown belongs to one key as a whole, in the end to the last one.
-/
namespace Ais.UseCoastline

open PromiseCache Transition

variable {T : Type} {s t : State T}

/-! ### What has arrived -/

/-- An index that has arrived. -/
def Listed (s : State T) (ids : List TileId) : Prop := ∃ i, s.indexPromise.value? i = some ids

def Loaded (s : State T) (id : TileId) (data : T) : Prop :=
  ∃ i fetch, s.tilePromises.fetches[i]? = some fetch ∧ fetch.key = id ∧
    s.tilePromises.value? i = some data

/-- Both caches have grown. -/
structure Later (s t : State T) : Prop where
  index : s.indexPromise.Grows t.indexPromise
  tiles : s.tilePromises.Grows t.tilePromises

theorem Later.listed (later : Later s t) {ids : List TileId} (listed : Listed s ids) : Listed t ids :=
  listed.imp fun _ arrived => later.index.value? arrived

theorem Later.loaded (later : Later s t) {id : TileId} {data : T} (loaded : Loaded s id data) :
    Loaded t id data := by
  obtain ⟨i, fetch, sent, mine, arrived⟩ := loaded
  obtain ⟨after, still, key, -⟩ := later.tiles i fetch sent
  exact ⟨i, after, still, key.trans mine, later.tiles.value? arrived⟩

/-! ### The invariant -/

/-- What a chain may wait for. -/
inductive Staged (s : State T) (key : Key) : Stage → Prop where
  | index (i : Nat) (fetch : Fetch Unit (List TileId) String)
      (sent : s.indexPromise.fetches[i]? = some fetch) : Staged s key (.index i)
  | tiles (promises : List (TileId × Nat)) (ids : List TileId) (listed : Listed s ids)
      (wanted : promises.map Prod.fst = key.filter fun id => id ∈ ids)
      (mine : ∀ promise ∈ promises, ∃ fetch,
        s.tilePromises.fetches[promise.2]? = some fetch ∧ fetch.key = promise.1) :
      Staged s key (.tiles promises)
  | finished : Staged s key .finished

theorem Later.staged (later : Later s t) {key : Key} {stage : Stage} (staged : Staged s key stage) :
    Staged t key stage := by
  cases staged with
  | index i fetch sent =>
    obtain ⟨after, still, -⟩ := later.index i fetch sent
    exact .index i after still
  | tiles promises ids listed wanted mine =>
    refine .tiles promises ids (later.listed listed) wanted fun promise member => ?_
    obtain ⟨fetch, sent, key⟩ := mine promise member
    obtain ⟨after, still, same, -⟩ := later.tiles promise.2 fetch sent
    exact ⟨after, still, same.trans key⟩
  | finished => exact .finished

/-- What is shown is what one chain has come to: all tiles of its key that are listed, in order, or
an error. -/
structure Shows (s : State T) (shown : CoastlineState T) : Prop where
  drawn : shown.error = none → shown.key ≠ [] → ∃ ids, Listed s ids ∧
    shown.tiles.map CoastlineTile.id = shown.key.filter fun id => id ∈ ids
  loaded : ∀ tile ∈ shown.tiles, Loaded s tile.id tile.data
  outside : shown.outsideCoverage = true ↔ shown.key ≠ [] ∧ shown.error = none ∧ shown.tiles = []
  failed : shown.error ≠ none → shown.tiles = []

theorem Later.shows (later : Later s t) {shown : CoastlineState T} (shows_ : Shows s shown) :
    Shows t shown where
  drawn fine some_key := (shows_.drawn fine some_key).imp fun _ found => found.imp_left later.listed
  loaded tile member := later.loaded (shows_.loaded tile member)
  outside := shows_.outside
  failed := shows_.failed

structure Kept (s : State T) : Prop where
  index : s.indexPromise.Sound
  tiles : s.tilePromises.Sound
  listed : ∀ fetch ∈ s.tilePromises.fetches, ∃ ids, Listed s ids ∧ fetch.key ∈ ids
  staged : ∀ load ∈ s.loads, load.key ≠ [] ∧ Staged s load.key load.stage
  cancelled : ∀ n load, s.loads[n]? = some load → (load.cancelled = false ↔ s.live = some n)
  live : ∀ n, s.live = some n → ∃ load, s.loads[n]? = some load ∧ load.key = s.ran
  idle : s.live = none → s.ran = []
  shows_ : Shows s s.state
  settled : ∀ n load, s.live = some n → s.loads[n]? = some load → load.stage = .finished →
    s.state.key = s.ran

/-! ### Effects -/

theorem getElem?_cleanUp (s : State T) (n : Nat) :
    s.cleanUp.loads[n]? = (s.loads[n]?).map fun load =>
      if s.live = some n then { load with cancelled := true } else load := by
  cases at_ : s.live with
  | none => simp [State.cleanUp, at_]
  | some live =>
    simp only [State.cleanUp, at_, List.getElem?_modify, Option.some.injEq]
    cases s.loads[n]? with
    | none => rfl
    | some load => by_cases same : live = n <;> simp [same]

private theorem cleanUp_eq (s : State T) :
    s.cleanUp = { s with live := none, loads := s.cleanUp.loads } := by
  cases at_ : s.live with
  | none =>
    simp only [State.cleanUp, at_]
    rw [← at_]
  | some live => simp only [State.cleanUp, at_]

/-- After a cleanup every load is cancelled, and as it was. -/
private theorem Kept.cleanUp (kept : Kept s) :
    (∀ load ∈ s.cleanUp.loads, load.cancelled = true) ∧
      ∀ load ∈ s.cleanUp.loads, load.key ≠ [] ∧ Staged s load.key load.stage := by
  have before (load : Load) (member : load ∈ s.cleanUp.loads) :
      ∃ n old, s.loads[n]? = some old ∧
        load = if s.live = some n then { old with cancelled := true } else old := by
    obtain ⟨n, at_n⟩ := List.mem_iff_getElem?.mp member
    rw [getElem?_cleanUp, Option.map_eq_some_iff] at at_n
    obtain ⟨old, found, same⟩ := at_n
    exact ⟨n, old, found, same.symm⟩
  constructor
  · intro load member
    obtain ⟨n, old, found, rfl⟩ := before load member
    split
    next => rfl
    next other =>
      rw [← Bool.not_eq_false, kept.cancelled n old found]
      exact other
  · intro load member
    obtain ⟨n, old, found, rfl⟩ := before load member
    have staged := kept.staged old (List.mem_of_getElem? found)
    split
    · exact staged
    · exact staged

/-- One of the steps that leave the loads and what is shown alone. -/
private theorem Kept.later (kept : Kept s) (later : Later s t) (index : t.indexPromise.Sound)
    (tiles : t.tilePromises.Sound)
    (listed : ∀ fetch ∈ t.tilePromises.fetches, ∃ ids, Listed t ids ∧ fetch.key ∈ ids)
    (loads : t.loads = s.loads) (live : t.live = s.live) (ran : t.ran = s.ran)
    (state : t.state = s.state) : Kept t where
  index := index
  tiles := tiles
  listed := listed
  staged load member := (kept.staged load (loads ▸ member)).imp_right later.staged
  cancelled := by rw [loads, live]; exact kept.cancelled
  live := by rw [loads, live, ran]; exact kept.live
  idle := by rw [live, ran]; exact kept.idle
  shows_ := by rw [state]; exact later.shows kept.shows_
  settled := by rw [loads, live, ran, state]; exact kept.settled

private theorem Kept.runsEffects (kept : Kept s) : Kept s.cleanUp.setUp := by
  obtain ⟨all_cancelled, staged⟩ := kept.cleanUp
  rw [cleanUp_eq, State.setUp]
  split
  next none_in_view =>
    have later : Later s { s with live := none, loads := s.cleanUp.loads, ran := s.rendered } :=
      ⟨.refl _, .refl _⟩
    exact {
      index := kept.index
      tiles := kept.tiles
      listed := kept.listed
      staged := fun load member => (staged load member).imp_right later.staged
      cancelled := fun n load found => by
        rw [all_cancelled load (List.mem_of_getElem? found)]
        exact ⟨nofun, nofun⟩
      live := nofun
      idle := fun _ => none_in_view
      shows_ := later.shows kept.shows_
      settled := nofun }
  next some_in_view =>
    have later : Later s { s with
        indexPromise := (s.indexPromise.request ()).1
        ran := s.rendered
        loads := s.cleanUp.loads ++
          [{ key := s.rendered, stage := .index (s.indexPromise.request ()).2 }]
        live := some s.cleanUp.loads.length } := ⟨Cache.grows_request _ _, .refl _⟩
    obtain ⟨fetch, sent, -⟩ := kept.index.request_key ()
    let fresh : Load := ⟨s.rendered, false, .index (s.indexPromise.request ()).2⟩
    have last : (s.cleanUp.loads ++ [fresh])[s.cleanUp.loads.length]? = some fresh :=
      List.getElem?_concat_length
    exact {
      index := kept.index.request ()
      tiles := kept.tiles
      listed := fun fetch member => (kept.listed fetch member).imp fun _ => .imp_left later.listed
      staged := fun load member => by
        rcases List.mem_append.mp member with earlier | new
        · exact (staged load earlier).imp_right later.staged
        · rw [List.mem_singleton.mp new]
          exact ⟨some_in_view, .index _ fetch sent⟩
      cancelled := fun n load found => by
        by_cases new : n = s.cleanUp.loads.length
        · subst new
          obtain rfl := Option.some.inj (last.symm.trans found)
          exact ⟨fun _ => rfl, fun _ => rfl⟩
        · -- the loads before it are cancelled
          have added : (s.cleanUp.loads ++ [fresh])[n]? = some load := found
          have inside := (List.getElem?_eq_some_iff.mp added).1
          rw [List.length_append, List.length_singleton] at inside
          have before : (s.cleanUp.loads ++ [fresh])[n]? = s.cleanUp.loads[n]? :=
            List.getElem?_append_left (by omega)
          rw [all_cancelled load (List.mem_of_getElem? (before.symm.trans added))]
          exact ⟨nofun, fun same => absurd (Option.some.inj same).symm new⟩
      live := fun n at_n => by
        obtain rfl := Option.some.inj at_n
        exact ⟨_, last, rfl⟩
      idle := nofun
      shows_ := later.shows kept.shows_
      settled := fun n load at_n found finished => by
        obtain rfl := Option.some.inj at_n
        obtain rfl := Option.some.inj (last.symm.trans found)
        cases finished }

private theorem Kept.remounts (kept : Kept s) :
    Kept { s.cleanUp with rendered := [], ran := [], state := {} } := by
  obtain ⟨all_cancelled, staged⟩ := kept.cleanUp
  rw [cleanUp_eq]
  have later : Later s { s with
      live := none, loads := s.cleanUp.loads, rendered := [], ran := [], state := {} } :=
    ⟨.refl _, .refl _⟩
  exact {
    index := kept.index
    tiles := kept.tiles
    listed := kept.listed
    staged := fun load member => (staged load member).imp_right later.staged
    cancelled := fun n load found => by
      rw [all_cancelled load (List.mem_of_getElem? found)]
      exact ⟨nofun, nofun⟩
    live := nofun
    idle := fun _ => rfl
    shows_ := ⟨fun _ some_key => absurd rfl some_key, by simp, by simp, by simp⟩
    settled := nofun }

/-! ### Callbacks -/

/-- A load goes on to another stage. -/
private theorem getElem?_set_load {n : Nat} {load : Load} (waiting : s.loads[n]? = some load)
    (stage : Stage) (m : Nat) :
    (s.loads.set n { load with stage := stage })[m]? =
      (s.loads[m]?).map fun other => if n = m then { load with stage := stage } else other := by
  rw [List.getElem?_set]
  by_cases same : n = m
  · subst same
    rw [if_pos rfl, if_pos (List.getElem?_eq_some_iff.mp waiting).1, waiting, Option.map_some,
      if_pos rfl]
  · rw [if_neg same]
    cases s.loads[m]? with
    | none => rfl
    | some other => rw [Option.map_some, if_neg same]

private theorem Kept.conclude (kept : Kept s) {n : Nat} {load : Load}
    (waiting : s.loads[n]? = some load) {result : CoastlineState T} (mine : result.key = load.key)
    (shows_ : Shows s result) : Kept (s.conclude n load result) := by
  have later : Later s (s.conclude n load result) := ⟨.refl _, .refl _⟩
  have at_ (m : Nat) : (s.conclude n load result).loads[m]? = _ :=
    getElem?_set_load waiting .finished m
  have was {m : Nat} {other : Load} (found : (s.conclude n load result).loads[m]? = some other) :
      ∃ before, s.loads[m]? = some before ∧ other.key = before.key ∧
        other.cancelled = before.cancelled ∧ (n = m ∨ other = before) := by
    rw [at_, Option.map_eq_some_iff] at found
    obtain ⟨before, found, rfl⟩ := found
    refine ⟨before, found, ?_⟩
    split
    next same =>
      subst same
      obtain rfl := Option.some.inj (waiting.symm.trans found)
      exact ⟨rfl, rfl, .inl rfl⟩
    next => exact ⟨rfl, rfl, .inr rfl⟩
  exact {
    index := kept.index
    tiles := kept.tiles
    listed := kept.listed
    staged := fun other member => by
      rcases List.mem_or_eq_of_mem_set member with earlier | rfl
      · exact (kept.staged other earlier).imp_right later.staged
      · exact ⟨(kept.staged load (List.mem_of_getElem? waiting)).1, .finished⟩
    cancelled := fun m other found => by
      obtain ⟨before, found, -, same, -⟩ := was found
      rw [same]
      exact kept.cancelled m before found
    live := fun m at_m => by
      obtain ⟨before, found, key⟩ := kept.live m at_m
      rw [at_, found, Option.map_some]
      refine ⟨_, rfl, ?_⟩
      split
      next same =>
        subst same
        obtain rfl := Option.some.inj (waiting.symm.trans found)
        exact key
      next => exact key
    idle := kept.idle
    shows_ := by
      have set : (s.conclude n load result).state = if load.cancelled then s.state else result := rfl
      rw [set]
      split
      · exact later.shows kept.shows_
      · exact later.shows shows_
    settled := fun m other at_m found finished => by
      obtain ⟨before, found, key, -, same | same⟩ := was found
      · -- it is the live load that has come to its end
        subst same
        obtain rfl := Option.some.inj (waiting.symm.trans found)
        obtain ⟨_, found', ran⟩ := kept.live n at_m
        obtain rfl := Option.some.inj (found.symm.trans found')
        have running := (kept.cancelled n load found).mpr at_m
        simp only [State.conclude, running, Bool.false_eq_true, if_false]
        exact mine.trans ran
      · subst same
        have concluded := kept.settled m other at_m found finished
        rw [State.conclude]
        split
        · exact concluded
        next running =>
          -- no other load than the live one sets the state
          have live := (kept.cancelled n load waiting).mp (by simpa using running)
          obtain rfl := Option.some.inj (live.symm.trans at_m)
          obtain ⟨_, found', ran⟩ := kept.live n at_m
          obtain rfl := Option.some.inj (waiting.symm.trans found')
          exact mine.trans ran }

private theorem Kept.requestsTiles (kept : Kept s) {n : Nat} {load : Load} {i : Nat}
    {ids : List TileId} (waiting : s.loads[n]? = some load)
    (arrived : s.indexPromise.value? i = some ids) :
    Kept { s with
      tilePromises := (s.tilePromises.requestAll (load.key.filter fun id => id ∈ ids)).1
      loads := s.loads.set n { load with
        stage := .tiles (s.tilePromises.requestAll (load.key.filter fun id => id ∈ ids)).2 } } := by
  obtain ⟨sound, grows, wanted, mine, members⟩ :=
    kept.tiles.requestAll (load.key.filter fun id => id ∈ ids)
  have later : Later s { s with
      tilePromises := (s.tilePromises.requestAll (load.key.filter fun id => id ∈ ids)).1
      loads := s.loads.set n { load with
        stage := .tiles (s.tilePromises.requestAll (load.key.filter fun id => id ∈ ids)).2 } } :=
    ⟨.refl _, grows⟩
  generalize s.tilePromises.requestAll (load.key.filter fun id => id ∈ ids) = asked at *
  have at_ (m : Nat) := getElem?_set_load waiting (.tiles asked.2) m
  have was {m : Nat} {other : Load}
      (found : (s.loads.set n { load with stage := .tiles asked.2 })[m]? = some other) :
      ∃ before, s.loads[m]? = some before ∧ other.key = before.key ∧
        other.cancelled = before.cancelled ∧ (other.stage = .finished → other = before) := by
    rw [at_, Option.map_eq_some_iff] at found
    obtain ⟨before, found, rfl⟩ := found
    refine ⟨before, found, ?_⟩
    split
    next same =>
      subst same
      obtain rfl := Option.some.inj (waiting.symm.trans found)
      exact ⟨rfl, rfl, nofun⟩
    next => exact ⟨rfl, rfl, fun _ => rfl⟩
  exact {
    index := kept.index
    tiles := sound
    listed := fun fetch member => by
      rcases members fetch member with earlier | new
      · exact (kept.listed fetch earlier).imp fun _ => .imp_left later.listed
      · exact ⟨ids, later.listed ⟨i, arrived⟩, by simpa using (List.mem_filter.mp new).2⟩
    staged := fun other member => by
      rcases List.mem_or_eq_of_mem_set member with earlier | rfl
      · exact (kept.staged other earlier).imp_right later.staged
      · exact ⟨(kept.staged load (List.mem_of_getElem? waiting)).1,
          .tiles asked.2 ids (later.listed ⟨i, arrived⟩) wanted mine⟩
    cancelled := fun m other found => by
      obtain ⟨before, found, -, same, -⟩ := was found
      rw [same]
      exact kept.cancelled m before found
    live := fun m at_m => by
      obtain ⟨before, found, key⟩ := kept.live m at_m
      refine ⟨_, (at_ m).trans (by rw [found, Option.map_some]), ?_⟩
      split
      next same =>
        subst same
        obtain rfl := Option.some.inj (waiting.symm.trans found)
        exact key
      next => exact key
    idle := kept.idle
    shows_ := later.shows kept.shows_
    settled := fun m other at_m found finished => by
      obtain ⟨before, found, -, -, same⟩ := was found
      rw [same finished] at finished
      exact kept.settled m before at_m found finished }

private theorem arrived_all {promises : List (TileId × Nat)} {tiles : List (CoastlineTile T)}
    (arrived : List.Forall₂ (fun promise tile => tile.id = promise.1 ∧
      s.tilePromises.value? promise.2 = some tile.data) promises tiles) :
    tiles.map CoastlineTile.id = promises.map Prod.fst ∧ ∀ tile ∈ tiles, ∃ promise ∈ promises,
      tile.id = promise.1 ∧ s.tilePromises.value? promise.2 = some tile.data := by
  induction arrived with
  | nil => exact ⟨rfl, by simp⟩
  | @cons promise tile promises tiles first _ ih =>
    refine ⟨by rw [List.map_cons, List.map_cons, first.1, ih.1], fun other member => ?_⟩
    rcases List.mem_cons.mp member with rfl | later
    · exact ⟨promise, List.mem_cons_self, first⟩
    · obtain ⟨one, earlier, found⟩ := ih.2 other later
      exact ⟨one, List.mem_cons_of_mem promise earlier, found⟩

theorem step_kept {event : Event} (kept : Kept s) (step : Step s event t) : Kept t := by
  cases step with
  | renders key =>
    exact kept.later ⟨.refl _, .refl _⟩ kept.index kept.tiles kept.listed rfl rfl rfl rfl
  | runsEffects changed => exact kept.runsEffects
  | remounts => exact kept.remounts
  | indexArrives i fetch ids sent out =>
    have later : Later s { s with indexPromise := s.indexPromise.settle i (.fulfilled ids) } :=
      ⟨Cache.grows_settle sent out _, .refl _⟩
    exact kept.later later (kept.index.fulfil sent out ids) kept.tiles
      (fun fetch member => (kept.listed fetch member).imp fun _ => .imp_left later.listed)
      rfl rfl rfl rfl
  | indexFails i fetch err sent out =>
    have later : Later s { s with indexPromise := s.indexPromise.fail i fetch.key err } :=
      ⟨Cache.grows_settle sent out _, .refl _⟩
    exact kept.later later (kept.index.fail sent out err) kept.tiles
      (fun fetch member => (kept.listed fetch member).imp fun _ => .imp_left later.listed)
      rfl rfl rfl rfl
  | tileArrives i fetch data sent out =>
    have later : Later s { s with tilePromises := s.tilePromises.settle i (.fulfilled data) } :=
      ⟨.refl _, Cache.grows_settle sent out _⟩
    exact kept.later later kept.index (kept.tiles.fulfil sent out data) (fun fetch member => by
      obtain ⟨old, earlier, same⟩ := Cache.mem_settle member
      rw [same]
      exact (kept.listed old earlier).imp fun _ => .imp_left later.listed) rfl rfl rfl rfl
  | tileFails i fetch err sent out =>
    have later : Later s { s with tilePromises := s.tilePromises.fail i fetch.key err } :=
      ⟨.refl _, Cache.grows_settle sent out _⟩
    exact kept.later later kept.index (kept.tiles.fail sent out err) (fun fetch member => by
      obtain ⟨old, earlier, same⟩ := Cache.mem_settle member
      rw [same]
      exact (kept.listed old earlier).imp fun _ => .imp_left later.listed) rfl rfl rfl rfl
  | requestsTiles n load i ids waiting at_index arrived => exact kept.requestsTiles waiting arrived
  | draws n load promises tiles waiting at_tiles arrived =>
    obtain ⟨some_key, staged⟩ := kept.staged load (List.mem_of_getElem? waiting)
    rw [at_tiles] at staged
    cases staged with
    | tiles _ ids listed wanted mine =>
      obtain ⟨same, each⟩ := arrived_all arrived
      refine kept.conclude waiting rfl ⟨fun _ _ => ⟨ids, listed, same.trans wanted⟩, ?_, ?_, ?_⟩
      · intro tile member
        obtain ⟨promise, one, id, value⟩ := each tile member
        obtain ⟨fetch, sent, key⟩ := mine promise one
        exact ⟨promise.2, fetch, sent, key.trans id.symm, value⟩
      · simp [drawn, some_key]
      · exact fun wrong => absurd rfl wrong
  | losesIndex n load i fetch err waiting at_index sent lost =>
    exact kept.conclude waiting rfl ⟨nofun, by simp [failed], by simp [failed], fun _ => rfl⟩
  | losesTile n load promises promise fetch err waiting at_tiles one sent lost =>
    exact kept.conclude waiting rfl ⟨nofun, by simp [failed], by simp [failed], fun _ => rfl⟩

theorem run_kept {trace : List Event} (run : Run Step ({} : State T) trace s) : Kept s := by
  refine Run.invariant (fun _ s => Kept s) ?_ (fun kept step => step_kept kept step) run
  exact {
    index := Cache.sound_empty
    tiles := Cache.sound_empty
    listed := by simp
    staged := by simp
    cancelled := by simp
    live := nofun
    idle := fun _ => rfl
    shows_ := ⟨fun _ some_key => absurd rfl some_key, by simp, by simp, by simp⟩
    settled := nofun }

/-! ### At rest -/

/-- All fetches have been answered. -/
def Answered {κ ν : Type} (cache : Cache κ ν String) : Prop :=
  ∀ fetch ∈ cache.fetches, fetch.promise ≠ .pending

/-- An answered fetch has a value, or has failed. -/
private theorem Answered.cases {κ ν : Type} {cache : Cache κ ν String} (answered : Answered cache)
    {i : Nat} {fetch : Fetch κ ν String} (sent : cache.fetches[i]? = some fetch) :
    (∃ value, cache.value? i = some value) ∨ ∃ err, fetch.promise = .rejected err := by
  cases promise : fetch.promise with
  | pending => exact absurd promise (answered fetch (List.mem_of_getElem? sent))
  | fulfilled value => exact .inl ⟨value, Cache.value?_eq_some_iff.mpr ⟨fetch, sent, promise⟩⟩
  | rejected err => exact .inr ⟨err, rfl⟩

/-- A load that waits for nothing has a callback to run. -/
private theorem exists_continued (kept : Kept s) (indexed : Answered s.indexPromise)
    (tiled : Answered s.tilePromises) {load : Load} (member : load ∈ s.loads)
    (going : load.stage ≠ .finished) : ∃ t, Step s .continued t := by
  obtain ⟨n, waiting⟩ := List.mem_iff_getElem?.mp member
  obtain ⟨-, staged⟩ := kept.staged load member
  generalize at_ : load.stage = stage at staged going
  cases staged with
  | finished => exact absurd rfl going
  | index i fetch sent =>
    rcases indexed.cases sent with ⟨ids, arrived⟩ | ⟨err, lost⟩
    · exact ⟨_, .requestsTiles s n load i ids waiting at_ arrived⟩
    · exact ⟨_, .losesIndex s n load i fetch err waiting at_ sent lost⟩
  | tiles promises ids listed wanted mine =>
    -- either one of them has failed, or all have arrived
    by_cases lost : ∃ promise ∈ promises, ∃ fetch err,
        s.tilePromises.fetches[promise.2]? = some fetch ∧ fetch.promise = .rejected err
    · obtain ⟨promise, one, fetch, err, sent, lost⟩ := lost
      exact ⟨_, .losesTile s n load promises promise fetch err waiting at_ one sent lost⟩
    · have arrived : ∃ tiles : List (CoastlineTile T), List.Forall₂ (fun promise tile =>
          tile.id = promise.1 ∧ s.tilePromises.value? promise.2 = some tile.data) promises tiles := by
        clear wanted at_ going
        induction promises with
        | nil => exact ⟨[], .nil⟩
        | cons promise promises ih =>
          obtain ⟨tiles, rest⟩ := ih (fun other later => mine other (List.mem_cons_of_mem _ later))
            fun ⟨other, later, failing⟩ => lost ⟨other, List.mem_cons_of_mem _ later, failing⟩
          obtain ⟨fetch, sent, -⟩ := mine promise List.mem_cons_self
          rcases tiled.cases sent with ⟨data, value⟩ | ⟨err, failed⟩
          · exact ⟨⟨promise.1, data⟩ :: tiles, .cons ⟨rfl, value⟩ rest⟩
          · exact absurd ⟨promise, List.mem_cons_self, fetch, err, sent, failed⟩ lost
      obtain ⟨tiles, arrived⟩ := arrived
      exact ⟨_, .draws s n load promises tiles waiting at_ arrived⟩

/-- Nothing is left to do. -/
structure AtRest (s : State T) : Prop where
  ran : s.rendered = s.ran
  index : Answered s.indexPromise
  tiles : Answered s.tilePromises
  callbacks : ∀ t, ¬ Step s .continued t

/-- The coast that is shown. At every moment of every run a tile or the index is fetched again only
after its last fetch has failed, and a tile only if the index lists it; what is shown is for one
set of tiles all of those listed, with what arrived for each, or an error and none; and no coastline
is said to be near only where the index lists no tile in view. Once nothing is left to do, it is
shown for the tiles in view, whatever was in view before. -/
theorem coastline_loads (trace : List Event) (s : State T) (run : Run Step {} trace s) :
    (∀ (i j : Nat) (first second : Fetch Unit (List TileId) String), i < j →
      s.indexPromise.fetches[i]? = some first → s.indexPromise.fetches[j]? = some second →
      ∃ err, first.promise = .rejected err) ∧
    (∀ (i j : Nat) (first second : Fetch TileId T String), i < j →
      s.tilePromises.fetches[i]? = some first → s.tilePromises.fetches[j]? = some second →
      first.key = second.key → ∃ err, first.promise = .rejected err) ∧
    (∀ fetch ∈ s.tilePromises.fetches, ∃ ids, Listed s ids ∧ fetch.key ∈ ids) ∧
    Shows s s.state ∧
    (s.returned.outsideCoverage = true → ∃ ids, Listed s ids ∧ ∀ id ∈ s.rendered, id ∉ ids) ∧
    (AtRest s → s.rendered ≠ [] → s.state.key = s.rendered) := by
  have kept := run_kept run
  refine ⟨?_, ?_, kept.listed, kept.shows_, ?_, ?_⟩
  · intro i j first second before sent sent'
    exact Fetch.not_live_iff.mp (kept.index.retried i j first second before sent sent' rfl)
  · intro i j first second before sent sent' same
    exact Fetch.not_live_iff.mp (kept.tiles.retried i j first second before sent sent' same)
  · intro outside
    simp only [State.returned, Bool.and_eq_true, decide_eq_true_eq] at outside
    obtain ⟨mine, outside⟩ := outside
    obtain ⟨some_key, fine, empty⟩ := kept.shows_.outside.mp outside
    obtain ⟨ids, listed, all⟩ := kept.shows_.drawn fine some_key
    refine ⟨ids, listed, fun id member inside => ?_⟩
    rw [empty, mine, List.map_nil, eq_comm, List.filter_eq_nil_iff] at all
    exact all id member (by simpa using inside)
  · intro rest some_key
    cases at_ : s.live with
    | none => exact absurd (rest.ran.trans (kept.idle at_)) some_key
    | some n =>
      obtain ⟨load, found, -⟩ := kept.live n at_
      rw [rest.ran]
      refine kept.settled n load at_ found ?_
      by_contra going
      obtain ⟨t, step⟩ := exists_continued kept rest.index rest.tiles (List.mem_of_getElem? found) going
      exact rest.callbacks t step

/-- The index fails for one view and arrives for the next. -/
theorem coastline_loads_retry :
    ∃ (trace : List Event) (s : State Unit), Run Step {} trace s ∧ s.state.key = [⟨62, 6⟩] ∧
      s.indexPromise.fetches.length = 2 ∧ s.state.tiles.map CoastlineTile.id = [⟨62, 6⟩] ∧
      Shows s s.state := by
  have run : ∃ s : State Unit, s.state.key = [⟨62, 6⟩] ∧ s.indexPromise.fetches.length = 2 ∧
      s.state.tiles.map CoastlineTile.id = [⟨62, 6⟩] ∧ Run Step {}
        [.rendered [⟨61, 5⟩], .ranEffects, .answered, .rendered [⟨62, 6⟩], .ranEffects, .continued,
          .answered, .continued, .answered, .continued] s :=
    ⟨_, rfl, rfl, rfl, _, .renders _ [⟨61, 5⟩], _, .runsEffects _ (by decide),
      _, .indexFails _ 0 ⟨(), .pending⟩ "Error: HTTP 404 for /coastline/index.json" rfl rfl,
      _, .renders _ [⟨62, 6⟩], _, .runsEffects _ (by decide),
      _, .losesIndex _ 0 ⟨[⟨61, 5⟩], true, .index 0⟩ 0 _ _ rfl rfl rfl rfl,
      _, .indexArrives _ 1 ⟨(), .pending⟩ [⟨62, 6⟩] rfl rfl,
      _, .requestsTiles _ 1 ⟨[⟨62, 6⟩], false, .index 1⟩ 1 [⟨62, 6⟩] rfl rfl rfl,
      _, .tileArrives _ 0 ⟨⟨62, 6⟩, .pending⟩ () rfl rfl,
      _, .draws _ 1 ⟨[⟨62, 6⟩], false, .tiles [(⟨62, 6⟩, 0)]⟩ _ [⟨⟨62, 6⟩, ()⟩] rfl rfl
        (.cons ⟨rfl, rfl⟩ .nil), rfl⟩
  obtain ⟨s, key, fetches, tiles, run⟩ := run
  exact ⟨_, s, run, key, fetches, tiles, (coastline_loads _ s run).2.2.2.1⟩

end Ais.UseCoastline
