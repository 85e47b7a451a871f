import CosmicPass.Installation
import CosmicPass.Proof.DataSlot
import CosmicPass.Proof.StoreDelete
import CosmicPass.Proof.StoreRegister

/-!
# Where the items on screen come from

A listing arrives once. From then on it is passed from hand to hand: held, snapshotted, queued,
sealed, written, read by a later process, held again. It does not change on the way, and keeps the
time it arrived at, wherever the process ends and whatever fails.
-/

namespace CosmicPass

namespace Model

/-- When the data held arrived. -/
def heldSince (m : Model) : Option Int :=
  match m.data.source with
  | .memory => m.data.fetchedAt
  | .diskCache => m.data.cachedAt

/-- The data held, and when it arrived. -/
def dated (m : Model) : Option Int × Listing :=
  (m.heldSince, { vaults := m.data.vaults, items := m.data.items })

variable {m m' : Model}

theorem dated_of_same (h : Part.data.Same m m') : m'.dated = m.dated := by
  obtain ⟨hvaults, hitems, hfetched, hsource, hcached, -, -⟩ := h
  simp only [dated, heldSince, hvaults, hitems, hfetched, hsource, hcached]

theorem dated_of_wiped (h : m.Wiped) : m.dated = (none, { vaults := [], items := [] }) := by
  have hsince : m.heldSince = none := by
    unfold heldSince
    split
    · exact h.fetchedAt
    · exact h.cachedAt
  simp only [dated, hsince, h.vaults, h.items]

theorem dated_of_snapshot {file : CacheFile} (h : m.cacheSnapshot = some file) :
    m.dated = (some file.fetchedAt, file.listing) := by
  unfold cacheSnapshot at h
  split at h
  next =>
    obtain ⟨fetchedAt, hsince, rfl⟩ := Option.map_eq_some_iff.mp h
    have hheld : m.heldSince = some fetchedAt := hsince
    simp only [dated, hheld, CacheFile.listing]
  next => cases h

variable [TextSupport]

theorem replaceItems_dated (m : Model) (listing : Listing) :
    (m.replaceItems listing).dated = (m.heldSince, listing) := by
  simp [dated, heldSince, replaceItems, dropStaleReveal_eq, recomputeResults]

/-- **What a message does to the data held.** It stays, it goes, or it is what the message brings. -/
theorem update_dated (m : Model) (msg : Msg) (now : Int) :
    (m.update msg now).1.dated = m.dated ∨
      (m.update msg now).1.dated = (none, { vaults := [], items := [] }) ∨
      (∃ listing, msg = .dataLoaded listing ∧ (m.update msg now).1.dated = (some now, listing)) ∨
      ∃ file, msg = .cacheLoaded (some file) ∧
        (m.update msg now).1.dated = (some file.fetchedAt, file.listing) := by
  cases m.update_dataMove msg now with
  | keep hsame => exact Or.inl (dated_of_same hsame)
  | wipe hwiped => exact Or.inr (Or.inl (dated_of_wiped hwiped))
  | name account hmsg _ _ hdata =>
      by_cases hanother : m.heldForAnother account
      · rw [if_pos hanother] at hdata
        exact Or.inr (Or.inl (dated_of_wiped hdata))
      · subst hmsg
        refine Or.inl ?_
        simp only [update, sessionProbed, signedIn_fst, if_neg hanother, requestRefresh_fst, dated,
          heldSince]
  | list listing hmsg =>
      subst hmsg
      exact Or.inr (Or.inr (Or.inl ⟨listing, rfl, replaceItems_dated _ listing⟩))
  | cache file hmsg =>
      subst hmsg
      simp only [update, cacheLoaded]
      split
      next => exact Or.inl rfl
      next =>
        split
        next => exact Or.inl rfl
        next => exact Or.inr (Or.inr (Or.inr ⟨file, rfl, replaceItems_dated _ file.listing⟩))
  | use fetch value hmsg hpending =>
      subst hmsg
      refine Or.inl ?_
      simp only [update, copyFetched, hpending, if_true, copySettled, finishCopy, dated, heldSince]

end Model

/-! ### The files in the store's hands -/

def CacheTask.files : CacheTask → List CacheFile
  | .persist file | .key file | .seal _ file => [file]
  | .writeAtomic cache => [cache.file]
  | _ => []

def LoadTask.files : LoadTask → List CacheFile
  | .key cache => [cache.file]
  | .done file => file.toList
  | .read | .remove => []

/-- The file a message brings. -/
def Msg.files : Msg → List CacheFile
  | .cacheLoaded file => file.toList
  | _ => []

namespace CacheStore

/-- Every file there is, on disk, in the queue or with a task, is such a one. -/
structure Holds (property : CacheFile → Prop) (s : CacheStore) : Prop where
  disk : ∀ cache, s.file = some cache → property cache.file
  queue : ∀ file, s.queue.pending = some file → property file
  tasks : ∀ task ∈ s.tasks, ∀ file ∈ task.files, property file

variable {property : CacheFile → Prop} {s s' : CacheStore}

theorem Holds.spawn (h : s.Holds property) {task : CacheTask}
    (htask : ∀ file ∈ task.files, property file) : (s.spawn task).Holds property :=
  ⟨h.disk, h.queue, forall_mem_spawn h.tasks htask⟩

theorem Holds.saveDebounced (h : s.Holds property) {file : CacheFile} (hfile : property file) :
    (s.saveDebounced file).Holds property := by
  refine ⟨?_, ?_, forall_mem_saveDebounced h.tasks (by simp [CacheTask.files]) file⟩
  · unfold CacheStore.saveDebounced
    split <;> exact h.disk
  · unfold CacheStore.saveDebounced
    split <;> (rintro _ ⟨⟩; exact hfile)

/-- A poll hands on what the task had, or what was in the queue. -/
theorem Holds.poll (h : s.Holds property) {task next : CacheTask} {s₁ : CacheStore}
    (htask : ∀ file ∈ task.files, property file) (hpoll : s.poll task = some (s₁, next)) :
    s₁.Holds property ∧ ∀ file ∈ next.files, property file := by
  cases task with
  | persist file =>
      obtain ⟨rfl, rfl⟩ := Prod.mk.inj (Option.some.inj hpoll)
      exact ⟨h.saveDebounced (htask file (by simp [CacheTask.files])), by simp [CacheTask.files]⟩
  | timer =>
      obtain ⟨rfl, rfl⟩ := Prod.mk.inj (Option.some.inj hpoll)
      refine ⟨⟨h.disk, by simp, h.tasks⟩, ?_⟩
      cases hpending : s.queue.pending with
      | none => simp [saveTaken, CacheTask.files]
      | some file => simpa [saveTaken, CacheTask.files] using h.queue file hpending
  | key file =>
      simp only [CacheStore.poll] at hpoll
      split at hpoll
      · obtain ⟨rfl, rfl⟩ := Prod.mk.inj (Option.some.inj hpoll)
        exact ⟨⟨h.disk, h.queue, h.tasks⟩, htask⟩
      · obtain ⟨rfl, rfl⟩ := Prod.mk.inj (Option.some.inj hpoll)
        exact ⟨⟨h.disk, h.queue, h.tasks⟩, by simp [CacheTask.files]⟩
  | «seal» key file =>
      obtain ⟨rfl, rfl⟩ := Prod.mk.inj (Option.some.inj hpoll)
      exact ⟨h, htask⟩
  | writeAtomic cache =>
      obtain ⟨rfl, rfl⟩ := Prod.mk.inj (Option.some.inj hpoll)
      refine ⟨⟨?_, h.queue, h.tasks⟩, by simp [CacheTask.files]⟩
      rintro _ ⟨⟩
      exact htask cache.file (by simp [CacheTask.files])
  | clear =>
      obtain ⟨rfl, rfl⟩ := Prod.mk.inj (Option.some.inj hpoll)
      exact ⟨⟨h.disk, by simp, h.tasks⟩, by simp [CacheTask.files]⟩
  | remove =>
      obtain ⟨rfl, rfl⟩ := Prod.mk.inj (Option.some.inj hpoll)
      exact ⟨⟨by simp, h.queue, h.tasks⟩, by simp [CacheTask.files]⟩
  | deleteKey =>
      obtain ⟨rfl, rfl⟩ := Prod.mk.inj (Option.some.inj hpoll)
      exact ⟨⟨h.disk, h.queue, h.tasks⟩, by simp [CacheTask.files]⟩
  | finished => cases hpoll

theorem failed_files {task next : CacheTask} (h : failed task = some next) : next.files = [] := by
  cases task <;> cases h <;> rfl

/-- Nothing comes into the store on its own. -/
theorem Holds.runs (h : s.Holds property) {event : CacheEvent}
    (hruns : Installation.runs event = true) (hstep : s.step event = some s') : s'.Holds property := by
  cases event with
  | run id =>
      obtain ⟨task, s₁, next, htask, hpoll, rfl⟩ := step_run_eq_some hstep
      obtain ⟨hheld, hnext⟩ := h.poll (h.tasks task (List.mem_of_getElem? htask)) hpoll
      exact ⟨hheld.disk, hheld.queue, forall_mem_set hheld.tasks hnext⟩
  | fail id =>
      obtain ⟨task, next, -, hfailed, rfl⟩ := step_fail_eq_some hstep
      exact ⟨h.disk, h.queue, forall_mem_set h.tasks (by simp [failed_files hfailed])⟩
  | unsynced id =>
      obtain ⟨cache, htask, rfl⟩ := step_unsynced_eq_some hstep
      refine ⟨?_, h.queue, forall_mem_set h.tasks (by simp [CacheTask.files])⟩
      rintro _ ⟨⟩
      exact h.tasks _ (List.mem_of_getElem? htask) cache.file (by simp [CacheTask.files])
  | keyring unavailable =>
      obtain rfl := Option.some.inj hstep
      exact ⟨h.disk, h.queue, h.tasks⟩
  | persist | deleteCache | save | saveDebounced => cases hruns

theorem Holds.pollLoad (h : s.Holds property) {task next : LoadTask} {s₁ : CacheStore}
    (htask : ∀ file ∈ task.files, property file) (hpoll : s.pollLoad task = some (s₁, next)) :
    s₁.Holds property ∧ ∀ file ∈ next.files, property file := by
  cases task with
  | read =>
      simp only [CacheStore.pollLoad] at hpoll
      split at hpoll
      · obtain ⟨rfl, rfl⟩ := Prod.mk.inj (Option.some.inj hpoll)
        exact ⟨h, by simp [LoadTask.files]⟩
      next cache hfile =>
        obtain ⟨rfl, rfl⟩ := Prod.mk.inj (Option.some.inj hpoll)
        exact ⟨h, by simpa [LoadTask.files] using h.disk cache hfile⟩
  | key cache =>
      simp only [CacheStore.pollLoad] at hpoll
      split at hpoll
      · split at hpoll
        · obtain ⟨rfl, rfl⟩ := Prod.mk.inj (Option.some.inj hpoll)
          exact ⟨⟨h.disk, h.queue, h.tasks⟩, htask⟩
        · obtain ⟨rfl, rfl⟩ := Prod.mk.inj (Option.some.inj hpoll)
          exact ⟨⟨h.disk, h.queue, h.tasks⟩, by simp [LoadTask.files]⟩
      · obtain ⟨rfl, rfl⟩ := Prod.mk.inj (Option.some.inj hpoll)
        exact ⟨⟨h.disk, h.queue, h.tasks⟩, by simp [LoadTask.files]⟩
      · obtain ⟨rfl, rfl⟩ := Prod.mk.inj (Option.some.inj hpoll)
        exact ⟨⟨h.disk, h.queue, h.tasks⟩, by simp [LoadTask.files]⟩
  | remove =>
      obtain ⟨rfl, rfl⟩ := Prod.mk.inj (Option.some.inj hpoll)
      exact ⟨⟨by simp, h.queue, h.tasks⟩, by simp [LoadTask.files]⟩
  | done file => cases hpoll

/-- A load polled again and again, with nothing in between. -/
def loadToEnd : Nat → CacheStore → LoadTask → CacheStore × LoadTask
  | 0, s, task => (s, task)
  | fuel + 1, s, task =>
      match s.pollLoad task with
      | some (s, next) => loadToEnd fuel s next
      | none => (s, task)

theorem loadToEnd_read (s : CacheStore) : loadToEnd 3 s .read = (s.load.2, .done s.load.1) := by
  cases hfile : s.file with
  | none => simp [loadToEnd, CacheStore.pollLoad, load, hfile]
  | some cache =>
      simp only [loadToEnd, CacheStore.pollLoad, load, hfile]
      cases hkey : s.keys.key false with
      | mk outcome keys =>
          cases outcome with
          | ok key =>
              dsimp only
              by_cases hreads : cache.key = key ∧ cache.file.formatVersion = cacheFormatVersion
              · simp only [if_pos hreads]
              · simp only [if_neg hreads]
          | error state => cases state <;> rfl

theorem Holds.mono {weaker : CacheFile → Prop} (hweaker : ∀ file, property file → weaker file)
    (h : s.Holds property) : s.Holds weaker :=
  ⟨fun cache hcache => hweaker _ (h.disk cache hcache),
    fun file hfile => hweaker _ (h.queue file hfile),
    fun task htask file hfile => hweaker _ (h.tasks task htask file hfile)⟩

/-- What a new process finds. -/
theorem Holds.new (h : s.Holds property) : (CacheStore.new s.file s.keys).Holds property :=
  ⟨h.disk, by simp [CacheStore.new], by simp [CacheStore.new]⟩

end CacheStore

namespace Installation

/-- Where there is data, it arrived as it is, when it is said to have. -/
def Arrived (arrivals : List (Int × Listing)) : Option Int × Listing → Prop
  | (some since, listing) => (since, listing) ∈ arrivals
  | (none, listing) => listing = { vaults := [], items := [] }

/-- The file is of a listing that arrived. -/
def Keeps (arrivals : List (Int × Listing)) (file : CacheFile) : Prop :=
  (file.fetchedAt, file.listing) ∈ arrivals

/-- Whatever there is arrived once. -/
structure Accounted (s : Installation) : Prop where
  held : Arrived s.arrivals s.world.model.dated
  store : s.store.Holds (Keeps s.arrivals)
  loads : ∀ load ∈ s.loads, ∀ file ∈ load.2.files, Keeps s.arrivals file
  answers : ∀ done ∈ s.world.resolved, ∀ file ∈ done.2.files, Keeps s.arrivals file

variable {s s' : Installation}

theorem accounted_first (prefs : Preferences) (account : Option AccountId) (file : Option SealedCache)
    (keys : KeyStore) : (first prefs account file keys).Accounted := by
  refine ⟨rfl, ⟨?_, by simp [first, CacheStore.new], by simp [first, CacheStore.new]⟩,
    by simp [first], by simp [first, World.start]⟩
  intro cache hcache
  have hfile : file = some cache := hcache
  simp [first, Keeps, hfile]

theorem Arrived.mono {arrivals later : List (Int × Listing)} (hsub : arrivals ⊆ later)
    {held : Option Int × Listing} (h : Arrived arrivals held) : Arrived later held := by
  obtain ⟨_ | since, listing⟩ := held
  · exact h
  · exact hsub h

/-- What is given is there from then on. -/
theorem Accounted.given (h : s.Accounted) (given : List (Int × Listing)) :
    Accounted { s with arrivals := s.arrivals ++ given } := by
  have hkeeps : ∀ file, Keeps s.arrivals file → Keeps (s.arrivals ++ given) file := fun _ =>
    List.mem_append_left _
  exact ⟨h.held.mono (List.subset_append_left _ _), h.store.mono hkeeps,
    fun load hload file hfile => hkeeps file (h.loads load hload file hfile),
    fun done hdone file hfile => hkeeps file (h.answers done hdone file hfile)⟩

/-- What is persisted is the data held. -/
theorem Accounted.carryOut (h : s.Accounted) (id : Nat) (effect : Effect) :
    (s.carryOut id effect).Accounted := by
  cases effect with
  | persist =>
      simp only [Installation.carryOut]
      split
      next file hsnapshot =>
        have hkeeps : Arrived s.arrivals (some file.fetchedAt, file.listing) :=
          Model.dated_of_snapshot hsnapshot ▸ h.held
        have hstored : Keeps s.arrivals file := hkeeps
        exact ⟨h.held, h.store.spawn (by simpa [CacheTask.files] using hstored), h.loads, h.answers⟩
      next => exact h
  | deleteCache =>
      exact ⟨h.held, h.store.spawn (by simp [CacheTask.files]), h.loads, h.answers⟩
  | loadCache =>
      refine ⟨h.held, h.store, fun load hmem => ?_, h.answers⟩
      rcases List.mem_append.mp hmem with hold | hnew
      · exact h.loads load hold
      · obtain rfl := List.mem_singleton.mp hnew
        simp [LoadTask.files]
  | _ => exact h

theorem Accounted.carryOutAll (flights : List (Flight × Nat)) (h : s.Accounted) :
    (flights.foldl (fun s flight => s.carryOut flight.2 flight.1.effect) s).Accounted := by
  induction flights generalizing s with
  | nil => exact h
  | cons flight rest ih => exact ih (h.carryOut flight.2 flight.1.effect)

/-- A message brings a file that a load found. -/
theorem reply_of_files {effect : Effect} {reply : Reply} {msg : Msg} {file : CacheFile}
    (hmsg : execute effect reply = some msg) (hfile : file ∈ msg.files) :
    reply = .cache (some file) := by
  cases msg <;> simp [Msg.files] at hfile
  unfold execute at hmsg
  split at hmsg <;> simp_all

section Runs

variable [TextSupport] {guard : Installation → InstallationEvent → Prop}

/-- A message is handled that brings nothing else than what arrived. -/
theorem Accounted.feed (h : s.Accounted) {msg : Msg} {now : Int}
    (hlisting : ∀ listing, msg = .dataLoaded listing → (now, listing) ∈ s.arrivals)
    (hfile : ∀ file ∈ msg.files, Keeps s.arrivals file) (answered : List (Nat × Msg)) :
    Accounted { s with world := { s.world.feed msg now with answered } } := by
  refine ⟨?_, h.store, h.loads, h.answers⟩
  change Arrived s.arrivals (s.world.model.update msg now).1.dated
  rcases s.world.model.update_dated msg now with
    hsame | hgone | ⟨listing, hmsg, hdated⟩ | ⟨file, rfl, hdated⟩
  · rw [hsame]
    exact h.held
  · rw [hgone]
    rfl
  · rw [hdated]
    exact hlisting listing hmsg
  · rw [hdated]
    exact hfile file (by simp [Msg.files])

theorem Accounted.world (h : s.Accounted) {event : Event} {world : World}
    (hload : ∀ id file, event = .resolve id (.cache (some file)) → Keeps s.arrivals file)
    (hstep : s.world.step event = some world) :
    Accounted { s with arrivals := s.arrivals ++ s.given event, world } := by
  have hgiven := h.given (s.given event)
  rcases World.step_cases hstep with ⟨msg, now, rfl, huser, rfl⟩ |
    ⟨id, reply, flight, msg, rfl, -, hmsg, -, -, rfl⟩ | ⟨id, now, -, rfl, -, -, -⟩ | ⟨account, -, rfl⟩
  · refine hgiven.feed (fun listing hlisting => ?_) (fun file hfile => ?_) _
    · simp [hlisting, Msg.isAnswer] at huser
    · cases msg <;> simp [Msg.files] at hfile
      simp [Msg.isAnswer] at huser
  · refine ⟨hgiven.held, hgiven.store, hgiven.loads, fun done hmem file hfile => ?_⟩
    rcases List.mem_cons.mp hmem with rfl | hold
    · obtain rfl := reply_of_files hmsg hfile
      exact List.mem_append_left _ (hload id file rfl)
    · exact hgiven.answers done hold file hfile
  · cases hdone : s.world.resolved.find? fun done => done.1 = id with
    | none => simp [World.step, hdone] at hstep
    | some done =>
        obtain ⟨found, msg⟩ := done
        simp only [World.step, hdone] at hstep
        split at hstep
        next => cases hstep
        next =>
          obtain rfl := Option.some.inj hstep
          refine hgiven.feed (fun listing hlisting => ?_) (fun file hfile => ?_) _
          · subst hlisting
            simp [Installation.given, hdone]
          · exact hgiven.answers (found, msg) (List.mem_of_find?_eq_some hdone) file hfile
  · exact ⟨hgiven.held, hgiven.store, hgiven.loads, hgiven.answers⟩

theorem world_of_step {event : Event} (hstep : s.step (.world event) = some s') :
    (∀ id file, event ≠ .resolve id (.cache file)) ∧ ∃ world, s.world.step event = some world ∧
      s' = { s with arrivals := s.arrivals ++ s.given event }.advance world := by
  have hload : ∀ id file, event ≠ .resolve id (.cache file) := by
    rintro id file rfl
    cases hstep
  have hmap : (s.world.step event).map
      { s with arrivals := s.arrivals ++ s.given event }.advance = some s' := by
    unfold Installation.step at hstep
    split at hstep
    · cases hstep
    all_goals simp_all
  obtain ⟨world, hworld, rfl⟩ := Option.map_eq_some_iff.mp hmap
  exact ⟨hload, world, hworld, rfl⟩

/-- **One step.** -/
theorem Accounted.step (h : s.Accounted) {event : InstallationEvent}
    (hstep : s.step event = some s') : s'.Accounted := by
  cases event with
  | world event =>
      obtain ⟨hload, world, hworld, rfl⟩ := world_of_step hstep
      exact (h.world (fun id file hevent => absurd hevent (hload id _)) hworld).carryOutAll _
  | store event =>
      simp only [Installation.step] at hstep
      split at hstep
      next hruns =>
        obtain ⟨store, hstore, rfl⟩ := Option.map_eq_some_iff.mp hstep
        exact ⟨h.held, h.store.runs hruns hstore, h.loads, h.answers⟩
      next => cases hstep
  | load i =>
      simp only [Installation.step] at hstep
      split at hstep
      next => cases hstep
      next id task hi =>
        obtain ⟨⟨store, next⟩, hpoll, rfl⟩ := Option.map_eq_some_iff.mp hstep
        obtain ⟨hstore, hnext⟩ := h.store.pollLoad (h.loads _ (List.mem_of_getElem? hi)) hpoll
        refine ⟨h.held, hstore, fun load hmem => ?_, h.answers⟩
        rcases List.mem_or_eq_of_mem_set hmem with hold | rfl
        · exact h.loads load hold
        · exact hnext
  | failLoad i =>
      simp only [Installation.step] at hstep
      split at hstep
      next => cases hstep
      next id task hi =>
        obtain ⟨next, hfailed, rfl⟩ := Option.map_eq_some_iff.mp hstep
        refine ⟨h.held, h.store, fun load hmem => ?_, h.answers⟩
        rcases List.mem_or_eq_of_mem_set hmem with hold | rfl
        · exact h.loads load hold
        · cases task <;> cases hfailed <;> simp [LoadTask.files]
  | loaded i =>
      simp only [Installation.step] at hstep
      split at hstep
      next id file hi =>
        obtain ⟨world, hworld, rfl⟩ := Option.map_eq_some_iff.mp hstep
        have hfile := h.loads _ (List.mem_of_getElem? hi)
        have hfound : ∀ other found,
            Event.resolve id (.cache file) = .resolve other (.cache (some found)) →
              Keeps s.arrivals found := by
          rintro _ found ⟨⟩
          exact hfile found (by simp [LoadTask.files])
        simpa [Installation.given] using h.world hfound hworld
      next => cases hstep
  | restart prefs account =>
      obtain rfl := Option.some.inj hstep
      exact ⟨rfl, h.store.new, by simp, by simp [World.start]⟩

omit [TextSupport] in
theorem carryOutAll_world (flights : List (Flight × Nat)) (s : Installation) :
    (flights.foldl (fun s flight => s.carryOut flight.2 flight.1.effect) s).world = s.world := by
  induction flights generalizing s with
  | nil => rfl
  | cons flight rest ih =>
      rw [List.foldl_cons, ih]
      cases flight.1.effect <;> simp only [carryOut]
      split <;> rfl

/-- Each process is a run of the reducer among its effects. -/
theorem world_reach (h : system.Reach guard s) :
    World.system.Reach TransitionSystem.anyStep s.world := by
  induction h with
  | start hinit =>
      obtain ⟨prefs, account, file, keys, rfl⟩ := hinit
      exact .start ⟨prefs, account, rfl⟩
  | @next s s' event _ _ hnext ih =>
      have hstep : s.step event = some s' := hnext
      have hmoves : s'.world = s.world ∨ (∃ prefs account, s'.world = .start prefs account) ∨
          ∃ event, s.world.step event = some s'.world := by
        cases event with
        | world event =>
            obtain ⟨-, world, hworld, rfl⟩ := world_of_step hstep
            refine Or.inr (Or.inr ⟨event, ?_⟩)
            rw [advance, carryOutAll_world]
            exact hworld
        | restart prefs account =>
            obtain rfl := Option.some.inj hstep
            exact Or.inr (Or.inl ⟨prefs, account, rfl⟩)
        | loaded i =>
            simp only [Installation.step] at hstep
            split at hstep
            next id file _ =>
              obtain ⟨world, hworld, rfl⟩ := Option.map_eq_some_iff.mp hstep
              exact Or.inr (Or.inr ⟨_, hworld⟩)
            next => cases hstep
        | store | load | failLoad =>
            simp only [Installation.step] at hstep
            split at hstep
            all_goals first
              | cases hstep
              | obtain ⟨_, _, rfl⟩ := Option.map_eq_some_iff.mp hstep
                exact Or.inl rfl
      rcases hmoves with hsame | ⟨prefs, account, hstart⟩ | ⟨event, hworld⟩
      · exact hsame ▸ ih
      · exact .start ⟨prefs, account, hstart⟩
      · exact .next ih trivial hworld

/-- **What is shown arrived.** In every run, over any number of processes that end at any point,
with the tasks of the store and the loads polled in any order, whatever fails and whenever the
keyring is away: the vaults and items held are, whole, one listing that was given to the reducer at
the time they are dated, or there are none; and so is the file on disk. -/
theorem shown_as_it_arrived (h : system.Reach guard s) :
    Arrived s.arrivals s.world.model.dated ∧
      ∀ cache, s.store.file = some cache → Keeps s.arrivals cache.file := by
  have haccounted : s.Accounted := by
    apply h.invariant
    · rintro _ ⟨prefs, account, file, keys, rfl⟩
      exact accounted_first prefs account file keys
    · intro s event s' _ _ hstep haccounted
      exact haccounted.step hstep
  exact ⟨haccounted.held, haccounted.store.disk⟩

end Runs

section Examples

attribute [local instance] World.plainText

/-- Ada's listing arrives at seven and is saved; the next process finds it. -/
def savedAndFound : List InstallationEvent :=
  [.world (.send .startup 0), .world (.resolve 2 (.account (.ok ⟨"ada"⟩))), .world (.deliver 2 0),
    .world (.resolve 3 (.listing (.ok { vaults := [], items := [World.mailLogin] }))),
    .world (.deliver 3 7), .store (.run 0), .store (.run 1), .store (.run 1), .store (.run 1),
    .store (.run 1), .restart .default none, .world (.send .startup 8), .load 0, .load 0, .loaded 0,
    .world (.deliver 0 9)]

theorem shown_as_it_arrived_found : ∃ s : Installation, s.world.model.data.source = .diskCache ∧
    (7, { vaults := [], items := [World.mailLogin] }) ∈ s.arrivals ∧
    Arrived s.arrivals s.world.model.dated := by
  have hrun : ∃ s : Installation, system.Reach TransitionSystem.anyStep s ∧
      s.world.model.data.source = .diskCache ∧
      s.world.model.dated = (some 7, { vaults := [], items := [World.mailLogin] }) := by
    refine TransitionSystem.exists_reach_of_run
      (first .default none none { slot := none, unavailable := false, generated := 0 }) savedAndFound
      ⟨_, _, _, _, rfl⟩ ?_
    decide
  obtain ⟨s, hreach, hsource, hdated⟩ := hrun
  have hshown := (shown_as_it_arrived hreach).1
  exact ⟨s, hsource, by rwa [hdated] at hshown, hshown⟩

end Examples

end Installation

end CosmicPass
