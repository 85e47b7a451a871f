import CosmicPass.Library.Slots
import CosmicPass.Proof.StoreDelete

/-!
# Debounced saves

`save_debounced` queues a file and lets one timer take the latest. The queue is free again before the
file taken is written, so two saves can be under way and write in either order. A log beside the store
numbers the calls, and says which call's file each task took and which were written; the file in place
is the last one's exactly as long as no older save writes after it.
-/

namespace CosmicPass

namespace CacheStore

structure SaveLog where
  /-- The files passed to `save_debounced`, in order. -/
  calls : List CacheFile
  /-- For each task, the call whose file it took. -/
  taken : List (Option Nat)
  /-- The calls whose file was written, and the file, the latest first. -/
  written : List (Nat × CacheFile)
deriving DecidableEq

namespace SaveLog

def empty : SaveLog := { calls := [], taken := [], written := [] }

def last (log : SaveLog) : Nat := log.calls.length - 1

/-- The log after an event; only calls and the steps of tasks happen. -/
def after (s : CacheStore) (log : SaveLog) : CacheEvent → Option SaveLog
  | .saveDebounced file =>
      some
        { log with
          calls := log.calls ++ [file]
          taken := if s.queue.scheduled then log.taken else log.taken ++ [none] }
  | .run id =>
      match s.tasks[id]? with
      | some .timer =>
          some { log with taken := log.taken.set id (s.queue.pending.map fun _ => log.last) }
      | some (.writeAtomic cache) =>
          match log.taken[id]? with
          | some (some call) => some { log with written := (call, cache.file) :: log.written }
          | _ => some log
      | _ => some log
  | _ => none

end SaveLog

/-- A store with a keyring, on which files are saved with `save_debounced` alone, and no file operation
fails. -/
def debouncing : TransitionSystem (CacheStore × SaveLog) CacheEvent :=
  { init := fun s => ∃ file keys, keys.unavailable = false ∧ s = (new file keys, .empty)
    step := (system.annotated (fun log => log = .empty) SaveLog.after).step }

/-- Once the file of the last call is written, only the same file is written over it. -/
def lastStays (s : CacheStore × SaveLog) : CacheEvent → Bool
  | .run id =>
      match s.1.tasks[id]? with
      | some (.writeAtomic cache) => (s.2.written.any fun done => done.1 = s.2.last) →
          s.2.calls.getLast? = some cache.file
      | _ => true
  | _ => true

/-- What a task may be doing, given the call whose file it took. -/
inductive Saving (log : SaveLog) : Option Nat → CacheTask → Prop
  | timer : Saving log none .timer
  | dropped : Saving log none .finished
  | taken {call : Nat} {file : CacheFile} (h : log.calls[call]? = some file) :
      Saving log (some call) (.key file)
  | keyed {call : Nat} {file : CacheFile} (h : log.calls[call]? = some file) (key : CacheKey) :
      Saving log (some call) (.seal key file)
  | sealed {call : Nat} {file : CacheFile} (h : log.calls[call]? = some file) (key : CacheKey) :
      Saving log (some call) (.writeAtomic { key, file })
  | done {call : Nat} {file : CacheFile} (h : (call, file) ∈ log.written) :
      Saving log (some call) .finished

/-- The queue, the tasks and the log agree. -/
structure Debounced (s : CacheStore) (log : SaveLog) : Prop where
  aligned : log.taken.length = s.tasks.length
  available : s.keys.unavailable = false
  pending : s.queue.pending = if s.queue.scheduled then log.calls.getLast? else none
  scheduled : s.queue.scheduled → log.calls ≠ [] ∧ ∃ id : Nat, s.tasks[id]? = some .timer
  tasks : ∀ (id : Nat) (task : CacheTask), s.tasks[id]? = some task →
    ∃ taken, log.taken[id]? = some taken ∧ Saving log taken task
  last : log.calls ≠ [] → s.queue.scheduled = false →
    ∃ id : Nat, log.taken[id]? = some (some log.last)
  written : ∀ done ∈ log.written, log.calls[done.1]? = some done.2

/-- Where the file of the last call is written, it is the one in place. -/
def LastInPlace (s : CacheStore) (log : SaveLog) : Prop :=
  (∃ done ∈ log.written, done.1 = log.last) → s.file.map (·.file) = log.calls.getLast?

theorem Saving.mono {log log' : SaveLog} {taken : Option Nat} {task : CacheTask}
    (hcalls : ∀ (call : Nat) (file : CacheFile), log.calls[call]? = some file →
      log'.calls[call]? = some file)
    (hwritten : ∀ done ∈ log.written, done ∈ log'.written) (h : Saving log taken task) :
    Saving log' taken task := by
  cases h with
  | timer => exact .timer
  | dropped => exact .dropped
  | taken h => exact .taken (hcalls _ _ h)
  | keyed h key => exact .keyed (hcalls _ _ h) key
  | sealed h key => exact .sealed (hcalls _ _ h) key
  | done h => exact .done (hwritten _ h)

section Runs

variable {s s' : CacheStore} {log log' : SaveLog}

theorem SaveLog.getLast?_calls (log : SaveLog) : log.calls.getLast? = log.calls[log.last]? :=
  List.getLast?_eq_getElem?

theorem Debounced.called (h : Debounced s log) (file : CacheFile)
    (hafter : log.after s (.saveDebounced file) = some log') :
    Debounced (s.saveDebounced file) log' := by
  obtain rfl := Option.some.inj hafter
  have hgrow : ∀ {call : Nat} {file' : CacheFile}, log.calls[call]? = some file' →
      (log.calls ++ [file])[call]? = some file' := fun hcall => List.getElem?_append_of_some hcall
  have hwritten : ∀ done ∈ log.written, (log.calls ++ [file])[done.1]? = some done.2 :=
    fun done hmem => hgrow (h.written done hmem)
  cases hscheduled : s.queue.scheduled with
  | true =>
      simp only [saveDebounced, hscheduled, if_true]
      obtain ⟨-, hid⟩ := h.scheduled hscheduled
      refine ⟨h.aligned, h.available, by simp, fun _ => ⟨by simp, hid⟩, ?_, by simp, hwritten⟩
      intro id task htask
      obtain ⟨taken, htaken, hsaving⟩ := h.tasks id task htask
      exact ⟨taken, htaken, hsaving.mono (fun _ _ => hgrow) fun _ hmem => hmem⟩
  | false =>
      simp only [saveDebounced, hscheduled, Bool.false_eq_true, if_false, spawn]
      refine ⟨by simp [h.aligned], h.available, by simp, ?_, ?_, by simp, hwritten⟩
      · exact fun _ => ⟨by simp, s.tasks.length, by simp⟩
      · intro id task htask
        rcases List.getElem?_concat_cases htask with hbefore | ⟨rfl, rfl⟩
        · obtain ⟨taken, htaken, hsaving⟩ := h.tasks id task hbefore
          exact ⟨taken, List.getElem?_append_of_some htaken,
            hsaving.mono (fun _ _ => hgrow) fun _ hmem => hmem⟩
        · exact ⟨none, by simp [← h.aligned], .timer⟩

theorem LastInPlace.called (h : Debounced s log) (file : CacheFile)
    (hafter : log.after s (.saveDebounced file) = some log') :
    LastInPlace (s.saveDebounced file) log' := by
  obtain rfl := Option.some.inj hafter
  rintro ⟨done, hmem, hdone⟩
  -- No file of the new call is written yet.
  have hfile := (List.getElem?_eq_some_iff.mp (h.written done hmem)).1
  simp only [SaveLog.last, List.length_append, List.length_singleton, Nat.add_sub_cancel] at hdone
  omega

theorem Debounced.pending_eq_some (h : Debounced s log) {file : CacheFile}
    (hpending : s.queue.pending = some file) : log.calls[log.last]? = some file := by
  rw [h.pending] at hpending
  split at hpending
  · rwa [← log.getLast?_calls]
  · simp at hpending

theorem Debounced.set_tasks (h : Debounced s log) (hcalls : log'.calls = log.calls)
    (haligned : log'.taken.length = log.taken.length)
    (hwritten : ∀ done ∈ log.written, done ∈ log'.written) {id : Nat} {next : CacheTask}
    (htasks : s'.tasks = s.tasks.set id next)
    (hother : ∀ other, id ≠ other → log'.taken[other]? = log.taken[other]?)
    (hnext : ∃ taken, log'.taken[id]? = some taken ∧ Saving log' taken next) :
    log'.taken.length = s'.tasks.length ∧
      ∀ (other : Nat) (task : CacheTask), s'.tasks[other]? = some task →
        ∃ taken, log'.taken[other]? = some taken ∧ Saving log' taken task := by
  refine ⟨by rw [haligned, h.aligned, htasks, List.length_set], fun other task htask => ?_⟩
  rw [htasks] at htask
  rcases List.getElem?_set_cases htask with ⟨rfl, rfl⟩ | ⟨hid, hbefore⟩
  · exact hnext
  · obtain ⟨taken, htaken, hsaving⟩ := h.tasks other task hbefore
    refine ⟨taken, by rw [hother other hid, htaken], hsaving.mono ?_ hwritten⟩
    exact fun call file hfile => by rw [hcalls, hfile]

theorem key_available {keys : KeyStore} (h : keys.unavailable = false) :
    ∃ key keys', keys.key true = (.ok key, keys') ∧ keys'.unavailable = false := by
  unfold KeyStore.key
  cases hslot : keys.slot with
  | some key => exact ⟨key, keys, by simp [h], h⟩
  | none =>
      exact ⟨keys.generateKey,
        { keys with slot := some keys.generateKey, generated := keys.generated + 1 }, by simp [h], h⟩

/-- What the next poll of a task does, and what the log notes of it. -/
inductive Ran (s : CacheStore) (log : SaveLog) (id : Nat) (s' : CacheStore) (log' : SaveLog) : Prop
  | timer (htask : s.tasks[id]? = some .timer) (htaken : log.taken[id]? = some none)
      (hs : s' = { s with
        queue := { pending := none, scheduled := false }
        tasks := s.tasks.set id (saveTaken s.queue.pending) })
      (hlog : log' = { log with
        taken := log.taken.set id (s.queue.pending.map fun _ => log.last) })
  | key (call : Nat) (file : CacheFile) (key : CacheKey) (keys : KeyStore)
      (htask : s.tasks[id]? = some (.key file)) (htaken : log.taken[id]? = some (some call))
      (hfile : log.calls[call]? = some file) (hkeys : keys.unavailable = false)
      (hs : s' = { s with keys, tasks := s.tasks.set id (.seal key file) }) (hlog : log' = log)
  | sealing (call : Nat) (file : CacheFile) (key : CacheKey)
      (htask : s.tasks[id]? = some (.seal key file)) (htaken : log.taken[id]? = some (some call))
      (hfile : log.calls[call]? = some file)
      (hs : s' = { s with tasks := s.tasks.set id (.writeAtomic { key, file }) }) (hlog : log' = log)
  | write (call : Nat) (file : CacheFile) (key : CacheKey)
      (htask : s.tasks[id]? = some (.writeAtomic { key, file }))
      (htaken : log.taken[id]? = some (some call)) (hfile : log.calls[call]? = some file)
      (hs : s' = { s with
        file := some { key, file }
        writes := s.writes + 1
        tasks := s.tasks.set id .finished })
      (hlog : log' = { log with written := (call, file) :: log.written })

theorem Debounced.ran (h : Debounced s log) {id : Nat} {task : CacheTask}
    (htask : s.tasks[id]? = some task) (hbusy : task ≠ .finished) :
    ∃ s' log', s.step (.run id) = some s' ∧ log.after s (.run id) = some log' ∧
      Ran s log id s' log' := by
  obtain ⟨taken, htaken, hsaving⟩ := h.tasks id task htask
  cases hsaving with
  | timer =>
      exact ⟨_, _, by simp only [step, htask, poll, Option.map_some],
        by simp only [SaveLog.after, htask], .timer htask htaken rfl rfl⟩
  | dropped => exact absurd rfl hbusy
  | taken hfile =>
      obtain ⟨key, keys, hkey, havailable⟩ := key_available h.available
      exact ⟨_, _, by simp only [step, htask, poll, hkey, Option.map_some],
        by simp only [SaveLog.after, htask], .key _ _ key keys htask htaken hfile havailable rfl rfl⟩
  | keyed hfile key =>
      exact ⟨_, _, by simp only [step, htask, poll, Option.map_some],
        by simp only [SaveLog.after, htask], .sealing _ _ key htask htaken hfile rfl rfl⟩
  | sealed hfile key =>
      exact ⟨_, _, by simp only [step, htask, poll, Option.map_some],
        by simp only [SaveLog.after, htask, htaken], .write _ _ key htask htaken hfile rfl rfl⟩
  | done => exact absurd rfl hbusy

/-- A save goes one step on. -/
theorem Debounced.advance (h : Debounced s log) (hcalls : log'.calls = log.calls)
    (htaken : log'.taken = log.taken) (hkept : ∀ done ∈ log.written, done ∈ log'.written)
    (hwritten : ∀ done ∈ log'.written, log'.calls[done.1]? = some done.2)
    (hqueue : s'.queue = s.queue) (hkeys : s'.keys.unavailable = false) {id : Nat}
    {task next : CacheTask} (htask : s.tasks[id]? = some task) (hbusy : task ≠ .timer)
    (htasks : s'.tasks = s.tasks.set id next)
    (hnext : ∃ taken, log'.taken[id]? = some taken ∧ Saving log' taken next) :
    Debounced s' log' := by
  obtain ⟨haligned, hsaving⟩ := h.set_tasks hcalls (by rw [htaken]) hkept htasks
    (fun _ _ => by rw [htaken]) hnext
  have hlast : log'.last = log.last := by rw [SaveLog.last, SaveLog.last, hcalls]
  refine ⟨haligned, hkeys, by rw [hqueue, hcalls, h.pending], ?_, hsaving, ?_, hwritten⟩
  · rw [hqueue, hcalls]
    intro hscheduled
    obtain ⟨hsome, timer, htimer⟩ := h.scheduled hscheduled
    refine ⟨hsome, timer, ?_⟩
    rw [htasks, List.getElem?_set_ne, htimer]
    rintro rfl
    exact hbusy (Option.some.inj (htask.symm.trans htimer))
  · rw [hqueue, hcalls, htaken, hlast]
    exact h.last

theorem Ran.debounced (h : Debounced s log) {id : Nat} (hran : Ran s log id s' log') :
    Debounced s' log' := by
  cases hran with
  | timer htask htaken hs hlog =>
      have htasks : s'.tasks = s.tasks.set id (saveTaken s.queue.pending) := by rw [hs]
      have hcalls : log'.calls = log.calls := by rw [hlog]
      have hwritten : log'.written = log.written := by rw [hlog]
      have hset : log'.taken = log.taken.set id (s.queue.pending.map fun _ => log.last) := by
        rw [hlog]
      have hself : log'.taken[id]? = some (s.queue.pending.map fun _ => log.last) := by
        rw [hset, List.getElem?_set_self (List.getElem?_eq_some_iff.mp htaken).1]
      have hnext : Saving log' (s.queue.pending.map fun _ => log.last) (saveTaken s.queue.pending) := by
        cases hpending : s.queue.pending with
        | none => exact .dropped
        | some file =>
            refine .taken ?_
            rw [hcalls, h.pending_eq_some hpending]
      obtain ⟨haligned, hsaving⟩ := h.set_tasks hcalls (by rw [hset, List.length_set])
        (fun done hmem => by rwa [hwritten]) htasks
        (fun other hne => by rw [hset, List.getElem?_set_ne hne]) ⟨_, hself, hnext⟩
      refine ⟨haligned, by rw [hs]; exact h.available, by rw [hs]; simp, by rw [hs]; simp, hsaving,
        ?_, by rw [hwritten, hcalls]; exact h.written⟩
      rintro hsome -
      rw [hcalls] at hsome
      have hlast : log'.last = log.last := by rw [SaveLog.last, SaveLog.last, hcalls]
      rw [hlast]
      cases hscheduled : s.queue.scheduled with
      | true =>
          -- The last call's file has just been taken.
          refine ⟨id, ?_⟩
          have hpending := h.pending
          rw [hscheduled, if_pos rfl, List.getLast?_eq_some_getLast hsome] at hpending
          rw [hself, hpending, Option.map_some]
      | false =>
          obtain ⟨other, hother⟩ := h.last hsome hscheduled
          refine ⟨other, ?_⟩
          rw [hset, List.getElem?_set_ne, hother]
          rintro rfl
          rw [htaken] at hother
          simp at hother
  | key call file key keys htask htaken hfile hkeys hs hlog =>
      subst hlog
      exact h.advance rfl rfl (fun _ hmem => hmem) h.written (by rw [hs]) (by rw [hs]; exact hkeys)
        htask (by simp) (by rw [hs]) ⟨_, htaken, .keyed hfile key⟩
  | sealing call file key htask htaken hfile hs hlog =>
      subst hlog
      exact h.advance rfl rfl (fun _ hmem => hmem) h.written (by rw [hs])
        (by rw [hs]; exact h.available) htask (by simp) (by rw [hs]) ⟨_, htaken, .sealed hfile key⟩
  | write call file key htask htaken hfile hs hlog =>
      have hwritten : log'.written = (call, file) :: log.written := by rw [hlog]
      have hnew : (call, file) ∈ log'.written := by simp [hwritten]
      refine h.advance (by rw [hlog]) (by rw [hlog]) ?_ ?_ (by rw [hs])
        (by rw [hs]; exact h.available) htask (by simp) (by rw [hs]) ⟨some call, ?_, .done hnew⟩
      · exact fun done hmem => hwritten ▸ List.mem_cons_of_mem _ hmem
      · rw [hwritten, hlog]
        intro done hmem
        rcases List.mem_cons.mp hmem with rfl | hold
        · exact hfile
        · exact h.written done hold
      · rw [hlog, htaken]

theorem Ran.lastInPlace (h : Debounced s log) {id : Nat} (hran : Ran s log id s' log')
    (hguard : lastStays (s, log) (.run id)) (hlast : LastInPlace s log) : LastInPlace s' log' := by
  cases hran with
  | timer htask htaken hs hlog =>
      subst hs hlog
      exact hlast
  | key call file key keys htask htaken hfile hkeys hs hlog =>
      subst hs hlog
      exact hlast
  | sealing call file key htask htaken hfile hs hlog =>
      subst hs hlog
      exact hlast
  | write call file key htask htaken hfile hs hlog =>
      subst hs hlog
      simp only [lastStays, htask, List.any_eq_true, decide_eq_true_eq] at hguard
      rintro ⟨done, hmem, hdone⟩
      change some file = log.calls.getLast?
      change done.1 = log.last at hdone
      rcases List.mem_cons.mp hmem with rfl | hold
      · rw [log.getLast?_calls, ← hdone, hfile]
      · exact (hguard ⟨done, hold, hdone⟩).symm

/-!
### Every save comes to its end
-/

/-- The polls a task has before it, a save's steps included. -/
def polls : CacheTask → Nat
  | .timer => 4
  | .key _ => 3
  | .seal _ _ => 2
  | .writeAtomic _ => 1
  | _ => 0

def pollsOf : List CacheTask → Nat
  | [] => 0
  | task :: rest => polls task + pollsOf rest

def work (s : CacheStore) : Nat := pollsOf s.tasks

theorem pollsOf_set_lt {tasks : List CacheTask} {task next : CacheTask}
    (hlt : polls next < polls task) : ∀ {id : Nat}, tasks[id]? = some task →
      pollsOf (tasks.set id next) < pollsOf tasks := by
  induction tasks with
  | nil => simp
  | cons first rest ih =>
      intro id htask
      cases id with
      | zero =>
          obtain rfl : first = task := by simpa using htask
          simpa [pollsOf] using hlt
      | succ id => simpa [pollsOf] using ih (by simpa using htask)

theorem Ran.work_lt {id : Nat} (hran : Ran s log id s' log') : s'.work < s.work := by
  cases hran with
  | timer htask _ hs _ =>
      rw [hs]
      refine pollsOf_set_lt ?_ htask
      cases s.queue.pending <;> simp [saveTaken, polls]
  | key _ _ _ _ htask _ _ _ hs _ | sealing _ _ _ htask _ _ hs _ | write _ _ _ htask _ _ hs _ =>
      rw [hs]
      exact pollsOf_set_lt (by simp [polls]) htask

theorem debouncing_step_iff {s s' : CacheStore × SaveLog} {e : CacheEvent} :
    debouncing.step s e = some s' ↔ s.1.step e = some s'.1 ∧ s.2.after s.1 e = some s'.2 :=
  @TransitionSystem.annotated_step_eq_some _ _ system _ (fun log => log = .empty) SaveLog.after s s' e

theorem debouncing_step_cases {s s' : CacheStore × SaveLog} {e : CacheEvent}
    (h : Debounced s.1 s.2) (hstep : debouncing.step s e = some s') :
    (∃ file, e = .saveDebounced file ∧ s'.1 = s.1.saveDebounced file ∧
      s.2.after s.1 e = some s'.2) ∨ ∃ id, e = .run id ∧ Ran s.1 s.2 id s'.1 s'.2 := by
  obtain ⟨hstore, hlog⟩ := debouncing_step_iff.mp hstep
  cases e with
  | saveDebounced file => exact Or.inl ⟨file, rfl, (Option.some.inj hstore).symm, hlog⟩
  | run id =>
      refine Or.inr ⟨id, rfl, ?_⟩
      cases htask : s.1.tasks[id]? with
      | none => simp [step, htask] at hstore
      | some task =>
          have hbusy : task ≠ .finished := by
            rintro rfl
            simp [step, htask, poll] at hstore
          obtain ⟨next, nextLog, hnext, hafter, hran⟩ := h.ran htask hbusy
          obtain rfl := Option.some.inj (hstore.symm.trans hnext)
          obtain rfl := Option.some.inj (hlog.symm.trans hafter)
          exact hran
  | _ => simp [SaveLog.after] at hlog

variable {guard : CacheStore × SaveLog → CacheEvent → Prop} {t : CacheStore × SaveLog}

theorem debounced_of_reach (h : debouncing.Reach guard t) : Debounced t.1 t.2 := by
  refine @TransitionSystem.Reach.invariant _ _ debouncing guard (fun t => Debounced t.1 t.2) ?_ ?_ t h
  · rintro _ ⟨file, keys, havailable, rfl⟩
    refine ⟨rfl, havailable, rfl, ?_, ?_, ?_, ?_⟩ <;> simp [new, SaveLog.empty]
  · intro s e s' _ _ hstep hdebounced
    rcases debouncing_step_cases hdebounced hstep with ⟨file, rfl, hs, hafter⟩ | ⟨id, -, hran⟩
    · rw [hs]
      exact hdebounced.called file hafter
    · exact hran.debounced hdebounced

theorem lastInPlace_of_reach (h : debouncing.Reach (fun s e => lastStays s e) t) :
    LastInPlace t.1 t.2 := by
  refine @TransitionSystem.Reach.invariant _ _ debouncing _ (fun t => LastInPlace t.1 t.2) ?_ ?_ t h
  · rintro _ ⟨file, keys, -, rfl⟩
    simp [LastInPlace, SaveLog.empty]
  · intro s e s' hreach hguard hstep hlast
    have hdebounced := debounced_of_reach hreach
    rcases debouncing_step_cases hdebounced hstep with ⟨file, rfl, hs, hafter⟩ | ⟨id, rfl, hran⟩
    · rw [hs]
      exact .called hdebounced file hafter
    · exact hran.lastInPlace hdebounced hguard hlast

/-- Once nothing is under way, the file of the last call has been written. -/
theorem Debounced.last_written (h : Debounced s log)
    (hdone : s.Idle) (hcalls : log.calls ≠ []) :
    ∃ done ∈ log.written, done.1 = log.last := by
  have hidle : s.queue.scheduled = false := by
    by_contra hscheduled
    rw [Bool.not_eq_false] at hscheduled
    obtain ⟨-, id, htimer⟩ := h.scheduled hscheduled
    simpa using hdone _ (List.mem_of_getElem? htimer)
  obtain ⟨id, htaken⟩ := h.last hcalls hidle
  have hlt : id < s.tasks.length := by
    rw [← h.aligned]
    exact (List.getElem?_eq_some_iff.mp htaken).1
  have htask := List.getElem?_eq_getElem hlt
  obtain ⟨taken, htaken', hsaving⟩ := h.tasks id _ htask
  obtain rfl := Option.some.inj (htaken.symm.trans htaken')
  rw [hdone _ (List.mem_of_getElem? htask)] at hsaving
  cases hsaving with
  | done hmem => exact ⟨_, hmem, rfl⟩

/-- **The last save wins, and every save is covered**, as long as nothing older is written over the file
of the last call: once every task has finished, the file in place is the one passed last, and for each
call its file or a later one has been written. And every task does come to its end. -/
theorem last_save_wins (h : debouncing.Reach (fun s e => lastStays s e) t) :
    (t.1.Idle →
      (∀ file, t.2.calls.getLast? = some file → t.1.file.map (·.file) = some file) ∧
      ∀ call < t.2.calls.length, ∃ done ∈ t.2.written, call ≤ done.1 ∧
        t.2.calls[done.1]? = some done.2) ∧
    ∀ (id : Nat) (task : CacheTask), t.1.tasks[id]? = some task → task ≠ .finished →
      ∃ t', debouncing.step t (.run id) = some t' ∧ t'.1.work < t.1.work := by
  have hdebounced := debounced_of_reach h
  refine ⟨fun hdone => ⟨fun file hlast => ?_, fun call hcall => ?_⟩, fun id task htask hbusy => ?_⟩
  · have hcalls : t.2.calls ≠ [] := by
      rintro hnone
      simp [hnone] at hlast
    rw [lastInPlace_of_reach h (hdebounced.last_written hdone hcalls), hlast]
  · have hcalls : t.2.calls ≠ [] := List.ne_nil_of_length_pos (by omega)
    obtain ⟨done, hmem, hlast⟩ := hdebounced.last_written hdone hcalls
    exact ⟨done, hmem, by rw [hlast, SaveLog.last]; omega, hdebounced.written done hmem⟩
  · obtain ⟨next, nextLog, hnext, hafter, hran⟩ := hdebounced.ran htask hbusy
    exact ⟨(next, nextLog), debouncing_step_iff.mpr ⟨hnext, hafter⟩, hran.work_lt⟩

end Runs

section Examples

/-- Another snapshot than the empty one. -/
def usedFile : CacheFile := { emptyFile with fetchedAt := 60 }

theorem last_save_wins_two : ∃ t : CacheStore × SaveLog, t.1.Idle ∧
    t.2.calls = [emptyFile, usedFile] ∧ t.1.file.map (·.file) = some usedFile := by
  have hrun : ∃ t, debouncing.Reach (fun s e => lastStays s e) t ∧ t.1.Idle ∧
      t.2.calls = [emptyFile, usedFile] := by
    refine TransitionSystem.exists_reach_of_run (unused, .empty)
      [.saveDebounced emptyFile, .run 0, .run 0, .saveDebounced usedFile, .run 0, .run 0, .run 1,
        .run 1, .run 1, .run 1] ⟨_, _, rfl, rfl⟩ ?_
    decide
  obtain ⟨t, hreach, hidle, hcalls⟩ := hrun
  exact ⟨t, hidle, hcalls, ((last_save_wins hreach).1 hidle).1 usedFile (by rw [hcalls]; rfl)⟩

/-- The second file is taken and written while the save of the first waits for the key: the first is
written over it, and stays. -/
theorem older_save_wins : ∃ t : CacheStore × SaveLog,
    debouncing.Reach TransitionSystem.anyStep t ∧ t.1.Idle ∧
      t.2.calls = [emptyFile, usedFile] ∧ t.1.file.map (·.file) = some emptyFile := by
  refine TransitionSystem.exists_reach_of_run (unused, .empty)
    [.saveDebounced emptyFile, .run 0, .saveDebounced usedFile, .run 1, .run 1, .run 1, .run 1, .run 0,
      .run 0, .run 0] ⟨_, _, rfl, rfl⟩ ?_
  decide

end Examples

end CacheStore

end CosmicPass
