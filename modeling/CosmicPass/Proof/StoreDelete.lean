import CosmicPass.Cache.Store

/-!
# Deleting the cache while saves are under way

`delete_all` empties the queue, removes the file and deletes the key, one after the other, while saves
run. A save that took its snapshot before the queue was emptied, or a `Persist` future that fills the
queue again, writes the file after it was removed. `cache_deleted` says that this is all that can go
wrong: the file and the key stay away if nothing is on its way to be saved when the file is removed,
and, unless something fails, only then.
-/

namespace CosmicPass

namespace CacheTask

/-- The task has a snapshot to save. -/
def holdsSnapshot : CacheTask → Bool
  | .persist _ | .key _ | .seal _ _ | .writeAtomic _ => true
  | _ => false

/-- The task is about to empty the queue or remove the file. -/
def deletes : CacheTask → Bool
  | .clear | .remove => true
  | _ => false

end CacheTask

def CacheEvent.issues : CacheEvent → Bool
  | .persist _ | .save _ | .saveDebounced _ => true
  | _ => false

namespace CacheStore

/-- Nothing is on its way to be saved. -/
structure Quiet (s : CacheStore) : Prop where
  queue : s.queue.pending = none
  tasks : ∀ task ∈ s.tasks, task.holdsSnapshot = false

def Idle (s : CacheStore) : Prop := ∀ task ∈ s.tasks, task = .finished

instance (s : CacheStore) : Decidable s.Idle :=
  inferInstanceAs (Decidable (∀ task ∈ s.tasks, task = .finished))

instance (s : CacheStore) : Decidable s.Quiet :=
  decidable_of_iff (s.queue.pending = none ∧ ∀ task ∈ s.tasks, task.holdsSnapshot = false)
    ⟨fun ⟨hqueue, htasks⟩ => ⟨hqueue, htasks⟩, fun ⟨hqueue, htasks⟩ => ⟨hqueue, htasks⟩⟩

/-- Nothing new is saved or deleted, the keyring is reachable and nothing fails. -/
def untroubled (s : CacheStore) : CacheEvent → Bool
  | .run _ => !s.keys.unavailable
  | .unsynced _ | .keyring _ => true
  | _ => false

/-- A queued snapshot has a timer that will take it. -/
structure Scheduled (s : CacheStore) : Prop where
  pending : s.queue.pending ≠ none → s.queue.scheduled = true
  timer : s.queue.scheduled = true → .timer ∈ s.tasks

/-- The file is there, or something is on its way to be saved. -/
def Unsettled (s : CacheStore) : Prop :=
  s.file ≠ none ∨ s.queue.pending ≠ none ∨ ∃ task ∈ s.tasks, task.holdsSnapshot = true

theorem on_its_way_of_not_quiet {s : CacheStore} (h : ¬ s.Quiet) :
    s.queue.pending ≠ none ∨ ∃ task ∈ s.tasks, task.holdsSnapshot = true := by
  by_cases hpending : s.queue.pending = none
  · by_cases hholds : ∃ task ∈ s.tasks, task.holdsSnapshot = true
    · exact Or.inr hholds
    · exact absurd ⟨hpending, by simpa using hholds⟩ h
  · exact Or.inl hpending

theorem mem_set_of_ne {tasks : List CacheTask} {id : Nat} {task moved next : CacheTask}
    (hmem : task ∈ tasks) (hmoved : tasks[id]? = some moved) (hne : moved ≠ task) :
    task ∈ tasks.set id next := by
  obtain ⟨n, hn⟩ := List.mem_iff_getElem?.mp hmem
  refine List.mem_iff_getElem?.mpr ⟨n, ?_⟩
  rw [List.getElem?_set_ne, hn]
  rintro rfl
  exact hne (Option.some.inj (hmoved.symm.trans hn))

theorem mem_set_self {tasks : List CacheTask} {id : Nat} {moved next : CacheTask}
    (hmoved : tasks[id]? = some moved) : next ∈ tasks.set id next := by
  obtain ⟨hid, -⟩ := List.getElem?_eq_some_iff.mp hmoved
  exact List.mem_iff_getElem?.mpr ⟨id, by simp [hid]⟩

theorem forall_mem_set {tasks : List CacheTask} {property : CacheTask → Prop}
    (htasks : ∀ task ∈ tasks, property task) {id : Nat} {next : CacheTask} (hnext : property next) :
    ∀ task ∈ tasks.set id next, property task := by
  intro task hmem
  rcases List.mem_or_eq_of_mem_set hmem with hold | rfl
  · exact htasks task hold
  · exact hnext

theorem forall_mem_spawn {s : CacheStore} {property : CacheTask → Prop}
    (htasks : ∀ task ∈ s.tasks, property task) {task : CacheTask} (hnew : property task) :
    ∀ other ∈ (s.spawn task).tasks, property other := by
  intro other hmem
  rcases List.mem_append.mp hmem with hold | hlast
  · exact htasks other hold
  · exact List.mem_singleton.mp hlast ▸ hnew

theorem forall_mem_saveDebounced {s : CacheStore} {property : CacheTask → Prop}
    (htasks : ∀ task ∈ s.tasks, property task) (htimer : property .timer) (file : CacheFile) :
    ∀ task ∈ (s.saveDebounced file).tasks, property task := by
  unfold CacheStore.saveDebounced
  split
  · exact htasks
  · exact forall_mem_spawn htasks htimer

variable {s s' : CacheStore} {id : Nat}

theorem step_run_eq_some (h : s.step (.run id) = some s') : ∃ task s₁ next,
    s.tasks[id]? = some task ∧ s.poll task = some (s₁, next) ∧
      s' = { s₁ with tasks := s₁.tasks.set id next } := by
  simp only [step] at h
  split at h
  next => simp at h
  next task htask =>
    obtain ⟨⟨s₁, next⟩, hpoll, rfl⟩ := Option.map_eq_some_iff.mp h
    exact ⟨task, s₁, next, htask, hpoll, rfl⟩

theorem step_fail_eq_some (h : s.step (.fail id) = some s') : ∃ task next,
    s.tasks[id]? = some task ∧ failed task = some next ∧
      s' = { s with tasks := s.tasks.set id next } := by
  simp only [step] at h
  split at h
  next => simp at h
  next task htask =>
    obtain ⟨next, hfailed, rfl⟩ := Option.map_eq_some_iff.mp h
    exact ⟨task, next, htask, hfailed, rfl⟩

theorem step_unsynced_eq_some (h : s.step (.unsynced id) = some s') : ∃ cache,
    s.tasks[id]? = some (.writeAtomic cache) ∧
      s' = { s with file := some cache, tasks := s.tasks.set id .finished } := by
  simp only [step] at h
  split at h
  next cache htask => exact ⟨cache, htask, by simpa using h.symm⟩
  next => simp at h

/-- The file is gone and nothing is on its way to be saved; no key was generated since. -/
structure Gone (generated : Nat) (s : CacheStore) : Prop where
  file : s.file = none
  quiet : s.Quiet
  keys : s.keys.generated = generated

theorem Gone.step {generated : Nat} (hgone : Gone generated s) {e : CacheEvent}
    (hissue : e.issues = false) (h : s.step e = some s') : Gone generated s' := by
  obtain ⟨hfile, ⟨hqueue, htasks⟩, hkeys⟩ := hgone
  cases e with
  | persist file => simp [CacheEvent.issues] at hissue
  | save file => simp [CacheEvent.issues] at hissue
  | saveDebounced file => simp [CacheEvent.issues] at hissue
  | deleteCache =>
      obtain rfl : s.spawn .clear = s' := by simpa [CacheStore.step] using h
      exact ⟨hfile, ⟨hqueue, forall_mem_spawn htasks rfl⟩, hkeys⟩
  | keyring unavailable =>
      obtain rfl : { s with keys := { s.keys with unavailable } } = s' := by
        simpa [CacheStore.step] using h
      exact ⟨hfile, ⟨hqueue, htasks⟩, hkeys⟩
  | run id =>
      obtain ⟨task, s₁, next, htask, hpoll, rfl⟩ := step_run_eq_some h
      have hholds := htasks task (List.mem_of_getElem? htask)
      cases task with
      | timer =>
          obtain ⟨rfl, rfl⟩ := by simpa [poll, hqueue, saveTaken] using hpoll
          exact ⟨hfile, ⟨rfl, forall_mem_set htasks rfl⟩, hkeys⟩
      | clear =>
          obtain ⟨rfl, rfl⟩ := by simpa [poll] using hpoll
          exact ⟨hfile, ⟨rfl, forall_mem_set htasks rfl⟩, hkeys⟩
      | remove =>
          obtain ⟨rfl, rfl⟩ := by simpa [poll] using hpoll
          exact ⟨rfl, ⟨hqueue, forall_mem_set htasks rfl⟩, hkeys⟩
      | deleteKey =>
          obtain ⟨rfl, rfl⟩ := by simpa [poll] using hpoll
          exact ⟨hfile, ⟨hqueue, forall_mem_set htasks rfl⟩, hkeys⟩
      | finished => simp [poll] at hpoll
      | _ => simp [CacheTask.holdsSnapshot] at hholds
  | fail id =>
      obtain ⟨task, next, htask, hfailed, rfl⟩ := step_fail_eq_some h
      have hnext : next.holdsSnapshot = false := by
        cases task <;> simp [failed] at hfailed <;> subst hfailed <;> rfl
      exact ⟨hfile, ⟨hqueue, forall_mem_set htasks hnext⟩, hkeys⟩
  | unsynced id =>
      obtain ⟨cache, htask, -⟩ := step_unsynced_eq_some h
      have hholds := htasks _ (List.mem_of_getElem? htask)
      simp [CacheTask.holdsSnapshot] at hholds

theorem Scheduled.of_set (h : s.Scheduled) {moved next : CacheTask}
    (hmoved : s.tasks[id]? = some moved) (hne : moved ≠ .timer) :
    Scheduled { s with tasks := s.tasks.set id next } :=
  ⟨h.pending, fun hscheduled => mem_set_of_ne (h.timer hscheduled) hmoved hne⟩

theorem Scheduled.spawn (h : s.Scheduled) (task : CacheTask) : (s.spawn task).Scheduled :=
  ⟨h.pending, fun hscheduled => List.mem_append_left _ (h.timer hscheduled)⟩

theorem Scheduled.saveDebounced (h : s.Scheduled) (file : CacheFile) :
    (s.saveDebounced file).Scheduled := by
  unfold CacheStore.saveDebounced
  split
  next hscheduled => exact ⟨fun _ => hscheduled, h.timer⟩
  next => exact ⟨fun _ => rfl, fun _ => by simp [CacheStore.spawn]⟩

theorem getElem?_saveDebounced (file : CacheFile) {task : CacheTask}
    (htask : s.tasks[id]? = some task) : (s.saveDebounced file).tasks[id]? = some task := by
  unfold CacheStore.saveDebounced
  split
  · exact htask
  · exact List.getElem?_append_left (List.getElem?_eq_some_iff.mp htask).1 ▸ htask

theorem Scheduled.step (hscheduled : s.Scheduled) {e : CacheEvent} (h : s.step e = some s') :
    s'.Scheduled := by
  cases e with
  | persist file =>
      obtain rfl : s.spawn (.persist file) = s' := by simpa [CacheStore.step] using h
      exact hscheduled.spawn _
  | deleteCache =>
      obtain rfl : s.spawn .clear = s' := by simpa [CacheStore.step] using h
      exact hscheduled.spawn _
  | save file =>
      obtain rfl : s.spawn (.key file) = s' := by simpa [CacheStore.step] using h
      exact hscheduled.spawn _
  | saveDebounced file =>
      obtain rfl : s.saveDebounced file = s' := by simpa [CacheStore.step] using h
      exact hscheduled.saveDebounced file
  | keyring unavailable =>
      obtain rfl : { s with keys := { s.keys with unavailable } } = s' := by
        simpa [CacheStore.step] using h
      exact ⟨hscheduled.pending, hscheduled.timer⟩
  | run id =>
      obtain ⟨task, s₁, next, htask, hpoll, rfl⟩ := step_run_eq_some h
      cases task with
      | persist file =>
          obtain ⟨rfl, rfl⟩ := by simpa [poll] using hpoll
          exact (hscheduled.saveDebounced file).of_set (getElem?_saveDebounced file htask) (by simp)
      | timer =>
          obtain ⟨rfl, rfl⟩ := by simpa [poll] using hpoll
          exact ⟨by simp, by simp⟩
      | key file =>
          simp only [poll] at hpoll
          split at hpoll <;> obtain ⟨rfl, rfl⟩ := by simpa using hpoll
          · exact ⟨hscheduled.pending, (hscheduled.of_set htask (by simp)).timer⟩
          · exact ⟨hscheduled.pending, (hscheduled.of_set htask (by simp)).timer⟩
      | clear =>
          obtain ⟨rfl, rfl⟩ := by simpa [poll] using hpoll
          exact ⟨by simp, (hscheduled.of_set htask (by simp)).timer⟩
      | finished => simp [poll] at hpoll
      | _ =>
          obtain ⟨rfl, rfl⟩ := by simpa [poll] using hpoll
          exact ⟨hscheduled.pending, (hscheduled.of_set htask (by simp)).timer⟩
  | fail id =>
      obtain ⟨task, next, htask, hfailed, rfl⟩ := step_fail_eq_some h
      refine hscheduled.of_set htask ?_
      rintro rfl
      simp [failed] at hfailed
  | unsynced id =>
      obtain ⟨cache, htask, rfl⟩ := step_unsynced_eq_some h
      exact ⟨hscheduled.pending, (hscheduled.of_set htask (by simp)).timer⟩

theorem scheduled_of_reach {guard : CacheStore → CacheEvent → Prop} (h : system.Reach guard s) :
    s.Scheduled := by
  refine h.invariant ?_ fun s e s' _ _ hstep hscheduled => hscheduled.step hstep
  rintro _ ⟨file, keys, rfl⟩
  exact ⟨by simp [new], by simp [new]⟩

theorem key_eq_ok {keys : KeyStore} (h : keys.unavailable = false) :
    ∃ key keys', keys.key true = (.ok key, keys') := by
  unfold KeyStore.key
  rw [h]
  cases keys.slot with
  | some key => exact ⟨key, keys, rfl⟩
  | none => exact ⟨_, _, rfl⟩

theorem forall_mem_not_deletes (hdeletes : ∀ task ∈ s.tasks, task.deletes = false) {e : CacheEvent}
    (huntroubled : s.untroubled e = true) (h : s.step e = some s') :
    ∀ task ∈ s'.tasks, task.deletes = false := by
  cases e with
  | keyring unavailable =>
      obtain rfl : { s with keys := { s.keys with unavailable } } = s' := by
        simpa [CacheStore.step] using h
      exact hdeletes
  | unsynced id =>
      obtain ⟨cache, -, rfl⟩ := step_unsynced_eq_some h
      exact forall_mem_set hdeletes rfl
  | run id =>
      obtain ⟨task, s₁, next, htask, hpoll, rfl⟩ := step_run_eq_some h
      have hdelete := hdeletes task (List.mem_of_getElem? htask)
      cases task with
      | persist file =>
          obtain ⟨rfl, rfl⟩ := by simpa [poll] using hpoll
          exact forall_mem_set (forall_mem_saveDebounced hdeletes rfl file) rfl
      | timer =>
          obtain ⟨rfl, rfl⟩ := by simpa [poll] using hpoll
          refine forall_mem_set hdeletes ?_
          cases s.queue.pending <;> rfl
      | key file =>
          simp only [poll] at hpoll
          split at hpoll <;> obtain ⟨rfl, rfl⟩ := by simpa using hpoll
          · exact forall_mem_set hdeletes rfl
          · exact forall_mem_set hdeletes rfl
      | finished => simp [poll] at hpoll
      | clear => simp [CacheTask.deletes] at hdelete
      | remove => simp [CacheTask.deletes] at hdelete
      | _ =>
          obtain ⟨rfl, rfl⟩ := by simpa [poll] using hpoll
          exact forall_mem_set hdeletes rfl
  | _ => simp [untroubled] at huntroubled

theorem Unsettled.elsewhere (hunsettled : s.Unsettled) {task next : CacheTask}
    (htask : s.tasks[id]? = some task) (hholds : task.holdsSnapshot = false) {queue : Debounce}
    {keys : KeyStore} (hqueue : s.queue.pending ≠ none → queue.pending ≠ none) :
    Unsettled { s with queue, keys, tasks := s.tasks.set id next } := by
  rcases hunsettled with hfile | hpending | ⟨other, hother, hsnapshot⟩
  · exact Or.inl hfile
  · exact Or.inr (Or.inl (hqueue hpending))
  · have hne : task ≠ other := by
      rintro rfl
      simp [hholds] at hsnapshot
    exact Or.inr (Or.inr ⟨other, mem_set_of_ne hother htask hne, hsnapshot⟩)

theorem Unsettled.step (hunsettled : s.Unsettled)
    (hdeletes : ∀ task ∈ s.tasks, task.deletes = false) {e : CacheEvent}
    (huntroubled : s.untroubled e = true) (h : s.step e = some s') : s'.Unsettled := by
  cases e with
  | keyring unavailable =>
      obtain rfl : { s with keys := { s.keys with unavailable } } = s' := by
        simpa [CacheStore.step] using h
      exact hunsettled
  | unsynced id =>
      obtain ⟨cache, htask, rfl⟩ := step_unsynced_eq_some h
      exact Or.inl (by simp)
  | run id =>
      obtain ⟨task, s₁, next, htask, hpoll, rfl⟩ := step_run_eq_some h
      have hdelete := hdeletes task (List.mem_of_getElem? htask)
      cases task with
      | persist file =>
          obtain ⟨rfl, rfl⟩ := by simpa [poll] using hpoll
          refine Or.inr (Or.inl ?_)
          unfold CacheStore.saveDebounced
          split <;> simp [CacheStore.spawn]
      | timer =>
          cases hpending : s.queue.pending with
          | none =>
              obtain ⟨rfl, rfl⟩ := by simpa [poll, hpending, saveTaken] using hpoll
              exact hunsettled.elsewhere htask rfl (by simp [hpending])
          | some file =>
              obtain ⟨rfl, rfl⟩ := by simpa [poll, hpending, saveTaken] using hpoll
              exact Or.inr (Or.inr ⟨.key file, mem_set_self htask, rfl⟩)
      | key file =>
          have havailable : s.keys.unavailable = false := by simpa [untroubled] using huntroubled
          obtain ⟨key, keys, hkey⟩ := key_eq_ok havailable
          obtain ⟨rfl, rfl⟩ := by simpa [poll, hkey] using hpoll
          exact Or.inr (Or.inr ⟨_, mem_set_self htask, rfl⟩)
      | «seal» key file =>
          obtain ⟨rfl, rfl⟩ := by simpa [poll] using hpoll
          exact Or.inr (Or.inr ⟨_, mem_set_self htask, rfl⟩)
      | writeAtomic cache =>
          obtain ⟨rfl, rfl⟩ := by simpa [poll] using hpoll
          exact Or.inl (by simp)
      | deleteKey =>
          obtain ⟨rfl, rfl⟩ := by simpa [poll] using hpoll
          exact hunsettled.elsewhere htask rfl fun hqueue => hqueue
      | finished => simp [poll] at hpoll
      | _ => simp [CacheTask.deletes] at hdelete
  | _ => simp [untroubled] at huntroubled

/-- The file is there or will be: nothing is about to delete it. -/
structure Kept (s : CacheStore) : Prop where
  unsettled : s.Unsettled
  deletes : ∀ task ∈ s.tasks, task.deletes = false
  scheduled : s.Scheduled

theorem Kept.step (hkept : s.Kept) {e : CacheEvent} (huntroubled : s.untroubled e = true)
    (h : s.step e = some s') : s'.Kept := by
  have hunsettled := hkept.unsettled.step hkept.deletes huntroubled h
  have hdeletes := forall_mem_not_deletes hkept.deletes huntroubled h
  exact ⟨hunsettled, hdeletes, hkept.scheduled.step h⟩

theorem Kept.file_ne_none (hkept : s.Kept) (hidle : s.Idle) : s.file ≠ none := by
  rcases hkept.unsettled with hfile | hpending | ⟨task, hmem, hholds⟩
  · exact hfile
  · have htimer := hidle _ (hkept.scheduled.timer (hkept.scheduled.pending hpending))
    simp at htimer
  · rw [hidle task hmem] at hholds
    simp [CacheTask.holdsSnapshot] at hholds

theorem step_remove (hremove : s.tasks[id]? = some .remove) (h : s.step (.run id) = some s') :
    s' = { s with file := none, tasks := s.tasks.set id .deleteKey } := by
  obtain ⟨task, s₁, next, htask, hpoll, rfl⟩ := step_run_eq_some h
  obtain rfl := Option.some.inj (hremove.symm.trans htask)
  obtain ⟨rfl, rfl⟩ := by simpa [poll] using hpoll
  rfl

theorem kept_of_remove (h : system.Reach TransitionSystem.anyStep s)
    (hremove : s.tasks[id]? = some .remove) (hstep : s.step (.run id) = some s')
    (hbusy : ¬ s.Quiet) (halone : ∀ n task, s.tasks[n]? = some task → task.deletes → n = id) :
    s'.Kept := by
  have hscheduled := (scheduled_of_reach h).step hstep
  have hs' := step_remove hremove hstep
  refine ⟨?_, fun task hmem => ?_, hscheduled⟩
  · rw [hs']
    rcases on_its_way_of_not_quiet hbusy with hpending | ⟨task, hmem, hholds⟩
    · exact Or.inr (Or.inl hpending)
    · refine Or.inr (Or.inr ⟨task, mem_set_of_ne hmem hremove ?_, hholds⟩)
      rintro rfl
      simp [CacheTask.holdsSnapshot] at hholds
  · rw [hs'] at hmem
    obtain ⟨n, hn⟩ := List.mem_iff_getElem?.mp hmem
    by_contra hdeletes
    rw [Bool.not_eq_false] at hdeletes
    by_cases heq : n = id
    · subst heq
      obtain ⟨hlt, -⟩ := List.getElem?_eq_some_iff.mp hremove
      rw [List.getElem?_set_self hlt, Option.some.injEq] at hn
      simp [← hn, CacheTask.deletes] at hdeletes
    · rw [List.getElem?_set_ne (Ne.symm heq)] at hn
      exact heq (halone n task hn hdeletes)

/-- **What is left after a deletion.** Take any interleaving up to the step in which `delete_all`
removes the file, and any after it in which nothing new is saved. If nothing was on its way to be saved
at that step, the file stays away and no key is generated any more. And if there is no other deletion,
the keyring can be reached and nothing fails, then, once every task has finished, the file is away and
no key was generated only if nothing was on its way. -/
theorem cache_deleted (h : system.Reach TransitionSystem.anyStep s)
    (hremove : s.tasks[id]? = some .remove) (hstep : s.step (.run id) = some s') :
    (s.Quiet → ∀ t, (system.startingAt s').Reach (fun _ e => !e.issues) t →
      t.file = none ∧ t.keys.generated = s'.keys.generated) ∧
    ((∀ n task, s.tasks[n]? = some task → task.deletes → n = id) → ∀ t,
      (system.startingAt s').Reach (fun s e => s.untroubled e) t → t.Idle →
      (t.file = none ∧ t.keys.generated = s'.keys.generated ↔ s.Quiet)) := by
  have hs' := step_remove hremove hstep
  have hquiet : s.Quiet → ∀ t, (system.startingAt s').Reach (fun _ e => !e.issues) t →
      t.file = none ∧ t.keys.generated = s'.keys.generated := by
    intro hquiet t hafter
    have hgone : Gone s'.keys.generated t := by
      refine hafter.invariant ?_ fun _ e _ _ hguard hnext hgone =>
        hgone.step (by simpa using hguard) hnext
      rintro _ rfl
      rw [hs']
      exact ⟨rfl, ⟨hquiet.queue, forall_mem_set hquiet.tasks rfl⟩, rfl⟩
    exact ⟨hgone.file, hgone.keys⟩
  refine ⟨hquiet, fun halone t hafter hidle => ⟨fun hleft => ?_, fun hbefore => ?_⟩⟩
  · by_contra hbusy
    have hkept : t.Kept := by
      refine hafter.invariant ?_ fun _ e _ _ huntroubled hnext hkept => hkept.step huntroubled hnext
      rintro _ rfl
      exact kept_of_remove h hremove hstep hbusy halone
    exact hkept.file_ne_none hidle hleft.1
  · refine (hquiet hbefore t (hafter.mono fun s e huntroubled => ?_))
    cases e <;> simp [untroubled, CacheEvent.issues] at huntroubled ⊢

section Examples

def emptyFile : CacheFile :=
  { formatVersion := cacheFormatVersion
    account := ⟨"ada"⟩
    fetchedAt := 0
    vaults := []
    items := []
    usage := [] }

def unused : CacheStore := new none { slot := none, unavailable := false, generated := 0 }

/-- A `Persist` future queues a snapshot, and the debounce timer saves it: tasks 0 and 1. -/
def saved : List CacheEvent :=
  [.persist emptyFile, .run 0, .run 1, .run 1, .run 1, .run 1]

theorem cache_deleted_saved : ∃ s s' t : CacheStore, s.file.isSome ∧ s.step (.run 2) = some s' ∧
    t.Idle ∧ t.file = none ∧ t.keys.generated = s'.keys.generated := by
  have hrun : ∃ s, system.Reach TransitionSystem.anyStep s ∧ s.file.isSome ∧
      s.tasks[2]? = some .remove ∧ s.Quiet ∧
      ((s.step (.run 2)).bind fun s' => s'.step (.run 2)).any fun t => t.Idle := by
    refine TransitionSystem.exists_reach_of_run unused (saved ++ [.deleteCache, .run 2])
      ⟨_, _, rfl⟩ ?_
    decide
  obtain ⟨s, hreach, hfile, hremove, hquiet, hnext⟩ := hrun
  obtain ⟨t, hsteps, hidle⟩ := (Option.any_eq_true _ _).mp hnext
  obtain ⟨s', hstep, hstep'⟩ := Option.bind_eq_some_iff.mp hsteps
  have hleft := (cache_deleted hreach hremove hstep).1 hquiet t
    (.next (e := .run 2) (.start rfl) rfl hstep')
  exact ⟨s, s', t, hfile, hstep, of_decide_eq_true hidle, hleft⟩

/-- A deletion that runs from end to end between the moment the timer takes the queue and the moment
its save asks for the key: the file is written, under a key generated after the old one was deleted. -/
theorem cache_survives : ∃ t : CacheStore,
    system.run TransitionSystem.anyStep unused [.persist emptyFile, .run 0, .run 1, .deleteCache,
      .run 2, .run 2, .run 2, .run 1, .run 1, .run 1] = some t ∧
    t.Idle ∧ t.file = some { key := ⟨0⟩, file := emptyFile } ∧ t.keys.slot = some ⟨0⟩ ∧
    t.keys.generated = unused.keys.generated + 1 := by
  refine ⟨_, rfl, ?_⟩
  decide

end Examples

end CacheStore

end CosmicPass
