import CosmicPass.Clipboard.Lifetime

/-!
# How long a copied secret stays

The watchdog counts from the moment the helper has the value, and from the whole seconds of the time
asked for; the job counts from its first poll after the `ready` line. So the watchdog is never
early, a secret outlives its time by no more than its margin even without the application, and the
job is the one that ends a helper that was ready within the slack between the two.
-/

namespace CosmicPass

namespace CopyJob

theorem watchdogDelay_eq_some {job : CopyJob} {delay : Nat} : job.watchdogDelay = some delay ↔
    job.secret = true ∧ min (job.timeout + watchdogMargin) (2 ^ 64 - 1) * second = delay := by
  simp [watchdogDelay]

theorem clearAfter_lt_watchdogDelay {job : CopyJob} (hfits : job.timeout + watchdogMargin < 2 ^ 64)
    {delay : Nat} (h : job.watchdogDelay = some delay) : job.clearAfter < delay := by
  obtain ⟨-, rfl⟩ := watchdogDelay_eq_some.mp h
  have hdiv : job.clearAfter < (job.clearAfter / second + 1) * second := by
    have hmod : job.clearAfter % second < second := Nat.mod_lt _ (by decide)
    have hsum : second * (job.clearAfter / second) + job.clearAfter % second = job.clearAfter :=
      Nat.div_add_mod _ _
    rw [Nat.succ_mul, Nat.mul_comm]
    omega
  have hle : (job.clearAfter / second + 1) * second ≤
      min (job.timeout + watchdogMargin) (2 ^ 64 - 1) * second := by
    refine Nat.mul_le_mul_right _ ?_
    simp only [timeout, watchdogMargin] at hfits ⊢
    omega
  exact Nat.lt_of_lt_of_le hdiv hle

theorem watchdogDelay_le {job : CopyJob} {delay : Nat} (h : job.watchdogDelay = some delay) :
    delay ≤ max job.clearAfter second + second := by
  obtain ⟨-, rfl⟩ := watchdogDelay_eq_some.mp h
  have hdiv : job.clearAfter / second * second ≤ job.clearAfter := Nat.div_mul_le_self _ _
  calc
    min (job.timeout + watchdogMargin) (2 ^ 64 - 1) * second ≤ (job.timeout + 1) * second :=
      Nat.mul_le_mul_right _ (Nat.min_le_left _ _)
    _ = max (job.clearAfter / second * second) second + second := by
      rw [timeout, Nat.succ_mul, ← Nat.mul_max_mul_right, Nat.one_mul]
    _ ≤ max job.clearAfter second + second := by omega

end CopyJob

/-- Ends the helper from within, or from outside both. -/
def ServeEvent.endsHelper : ServeEvent → Bool
  | .readNothing _ | .notTaken _ | .notPrinted | .served _ | .watchdog | .killed => true
  | _ => false

namespace ServedCopy

variable {job : CopyJob} {s s' : ServedCopy}

/-- How far the helper has come, as the times it noted tell. -/
def HelperFits (s : ServedCopy) : Prop :=
  match s.helper with
  | .reading => s.readAt = none ∧ s.takenAt = none ∧ s.announced = false
  | .preparing => s.copier ≠ .handing ∧ s.readAt.isSome ∧ s.takenAt = none ∧ s.announced = false
  | .announcing => s.copier ≠ .handing ∧ s.takenAt.isSome ∧ s.announced = false
  | .serving => s.takenAt.isSome ∧ s.announced = true
  | .exited .watchdog => s.watchdog.any fun deadline => deadline ≤ s.now
  | .exited _ => True

/-- How far the application has come with the helper. -/
def CopierFits (job : CopyJob) (s : ServedCopy) : Prop :=
  match s.copier with
  | .handing => s.announced = false ∧ s.deadline = none ∧ s.helper ≠ .exited .unavailable
  | .awaiting _ => s.deadline = none
  | .starting => s.announced = true ∧ s.deadline = none
  | .timing => s.announced = true ∧ s.deadline.isSome = job.secret
  | .ended jobEnd => s.announced = true ∧ s.alive = false ∧
      (jobEnd = .cleared → s.deadline.any fun deadline => deadline ≤ s.now)
  | .failed error => s.alive = false ∧ s.deadline = none ∧
      (error = .unavailable ↔ s.helper = .exited .unavailable)
  | .dropped => s.alive = false ∧ s.deadline = none
  | .died => True

/-- What the two know of each other, and when it was. -/
structure Books (job : CopyJob) (s : ServedCopy) : Prop where
  helper : s.HelperFits
  copier : s.CopierFits job
  watchdog : s.watchdog = s.readAt.bind fun read => job.watchdogDelay.map fun delay => read + delay
  read : ∀ read, s.readAt = some read → read ≤ s.now
  taken : ∀ taken, s.takenAt = some taken →
    taken ≤ s.now ∧ ∃ read, s.readAt = some read ∧ read ≤ taken
  selected : s.selected = true → s.alive = true ∧ s.takenAt.isSome
  announced : s.announced = true → s.takenAt.isSome
  deadline : ∀ deadline, s.deadline = some deadline → job.secret = true ∧
    ∃ taken, s.takenAt = some taken ∧ taken + job.clearAfter ≤ deadline
  stored : s.stored = true → s.jobStarted = true ∨ s.copier = .died

theorem Books.exits (h : s.Books job) {exit : HelperExit}
    (hwatchdog : exit = .watchdog → s.watchdog.any fun deadline => deadline ≤ s.now)
    (hhanding : exit = .unavailable → s.copier ≠ .handing) (halive : s.alive = true) :
    (s.exits exit).Books job where
  helper := by
    unfold HelperFits ServedCopy.exits
    cases exit <;> simp_all
  copier := by
    have hcopier := h.copier
    unfold CopierFits at hcopier ⊢
    cases hphase : s.copier <;> simp_all [ServedCopy.exits, alive]
  watchdog := h.watchdog
  read := h.read
  taken := h.taken
  selected := by simp [ServedCopy.exits]
  announced := h.announced
  deadline := h.deadline
  stored := h.stored

theorem Books.kill (h : s.Books job) : s.kill.Books job := by
  unfold ServedCopy.kill
  by_cases halive : s.alive = true
  · rw [if_pos halive]
    exact h.exits (by simp) (by simp) halive
  · rwa [if_neg halive]

@[simp] theorem alive_exits (s : ServedCopy) (exit : HelperExit) :
    (s.exits exit).alive = false := rfl

@[simp] theorem alive_kill (s : ServedCopy) : s.kill.alive = false := by
  unfold ServedCopy.kill
  by_cases halive : s.alive = true <;> simp [halive]

/-- The helper moves on, still there. -/
theorem CopierFits.whileAlive (h : s.CopierFits job) (halive : s.alive = true)
    {helper : HelperPhase} {readAt watchdog takenAt : Option Nat} {selected : Bool}
    (hstill : alive { s with helper, readAt, watchdog, takenAt, selected } = true) :
    CopierFits job { s with helper, readAt, watchdog, takenAt, selected } := by
  unfold CopierFits at h ⊢
  cases hcopy : s.copier with
  | handing =>
      simp only [hcopy] at h
      refine ⟨h.1, h.2.1, ?_⟩
      rintro hexited
      dsimp only at hexited
      simp [alive, hexited] at hstill
  | _ => simp_all

/-- Nothing is stored before there is a job. -/
theorem Books.not_stored (h : s.Books job) (hstarted : s.jobStarted = false)
    (hlives : s.copier ≠ .died) : s.stored = false := by
  by_contra hstored
  rcases h.stored (by simpa using hstored) with hthere | hdied
  · simp [hstarted] at hthere
  · exact hlives hdied

@[simp] theorem stored_kill (s : ServedCopy) : s.kill.stored = s.stored := by
  unfold ServedCopy.kill
  split <;> rfl

/-- The application moves on, the helper and its times as they are. -/
theorem Books.copied (h : s.Books job) {copier : CopierPhase} {deadline : Option Nat}
    (hhanding : copier ≠ .handing)
    (hfits : CopierFits job { s with copier, deadline })
    (hdeadline : ∀ at', deadline = some at' → job.secret = true ∧
      ∃ taken, s.takenAt = some taken ∧ taken + job.clearAfter ≤ at')
    (hstored : s.stored = true → jobStarted { s with copier, deadline } = true ∨ copier = .died) :
    Books job { s with copier, deadline } where
  helper := by
    have hhelper := h.helper
    unfold HelperFits at hhelper ⊢
    dsimp only
    split <;> simp_all
  copier := hfits
  watchdog := h.watchdog
  read := h.read
  taken := h.taken
  selected := h.selected
  announced := h.announced
  deadline := hdeadline
  stored := hstored

@[simp] theorem deadline_kill (s : ServedCopy) : s.kill.deadline = s.deadline := by
  unfold ServedCopy.kill
  split <;> rfl

@[simp] theorem announced_kill (s : ServedCopy) : s.kill.announced = s.announced := by
  unfold ServedCopy.kill
  split <;> rfl

@[simp] theorem now_kill (s : ServedCopy) : s.kill.now = s.now := by
  unfold ServedCopy.kill
  split <;> rfl

theorem helper_kill_ne (h : s.helper ≠ .exited .unavailable) :
    s.kill.helper ≠ .exited .unavailable := by
  unfold ServedCopy.kill
  split
  · simp [ServedCopy.exits]
  · exact h

/-- Unavailable is what the exit code says, and nothing else. -/
theorem notReadyError_exitCode (h : s.alive = false) :
    notReadyError s.exitCode = .unavailable ↔ s.helper = .exited .unavailable := by
  unfold alive at h
  cases hphase : s.helper with
  | exited exit =>
      cases exit <;> simp [notReadyError, exitCode, hphase, HelperExit.code, exitUnavailable]
  | _ => simp [hphase] at h

theorem step_exits {e : ServeEvent} (he : e.endsHelper = true) (hstep : s.step job e = some s') :
    ∃ exit, s.alive = true ∧
      (exit = .watchdog → s.watchdog.any fun deadline => deadline ≤ s.now) ∧
      (exit = .unavailable → s.helper = .preparing) ∧ s' = s.exits exit := by
  cases e with
  | readNothing exit =>
      obtain ⟨⟨hphase, hexit⟩, hs'⟩ := Option.ite_none_right_eq_some.mp hstep
      refine ⟨exit, by simp [alive, hphase], ?_, ?_, (Option.some.inj hs').symm⟩ <;>
        (rintro rfl; simp at hexit)
  | notTaken exit =>
      obtain ⟨⟨hphase, hexit⟩, hs'⟩ := Option.ite_none_right_eq_some.mp hstep
      refine ⟨exit, by simp [alive, hphase], ?_, fun _ => hphase, (Option.some.inj hs').symm⟩
      rintro rfl
      simp at hexit
  | notPrinted =>
      obtain ⟨hphase, hs'⟩ := Option.ite_none_right_eq_some.mp hstep
      exact ⟨.failure, by simp [alive, hphase], by simp, by simp, (Option.some.inj hs').symm⟩
  | served exit =>
      obtain ⟨⟨hphase, hexit⟩, hs'⟩ := Option.ite_none_right_eq_some.mp hstep
      refine ⟨exit, by simp [alive, hphase], ?_, ?_, (Option.some.inj hs').symm⟩ <;>
        (rintro rfl; simp at hexit)
  | watchdog =>
      obtain ⟨⟨halive, hdue⟩, hs'⟩ := Option.ite_none_right_eq_some.mp hstep
      exact ⟨.watchdog, halive, fun _ => hdue, by simp, (Option.some.inj hs').symm⟩
  | killed =>
      obtain ⟨halive, hs'⟩ := Option.ite_none_right_eq_some.mp hstep
      exact ⟨.killed, halive, by simp, by simp, (Option.some.inj hs').symm⟩
  | _ => simp [ServeEvent.endsHelper] at he

theorem step_heard (hstep : s.step job .heard = some s') : ∃ expiry, s.copier = .awaiting expiry ∧
    s.announced = true ∧ s' = { s with copier := .starting } := by
  simp only [ServedCopy.step] at hstep
  split at hstep
  next expiry hphase =>
    obtain ⟨hheard, hs'⟩ := Option.ite_none_right_eq_some.mp hstep
    exact ⟨expiry, hphase, hheard, (Option.some.inj hs').symm⟩
  next => simp at hstep

theorem step_unheard (hstep : s.step job .unheard = some s') :
    ∃ expiry, s.copier = .awaiting expiry ∧ s.unheard expiry = true ∧
      s' = { s.kill with copier := .failed (notReadyError s.kill.exitCode) } := by
  simp only [ServedCopy.step] at hstep
  split at hstep
  next expiry hphase =>
    obtain ⟨hheard, hs'⟩ := Option.ite_none_right_eq_some.mp hstep
    exact ⟨expiry, hphase, hheard, (Option.some.inj hs').symm⟩
  next => simp at hstep

theorem step_dropped (hstep : s.step job .dropped = some s') :
    (s.copier = .handing ∨ ∃ expiry, s.copier = .awaiting expiry) ∧
      s' = { s.kill with copier := .dropped } := by
  simp only [ServedCopy.step] at hstep
  split at hstep
  next hphase => exact ⟨Or.inl hphase, (Option.some.inj hstep).symm⟩
  next expiry hphase => exact ⟨Or.inr ⟨expiry, hphase⟩, (Option.some.inj hstep).symm⟩
  next => simp at hstep

theorem due_later {timer : Option Nat} {now later : Nat} (hlater : now ≤ later)
    (hdue : timer.any fun deadline => deadline ≤ now) :
    timer.any fun deadline => deadline ≤ later := by
  obtain ⟨deadline, htimer, hpast⟩ := (Option.any_eq_true _ _).mp hdue
  exact (Option.any_eq_true _ _).mpr
    ⟨deadline, htimer, decide_eq_true (Nat.le_trans (of_decide_eq_true hpast) hlater)⟩

theorem Books.tick (h : s.Books job) (n : Nat) : Books job { s with now := s.now + n } where
  helper := by
    have hhelper := h.helper
    unfold HelperFits at hhelper ⊢
    dsimp only
    cases hphase : s.helper with
    | exited exit =>
        rw [hphase] at hhelper
        cases exit with
        | watchdog => exact due_later (Nat.le_add_right _ _) hhelper
        | _ => trivial
    | _ => simpa only [hphase] using hhelper
  copier := by
    have hcopier := h.copier
    unfold CopierFits at hcopier ⊢
    dsimp only
    cases hphase : s.copier <;> simp_all [alive]
    exact fun hcleared => due_later (Nat.le_add_right _ _) (hcopier.2.2 hcleared)
  watchdog := h.watchdog
  read := fun read hread => Nat.le_trans (h.read read hread) (Nat.le_add_right _ _)
  taken := fun taken htaken =>
    ⟨Nat.le_trans (h.taken taken htaken).1 (Nat.le_add_right _ _), (h.taken taken htaken).2⟩
  selected := h.selected
  announced := h.announced
  deadline := h.deadline
  stored := h.stored

theorem Books.readOn (h : s.Books job) (hphase : s.helper = .reading)
    (hhanded : s.copier ≠ .handing) : Books job { s with
      helper := .preparing
      readAt := some s.now
      watchdog := job.watchdogDelay.map fun delay => s.now + delay } := by
  have hhelper := h.helper
  simp only [HelperFits, hphase] at hhelper
  exact
    { helper := ⟨hhanded, rfl, hhelper.2.1, hhelper.2.2⟩
      copier := h.copier.whileAlive (by simp [alive, hphase]) rfl
      watchdog := rfl
      read := by rintro read ⟨⟩; exact Nat.le_refl _
      taken := by simp [hhelper.2.1]
      selected := by
        intro hselected
        have htaken := (h.selected hselected).2
        simp [hhelper.2.1] at htaken
      announced := by simp [hhelper.2.2]
      deadline := h.deadline
      stored := h.stored }

theorem Books.takes (h : s.Books job) (hphase : s.helper = .preparing) :
    Books job { s with helper := .announcing, takenAt := some s.now, selected := true } := by
  have hhelper := h.helper
  simp only [HelperFits, hphase] at hhelper
  obtain ⟨hhanded, hread, htaken, hquiet⟩ := hhelper
  obtain ⟨read, hread⟩ := Option.isSome_iff_exists.mp hread
  exact
    { helper := ⟨hhanded, rfl, hquiet⟩
      copier := h.copier.whileAlive (by simp [alive, hphase]) rfl
      watchdog := h.watchdog
      read := h.read
      taken := by rintro taken ⟨⟩; exact ⟨Nat.le_refl _, read, hread, h.read read hread⟩
      selected := fun _ => ⟨rfl, rfl⟩
      announced := fun _ => rfl
      deadline := by
        intro deadline hdeadline
        obtain ⟨-, taken, hbefore, -⟩ := h.deadline deadline hdeadline
        simp [htaken] at hbefore
      stored := h.stored }

theorem Books.prints (h : s.Books job) (hphase : s.helper = .announcing) :
    Books job { s with helper := .serving, announced := true } := by
  have hhelper := h.helper
  simp only [HelperFits, hphase] at hhelper
  obtain ⟨hhanded, htaken, hquiet⟩ := hhelper
  have hcopier := h.copier
  exact
    { helper := ⟨htaken, rfl⟩
      copier := by
        unfold CopierFits at hcopier ⊢
        cases hcopy : s.copier <;> simp_all [alive]
      watchdog := h.watchdog
      read := h.read
      taken := h.taken
      selected := fun hselected => ⟨rfl, (h.selected hselected).2⟩
      announced := fun _ => htaken
      deadline := h.deadline
      stored := h.stored }

/-- **One step keeps the books.** -/
theorem Books.step (h : s.Books job) {e : ServeEvent} (hstep : s.step job e = some s') :
    s'.Books job := by
  have hhelper := h.helper
  have hcopier := h.copier
  cases e with
  | tick n =>
      obtain rfl := Option.some.inj hstep
      exact h.tick n
  | read =>
      obtain ⟨⟨hphase, hhanded⟩, hs'⟩ := Option.ite_none_right_eq_some.mp hstep
      obtain rfl := Option.some.inj hs'
      simp only [HelperFits, hphase] at hhelper
      exact h.readOn hphase hhanded
  | taken =>
      obtain ⟨hphase, hs'⟩ := Option.ite_none_right_eq_some.mp hstep
      obtain rfl := Option.some.inj hs'
      exact h.takes hphase
  | printed =>
      obtain ⟨hphase, hs'⟩ := Option.ite_none_right_eq_some.mp hstep
      obtain rfl := Option.some.inj hs'
      exact h.prints hphase
  | readNothing | notTaken | notPrinted | served | watchdog | killed =>
      obtain ⟨exit, halive, hdue, hpreparing, rfl⟩ := step_exits rfl hstep
      refine h.exits hdue (fun hunavailable => ?_) halive
      simp only [HelperFits, hpreparing hunavailable] at hhelper
      exact hhelper.1
  | handed =>
      obtain ⟨hphase, hs'⟩ := Option.ite_none_right_eq_some.mp hstep
      obtain rfl := Option.some.inj hs'
      simp only [CopierFits, hphase] at hcopier
      have hnone := h.not_stored (by simp [jobStarted, hphase]) (by simp [hphase])
      exact h.copied (by simp) hcopier.2.1 h.deadline (by simp [hnone])
  | notHanded text =>
      obtain ⟨hphase, hs'⟩ := Option.ite_none_right_eq_some.mp hstep
      obtain rfl := Option.some.inj hs'
      simp only [CopierFits, hphase] at hcopier
      have hnone := h.not_stored (by simp [jobStarted, hphase]) (by simp [hphase])
      exact h.kill.copied (by simp) ⟨alive_kill s, by simpa using hcopier.2.1,
        by simpa using helper_kill_ne hcopier.2.2⟩ h.kill.deadline (by simp [hnone])
  | heard =>
      obtain ⟨expiry, hphase, hheard, rfl⟩ := step_heard hstep
      simp only [CopierFits, hphase] at hcopier
      exact h.copied (by simp) ⟨hheard, hcopier⟩ h.deadline (fun _ => Or.inl rfl)
  | unheard =>
      obtain ⟨expiry, hphase, -, rfl⟩ := step_unheard hstep
      simp only [CopierFits, hphase] at hcopier
      have hnone := h.not_stored (by simp [jobStarted, hphase]) (by simp [hphase])
      exact h.kill.copied (by simp)
        ⟨alive_kill s, by simpa using hcopier, notReadyError_exitCode (alive_kill s)⟩
        h.kill.deadline (by simp [hnone])
  | polled =>
      obtain ⟨hphase, hs'⟩ := Option.ite_none_right_eq_some.mp hstep
      obtain rfl := Option.some.inj hs'
      simp only [CopierFits, hphase] at hcopier
      refine h.copied (by simp) ⟨hcopier.1, by cases job.secret <;> simp⟩
        (fun deadline hdeadline => ?_) (fun _ => Or.inl rfl)
      obtain ⟨hsecret, hnow⟩ := Option.ite_none_right_eq_some.mp hdeadline
      obtain rfl := Option.some.inj hnow
      obtain ⟨taken, htaken⟩ := Option.isSome_iff_exists.mp (h.announced hcopier.1)
      exact ⟨hsecret, taken, htaken, Nat.add_le_add_right (h.taken taken htaken).1 _⟩
  | ended jobEnd =>
      obtain ⟨⟨hphase, hend⟩, hs'⟩ := Option.ite_none_right_eq_some.mp hstep
      obtain rfl := Option.some.inj hs'
      simp only [CopierFits, hphase] at hcopier
      refine h.kill.copied (by simp) ⟨by simpa using hcopier.1, alive_kill s, ?_⟩ h.kill.deadline
        (fun _ => Or.inl rfl)
      rintro rfl
      simpa [mayEnd] using hend
  | stored =>
      obtain ⟨⟨hstarted, -⟩, hs'⟩ := Option.ite_none_right_eq_some.mp hstep
      obtain rfl := Option.some.inj hs'
      exact { h with stored := fun _ => Or.inl hstarted }
  | cancelled =>
      obtain ⟨-, hs'⟩ := Option.ite_none_right_eq_some.mp hstep
      obtain rfl := Option.some.inj hs'
      exact { h with stored := h.stored }
  | dropped =>
      obtain ⟨hphase, rfl⟩ := step_dropped hstep
      have hdeadline : s.deadline = none := by
        rcases hphase with hphase | ⟨expiry, hphase⟩ <;> simp_all [CopierFits]
      have hnone : s.stored = false := by
        rcases hphase with hphase | ⟨expiry, hphase⟩ <;>
          exact h.not_stored (by simp [jobStarted, hphase]) (by simp [hphase])
      exact h.kill.copied (by simp) ⟨alive_kill s, by simpa using hdeadline⟩ h.kill.deadline
        (by simp [hnone])
  | died =>
      obtain rfl := Option.some.inj hstep
      exact h.copied (by simp) trivial h.deadline (fun _ => Or.inr rfl)
  | otherClient =>
      obtain rfl := Option.some.inj hstep
      exact { h with selected := by simp }

theorem books_of_reach {guard : ServedCopy → ServeEvent → Prop} (h : (system job).Reach guard s) :
    s.Books job := by
  refine h.invariant ?_ fun _ _ _ _ _ hstep hbooks => hbooks.step hstep
  rintro _ ⟨now, rfl⟩
  exact
    { helper := ⟨rfl, rfl, rfl⟩
      copier := ⟨rfl, rfl, by simp⟩
      watchdog := rfl
      read := by simp
      taken := by simp
      selected := by simp
      announced := by simp
      deadline := by simp
      stored := by simp }

/-! ### Timers that go off in time -/

/-- The timers that are armed and have somebody waiting for them. -/
def timers (s : ServedCopy) : List Nat :=
  (if s.alive then s.watchdog.toList else []) ++
    (if s.copier = .timing then s.deadline.toList else [])

theorem mem_timers {timer : Nat} : timer ∈ s.timers ↔ s.alive = true ∧ s.watchdog = some timer ∨
    s.copier = .timing ∧ s.deadline = some timer := by
  simp [timers]

/-- No timer is waited for longer than this after its time. -/
def punctual (late : Nat) (s : ServedCopy) : ServeEvent → Prop
  | .tick n => ∀ timer ∈ s.timers, s.now + n ≤ timer + late
  | _ => True

/-- Arms no timer of the past. -/
def ArmsAhead (s s' : ServedCopy) : Prop :=
  s'.now = s.now ∧ ∀ timer ∈ s'.timers, timer ∈ s.timers ∨ s.now ≤ timer

theorem ArmsAhead.exits (s : ServedCopy) (exit : HelperExit) : s.ArmsAhead (s.exits exit) := by
  refine ⟨rfl, fun timer hmem => Or.inl ?_⟩
  rw [mem_timers] at hmem ⊢
  rcases hmem with ⟨halive, -⟩ | hwaiting
  · simp at halive
  · exact Or.inr hwaiting

theorem ArmsAhead.killed (s : ServedCopy) {copier : CopierPhase} (hcopier : copier ≠ .timing) :
    s.ArmsAhead { s.kill with copier } := by
  refine ⟨now_kill s, fun timer hmem => ?_⟩
  rcases mem_timers.mp hmem with ⟨halive, -⟩ | ⟨hwaiting, -⟩
  · exact absurd ((alive_kill s).symm.trans halive) (by simp)
  · exact absurd hwaiting hcopier

/-- The helper has its time as before, and so has the job. -/
theorem ArmsAhead.same (hnow : s'.now = s.now) (halive : s'.alive = true → s.alive = true)
    (hwatchdog : s'.watchdog = s.watchdog) (hcopier : s'.copier = .timing → s.copier = .timing)
    (hdeadline : s'.deadline = s.deadline) : s.ArmsAhead s' := by
  refine ⟨hnow, fun timer hmem => Or.inl ?_⟩
  rw [mem_timers, hwatchdog, hdeadline] at hmem
  rw [mem_timers]
  exact hmem.imp (And.imp_left halive) (And.imp_left hcopier)

/-- A step that takes no time arms timers of the future only. -/
theorem armsAhead_step {e : ServeEvent} (hstep : s.step job e = some s') (he : ∀ n, e ≠ .tick n) :
    s.ArmsAhead s' := by
  cases e with
  | tick n => exact absurd rfl (he n)
  | read =>
      obtain ⟨-, hs'⟩ := Option.ite_none_right_eq_some.mp hstep
      obtain rfl := Option.some.inj hs'
      refine ⟨rfl, fun timer hmem => ?_⟩
      rcases mem_timers.mp hmem with ⟨-, harmed⟩ | hwaiting
      · obtain ⟨delay, -, rfl⟩ := Option.map_eq_some_iff.mp harmed
        exact Or.inr (Nat.le_add_right _ _)
      · exact Or.inl (mem_timers.mpr (Or.inr hwaiting))
  | polled =>
      obtain ⟨-, hs'⟩ := Option.ite_none_right_eq_some.mp hstep
      obtain rfl := Option.some.inj hs'
      refine ⟨rfl, fun timer hmem => ?_⟩
      rcases mem_timers.mp hmem with hwatched | ⟨-, harmed⟩
      · exact Or.inl (mem_timers.mpr (Or.inl hwatched))
      · obtain ⟨-, harmed⟩ := Option.ite_none_right_eq_some.mp harmed
        exact Or.inr (Option.some.inj harmed ▸ Nat.le_add_right _ _)
  | heard =>
      obtain ⟨expiry, hphase, -, rfl⟩ := step_heard hstep
      exact .same rfl id rfl (by simp) rfl
  | unheard =>
      obtain ⟨expiry, hphase, -, rfl⟩ := step_unheard hstep
      exact .killed s (by simp)
  | dropped =>
      obtain ⟨-, rfl⟩ := step_dropped hstep
      exact .killed s (by simp)
  | notHanded text =>
      obtain ⟨-, hs'⟩ := Option.ite_none_right_eq_some.mp hstep
      exact Option.some.inj hs' ▸ .killed s (by simp)
  | ended jobEnd =>
      obtain ⟨-, hs'⟩ := Option.ite_none_right_eq_some.mp hstep
      exact Option.some.inj hs' ▸ .killed s (by simp)
  | readNothing | notTaken | notPrinted | served | watchdog | killed =>
      obtain ⟨exit, -, -, -, rfl⟩ := step_exits rfl hstep
      exact .exits s exit
  | taken =>
      obtain ⟨hphase, hs'⟩ := Option.ite_none_right_eq_some.mp hstep
      exact Option.some.inj hs' ▸ .same rfl (fun _ => by simp [alive, hphase]) rfl id rfl
  | printed =>
      obtain ⟨hphase, hs'⟩ := Option.ite_none_right_eq_some.mp hstep
      exact Option.some.inj hs' ▸ .same rfl (fun _ => by simp [alive, hphase]) rfl id rfl
  | handed =>
      obtain ⟨hphase, hs'⟩ := Option.ite_none_right_eq_some.mp hstep
      exact Option.some.inj hs' ▸ .same rfl id rfl (by simp) rfl
  | stored =>
      obtain ⟨-, hs'⟩ := Option.ite_none_right_eq_some.mp hstep
      exact Option.some.inj hs' ▸ .same rfl id rfl id rfl
  | cancelled =>
      obtain ⟨-, hs'⟩ := Option.ite_none_right_eq_some.mp hstep
      exact Option.some.inj hs' ▸ .same rfl id rfl id rfl
  | died => exact Option.some.inj hstep ▸ .same rfl id rfl (by simp) rfl
  | otherClient => exact Option.some.inj hstep ▸ .same rfl id rfl id rfl

@[simp] theorem watchdog_kill (s : ServedCopy) : s.kill.watchdog = s.watchdog := by
  unfold ServedCopy.kill
  split <;> rfl

/-- Whoever kills it, it was not the watchdog. -/
theorem helper_kill_eq (h : s.kill.helper = .exited .watchdog) : s.helper = .exited .watchdog := by
  unfold ServedCopy.kill at h
  split at h
  · simp [ServedCopy.exits] at h
  · exact h

/-- A watchdog that has gone off under a job was not behind it. -/
def NotBehind (late : Nat) (s : ServedCopy) : Prop :=
  s.helper = .exited .watchdog → s.copier ≠ .died → ∀ deadline, s.deadline = some deadline →
    ∃ watchdog, s.watchdog = some watchdog ∧ watchdog ≤ deadline + late

theorem NotBehind.same {late : Nat} (h : s.NotBehind late) (hhelper : s'.helper = s.helper)
    (hcopier : s'.copier ≠ .died → s.copier ≠ .died) (hwatchdog : s'.watchdog = s.watchdog)
    (hdeadline : s'.deadline = s.deadline) : s'.NotBehind late := by
  unfold NotBehind
  rw [hhelper, hwatchdog, hdeadline]
  exact fun hbarked hlives => h hbarked (hcopier hlives)

theorem NotBehind.killed {late : Nat} (h : s.NotBehind late) (hlives : s.copier ≠ .died)
    {copier : CopierPhase} : NotBehind late { s.kill with copier } := by
  intro hbarked _ deadline hdeadline
  simpa using h (helper_kill_eq hbarked) hlives deadline (by simpa using hdeadline)

theorem NotBehind.exits {late : Nat} (hbooks : s.Books job)
    (hlive : ∀ timer ∈ s.timers, s.now ≤ timer + late) {exit : HelperExit} (halive : s.alive = true)
    (hdue : exit = .watchdog → s.watchdog.any fun deadline => deadline ≤ s.now) :
    NotBehind late (s.exits exit) := by
  intro hbarked hlives deadline hdeadline
  obtain ⟨watchdog, hwatchdog, hpast⟩ :=
    (Option.any_eq_true _ _).mp (hdue (HelperPhase.exited.inj hbarked))
  have htiming : s.copier = .timing := by
    have hcopier := hbooks.copier
    unfold CopierFits at hcopier
    change s.copier ≠ .died at hlives
    change s.deadline = some deadline at hdeadline
    cases hphase : s.copier <;> simp_all
  have hlate := hlive deadline (mem_timers.mpr (Or.inr ⟨htiming, hdeadline⟩))
  exact ⟨watchdog, hwatchdog, Nat.le_trans (of_decide_eq_true hpast) hlate⟩

theorem NotBehind.step {late : Nat} (h : s.NotBehind late) (hbooks : s.Books job)
    (hlive : ∀ timer ∈ s.timers, s.now ≤ timer + late) {e : ServeEvent}
    (hstep : s.step job e = some s') : s'.NotBehind late := by
  cases e with
  | readNothing | notTaken | notPrinted | served | watchdog | killed =>
      obtain ⟨exit, halive, hdue, -, rfl⟩ := step_exits rfl hstep
      exact .exits hbooks hlive halive hdue
  | polled =>
      obtain ⟨hphase, hs'⟩ := Option.ite_none_right_eq_some.mp hstep
      obtain rfl := Option.some.inj hs'
      intro hbarked _ deadline hdeadline
      have hhelper := hbooks.helper
      simp only [HelperFits, show s.helper = .exited .watchdog from hbarked] at hhelper
      obtain ⟨watchdog, hwatchdog, hpast⟩ := (Option.any_eq_true _ _).mp hhelper
      obtain ⟨-, hnow⟩ := Option.ite_none_right_eq_some.mp hdeadline
      have hle := of_decide_eq_true hpast
      exact ⟨watchdog, hwatchdog, by have := Option.some.inj hnow; omega⟩
  | heard =>
      obtain ⟨expiry, hphase, -, rfl⟩ := step_heard hstep
      exact h.same rfl (by simp [hphase]) rfl rfl
  | unheard =>
      obtain ⟨expiry, hphase, -, rfl⟩ := step_unheard hstep
      exact h.killed (by simp [hphase])
  | dropped =>
      obtain ⟨hphase, rfl⟩ := step_dropped hstep
      exact h.killed (by rcases hphase with hphase | ⟨expiry, hphase⟩ <;> simp [hphase])
  | notHanded text =>
      obtain ⟨hphase, hs'⟩ := Option.ite_none_right_eq_some.mp hstep
      exact Option.some.inj hs' ▸ h.killed (by simp [hphase])
  | ended jobEnd =>
      obtain ⟨⟨hphase, -⟩, hs'⟩ := Option.ite_none_right_eq_some.mp hstep
      exact Option.some.inj hs' ▸ h.killed (by simp [hphase])
  | read =>
      obtain ⟨-, hs'⟩ := Option.ite_none_right_eq_some.mp hstep
      exact Option.some.inj hs' ▸ fun hbarked => by simp at hbarked
  | taken =>
      obtain ⟨-, hs'⟩ := Option.ite_none_right_eq_some.mp hstep
      exact Option.some.inj hs' ▸ fun hbarked => by simp at hbarked
  | printed =>
      obtain ⟨-, hs'⟩ := Option.ite_none_right_eq_some.mp hstep
      exact Option.some.inj hs' ▸ fun hbarked => by simp at hbarked
  | handed =>
      obtain ⟨hphase, hs'⟩ := Option.ite_none_right_eq_some.mp hstep
      exact Option.some.inj hs' ▸ h.same rfl (by simp [hphase]) rfl rfl
  | stored =>
      obtain ⟨-, hs'⟩ := Option.ite_none_right_eq_some.mp hstep
      exact Option.some.inj hs' ▸ h.same rfl id rfl rfl
  | cancelled =>
      obtain ⟨-, hs'⟩ := Option.ite_none_right_eq_some.mp hstep
      exact Option.some.inj hs' ▸ h.same rfl id rfl rfl
  | tick n => exact Option.some.inj hstep ▸ h.same rfl id rfl rfl
  | died => exact Option.some.inj hstep ▸ h.same rfl (by simp) rfl rfl
  | otherClient => exact Option.some.inj hstep ▸ h.same rfl id rfl rfl

/-- No live timer is overdue. -/
structure InTime (late : Nat) (s : ServedCopy) : Prop where
  timers : ∀ timer ∈ s.timers, s.now ≤ timer + late
  watchdog : s.NotBehind late

theorem InTime.step {late : Nat} (hbooks : s.Books job) (h : s.InTime late) {e : ServeEvent}
    (hok : punctual late s e) (hstep : s.step job e = some s') : s'.InTime late := by
  by_cases htick : ∃ n, e = .tick n
  · obtain ⟨n, rfl⟩ := htick
    obtain rfl := Option.some.inj hstep
    exact ⟨hok, h.watchdog.step hbooks h.timers hstep⟩
  · have harms := armsAhead_step hstep fun n he => htick ⟨n, he⟩
    refine ⟨fun timer hmem => ?_, h.watchdog.step hbooks h.timers hstep⟩
    rw [harms.1]
    rcases harms.2 timer hmem with hbefore | hahead
    · exact h.timers timer hbefore
    · exact Nat.le_trans hahead (Nat.le_add_right _ _)

theorem inTime_of_reach {late : Nat} (h : (system job).Reach (punctual late) s) :
    s.InTime late := by
  refine h.invariant ?_ fun _ _ _ hreach hok hstep hintime =>
    hintime.step (books_of_reach hreach) hok hstep
  rintro _ ⟨now, rfl⟩
  exact ⟨by simp [ServedCopy.timers, alive], by simp [NotBehind]⟩

/-- **A secret goes in time.** While timers go off no later than `late`, a secret that is still the
selection has not been there for longer than its time, or the least one, and the watchdog's margin,
whether or not the application lives; and not for longer than its time since the job was polled. -/
theorem secret_gone_in_time {late : Nat} (h : (system job).Reach (punctual late) s)
    (hsecret : job.secret = true) (hselected : s.selected = true) :
    (∃ taken, s.takenAt = some taken ∧ s.now ≤ taken + max job.clearAfter second + second + late) ∧
      (s.copier = .timing → ∃ deadline, s.deadline = some deadline ∧ s.now ≤ deadline + late) := by
  have hbooks := books_of_reach h
  have hintime := inTime_of_reach h
  obtain ⟨halive, htaken⟩ := hbooks.selected hselected
  refine ⟨?_, fun htiming => ?_⟩
  · obtain ⟨taken, htaken⟩ := Option.isSome_iff_exists.mp htaken
    obtain ⟨-, read, hread, hle⟩ := hbooks.taken taken htaken
    obtain ⟨delay, hdelay⟩ : ∃ delay, job.watchdogDelay = some delay :=
      ⟨_, CopyJob.watchdogDelay_eq_some.mpr ⟨hsecret, rfl⟩⟩
    have hwatchdog : s.watchdog = some (read + delay) := by
      rw [hbooks.watchdog, hread, hdelay]
      rfl
    have hlate := hintime.timers _ (mem_timers.mpr (Or.inl ⟨halive, hwatchdog⟩))
    have hbound := CopyJob.watchdogDelay_le hdelay
    exact ⟨taken, htaken, by omega⟩
  · have hcopier := hbooks.copier
    simp only [CopierFits, htiming, hsecret] at hcopier
    obtain ⟨deadline, hdeadline⟩ := Option.isSome_iff_exists.mp hcopier.2
    exact ⟨deadline, hdeadline, hintime.timers _ (mem_timers.mpr (Or.inr ⟨htiming, hdeadline⟩))⟩

/-- **No value goes early.** A job clears a value only if it is a secret that the helper took the
selection for a whole time ago; and the watchdog goes off only after a secret's whole time since the
helper had it. -/
theorem secret_kept_for_its_time {guard : ServedCopy → ServeEvent → Prop}
    (h : (system job).Reach guard s) (hfits : job.timeout + watchdogMargin < 2 ^ 64) :
    (s.copier = .ended .cleared → job.secret = true ∧
        ∃ taken, s.takenAt = some taken ∧ taken + job.clearAfter ≤ s.now) ∧
      (s.helper = .exited .watchdog → job.secret = true ∧
        ∃ read, s.readAt = some read ∧ read + job.clearAfter < s.now) := by
  have hbooks := books_of_reach h
  refine ⟨fun hcleared => ?_, fun hbarked => ?_⟩
  · have hcopier := hbooks.copier
    simp only [CopierFits, hcleared] at hcopier
    obtain ⟨deadline, hdeadline, hdue⟩ := (Option.any_eq_true _ _).mp (hcopier.2.2 trivial)
    obtain ⟨hsecret, taken, htaken, hle⟩ := hbooks.deadline deadline hdeadline
    exact ⟨hsecret, taken, htaken, Nat.le_trans hle (of_decide_eq_true hdue)⟩
  · have hhelper := hbooks.helper
    simp only [HelperFits, hbarked] at hhelper
    obtain ⟨watchdog, hwatchdog, hdue⟩ := (Option.any_eq_true _ _).mp hhelper
    rw [hbooks.watchdog] at hwatchdog
    obtain ⟨read, hread, harmed⟩ := Option.bind_eq_some_iff.mp hwatchdog
    obtain ⟨delay, hdelay, rfl⟩ := Option.map_eq_some_iff.mp harmed
    have hlonger := CopyJob.clearAfter_lt_watchdogDelay hfits hdelay
    have hpast := of_decide_eq_true hdue
    exact ⟨(CopyJob.watchdogDelay_eq_some.mp hdelay).1, read, hread, by omega⟩

/-- **The job is first.** A time of whole seconds, as the preferences have it, leaves the job a
second from the moment the helper has the value: a watchdog that ends the helper of a living
application has waited that long for the job to be polled, but for the delay of a timer. -/
theorem job_ends_first {late n : Nat} (h : (system job).Reach (punctual late) s)
    (hwhole : job.clearAfter = n * second) (hfits : n + watchdogMargin < 2 ^ 64)
    (hbarked : s.helper = .exited .watchdog) (hlives : s.copier ≠ .died) :
    s.deadline = none ∨ ∃ read polled, s.readAt = some read ∧
      s.deadline = some (polled + job.clearAfter) ∧ read + second ≤ polled + late := by
  have hbooks := books_of_reach h
  cases hdeadline : s.deadline with
  | none => exact Or.inl rfl
  | some deadline =>
      obtain ⟨watchdog, hwatchdog, hbehind⟩ :=
        (inTime_of_reach h).watchdog hbarked hlives deadline hdeadline
      obtain ⟨-, taken, -, hle⟩ := hbooks.deadline deadline hdeadline
      rw [hbooks.watchdog] at hwatchdog
      obtain ⟨read, hread, harmed⟩ := Option.bind_eq_some_iff.mp hwatchdog
      obtain ⟨delay, hdelay, rfl⟩ := Option.map_eq_some_iff.mp harmed
      have hseconds : n * second + second ≤ delay := by
        obtain ⟨-, rfl⟩ := CopyJob.watchdogDelay_eq_some.mp hdelay
        have htimeout : job.timeout = max n 1 := by
          rw [CopyJob.timeout, hwhole, Nat.mul_div_cancel _ (by decide)]
        rw [htimeout, ← Nat.succ_mul]
        refine Nat.mul_le_mul_right second (Nat.le_min.mpr ⟨?_, Nat.le_sub_one_of_lt hfits⟩)
        exact Nat.add_le_add (Nat.le_max_left n 1) (Nat.le_refl watchdogMargin)
      refine Or.inr ⟨read, deadline - job.clearAfter, hread, ?_, ?_⟩
      · rw [Nat.sub_add_cancel (by omega)]
      · omega

/-- **What a copy reports.** Once it has a job the helper has taken the selection; a copy that
failed or was dropped left nothing there, and is reported as unavailable if that is what the helper
found. -/
theorem copy_reports_helper {guard : ServedCopy → ServeEvent → Prop}
    (h : (system job).Reach guard s) :
    (s.jobStarted = true → s.takenAt.isSome) ∧
      (s.copier = .dropped → s.selected = false) ∧
      ∀ error, s.copier = .failed error →
        s.selected = false ∧ (error = .unavailable ↔ s.helper = .exited .unavailable) := by
  have hbooks := books_of_reach h
  have hcopier := hbooks.copier
  have hgone : s.alive = false → s.selected = false := by
    intro hdead
    by_contra hselected
    have halive := (hbooks.selected (by simpa using hselected)).1
    simp [hdead] at halive
  refine ⟨fun hstarted => hbooks.announced ?_, fun hdropped => ?_, fun error hfailed => ?_⟩
  · unfold jobStarted at hstarted
    unfold CopierFits at hcopier
    split at hstarted <;> simp_all
  · simp only [CopierFits, hdropped] at hcopier
    exact hgone hcopier.1
  · simp only [CopierFits, hfailed] at hcopier
    exact ⟨hgone hcopier.1, hcopier.2.2⟩

section Examples

instance (late : Nat) (s : ServedCopy) (e : ServeEvent) : Decidable (punctual late s e) := by
  cases e <;> unfold punctual <;> infer_instance

/-- A password, with the time the preferences start with. -/
def ninety : CopyJob := { secret := true, clearAfter := 90 * second }

/-- The application dies once the time runs; the helper has one second more. -/
theorem orphan_gone_in_time : ∃ s, (system ninety).Reach (punctual 0) s ∧ s.copier = .died ∧
    ∃ taken, s.takenAt = some taken ∧ s.now ≤ taken + max ninety.clearAfter second + second + 0 := by
  have hrun : ∃ s, (system ninety).Reach (punctual 0) s ∧ s.copier = .died ∧ s.selected = true := by
    refine TransitionSystem.exists_reach_of_run { now := 0 }
      [.handed, .read, .taken, .printed, .heard, .polled, .died, .tick (91 * second)] ⟨0, rfl⟩ ?_
    decide +kernel
  obtain ⟨s, hreach, hdied, hselected⟩ := hrun
  exact ⟨s, hreach, hdied, (secret_gone_in_time hreach rfl hselected).1⟩

theorem kept_until_cleared : ∃ s, (system ninety).Reach (punctual 0) s ∧ s.copier = .ended .cleared ∧
    ∃ taken, s.takenAt = some taken ∧ taken + ninety.clearAfter ≤ s.now := by
  have hrun : ∃ s, (system ninety).Reach (punctual 0) s ∧ s.copier = .ended .cleared := by
    refine TransitionSystem.exists_reach_of_run { now := 0 }
      [.handed, .read, .taken, .printed, .heard, .stored, .polled, .tick (90 * second),
        .ended .cleared] ⟨0, rfl⟩ ?_
    decide +kernel
  obtain ⟨s, hreach, hcleared⟩ := hrun
  exact ⟨s, hreach, hcleared,
    ((secret_kept_for_its_time hreach (by decide +kernel)).1 hcleared).2⟩

/-- The job is polled a second after the helper had the value, and both timers are due at once. -/
theorem job_polled_late : ∃ s, (system ninety).Reach (punctual 0) s ∧
    s.helper = .exited .watchdog ∧ (s.deadline = none ∨ ∃ read polled, s.readAt = some read ∧
      s.deadline = some (polled + ninety.clearAfter) ∧ read + second ≤ polled + 0) := by
  have hrun : ∃ s, (system ninety).Reach (punctual 0) s ∧ s.helper = .exited .watchdog ∧
      s.copier ≠ .died := by
    refine TransitionSystem.exists_reach_of_run { now := 0 }
      [.handed, .read, .taken, .printed, .heard, .tick second, .polled, .tick (90 * second),
        .watchdog] ⟨0, rfl⟩ ?_
    decide +kernel
  obtain ⟨s, hreach, hbarked, hlives⟩ := hrun
  exact ⟨s, hreach, hbarked,
    job_ends_first hreach rfl (by decide +kernel) hbarked hlives⟩

/-- The compositor offers no clipboard access. -/
theorem unavailable_reported : ∃ s, (system ninety).Reach TransitionSystem.anyStep s ∧
    s.copier = .failed .unavailable ∧ s.selected = false ∧ s.helper = .exited .unavailable := by
  have hrun : ∃ s, (system ninety).Reach TransitionSystem.anyStep s ∧
      s.copier = .failed .unavailable := by
    refine TransitionSystem.exists_reach_of_run { now := 0 }
      [.handed, .read, .notTaken .unavailable, .unheard] ⟨0, rfl⟩ ?_
    decide +kernel
  obtain ⟨s, hreach, hfailed⟩ := hrun
  obtain ⟨hgone, hunavailable⟩ := (copy_reports_helper hreach).2.2 _ hfailed
  exact ⟨s, hreach, hfailed, hgone, hunavailable.mp rfl⟩

end Examples

end ServedCopy

end CosmicPass
