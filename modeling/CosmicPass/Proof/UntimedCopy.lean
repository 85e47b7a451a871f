import CosmicPass.Proof.SecretLifetime

/-!
# The copy without its times

The copies that `HelperClipboard` has to do with are told apart by what their futures do next, in
any order. With its times left out a copy beside its helper is one of those, so what holds of them
in any order holds of it.
-/

namespace CosmicPass

def CopierPhase.untimed (stored : Bool) : CopierPhase → CopyPhase
  | .handing => .writing
  | .awaiting _ => .waitingReady
  | .starting | .timing | .ended _ => if stored then .returned (.ok ()) else .storing
  | .failed error => .returned (.error error)
  | .dropped | .died => .dropped

def CopierPhase.jobEnd? : CopierPhase → Option JobEnd
  | .ended jobEnd => some jobEnd
  | _ => none

/-- One copy by itself, its helper spawned; `none` is a newer copy that cancels its job. -/
def CopyCall.system (secret : Bool) : TransitionSystem CopyCall (Option CopyEvent) :=
  { init := fun call => call =
      { secret, phase := .writing, helper := some { alive := true, ready := false } }
    step := fun call event =>
      match event with
      | some event => call.step event
      | none =>
          if call.phase = .returned (.ok ()) then some { call with cancelled := true } else none }

namespace ServedCopy

variable {job : CopyJob} {s s' : ServedCopy}

/-- What `HelperClipboard` knows of the copy. -/
def untimed (job : CopyJob) (s : ServedCopy) : CopyCall :=
  { secret := job.secret
    phase := s.copier.untimed s.stored
    helper := some { alive := s.alive, ready := s.announced }
    cancelled := s.cancelled
    ended := s.copier.jobEnd? }

theorem untimed_killed (s : ServedCopy) (copier : CopierPhase) :
    untimed job { s.kill with copier } =
      { (s.untimed job).kill with phase := copier.untimed s.stored, ended := copier.jobEnd? } := by
  have hcancelled : s.kill.cancelled = s.cancelled := by
    unfold ServedCopy.kill
    split <;> rfl
  simp [untimed, CopyCall.kill, hcancelled]
  exact alive_kill s

/-- A copy that is given up has its helper killed. -/
theorem untimed_left {copier : CopierPhase} (hbefore : s.copier.jobEnd? = none)
    (hend : copier.jobEnd? = none) :
    untimed job { s.kill with copier } = (s.untimed job).leave (copier.untimed s.stored) := by
  rw [untimed_killed, hend, CopyCall.leave, ← hbefore]
  rfl

@[simp] theorem alive_untimed (job : CopyJob) (s : ServedCopy) :
    (s.untimed job).alive = s.alive := rfl

@[simp] theorem ready_untimed (job : CopyJob) (s : ServedCopy) :
    (s.untimed job).ready = s.announced := rfl

theorem untimed_storing (h : s.jobStarted = true) (stored : Bool) :
    s.copier.untimed stored = if stored then .returned (.ok ()) else .storing := by
  unfold jobStarted at h
  cases hphase : s.copier <;> simp_all [CopierPhase.untimed]

/-- Only its death is the end of the application. -/
theorem copier_step_ne_died {e : ServeEvent} (hlives : s.copier ≠ .died) (he : e ≠ .died)
    (hstep : s.step job e = some s') : s'.copier ≠ .died := by
  cases e with
  | died => exact absurd rfl he
  | tick | otherClient => exact Option.some.inj hstep ▸ hlives
  | readNothing | notTaken | notPrinted | served | watchdog | killed =>
      obtain ⟨exit, -, -, -, rfl⟩ := step_exits rfl hstep
      exact hlives
  | heard =>
      obtain ⟨-, -, -, rfl⟩ := step_heard hstep
      simp
  | unheard =>
      obtain ⟨-, -, -, rfl⟩ := step_unheard hstep
      simp
  | dropped =>
      obtain ⟨-, rfl⟩ := step_dropped hstep
      simp
  | read | taken | printed | stored | cancelled =>
      obtain ⟨-, hs'⟩ := Option.ite_none_right_eq_some.mp hstep
      exact Option.some.inj hs' ▸ hlives
  | handed | notHanded | polled | ended =>
      obtain ⟨-, hs'⟩ := Option.ite_none_right_eq_some.mp hstep
      obtain rfl := Option.some.inj hs'
      simp

theorem lives_of_reach {guard : ServedCopy → ServeEvent → Prop} (hguard : ∀ s, ¬ guard s .died)
    (h : (system job).Reach guard s) : s.copier ≠ .died := by
  induction h with
  | start hinit =>
      obtain ⟨now, rfl⟩ := hinit
      simp
  | @next before _ _ _ hok hstep ih =>
      exact copier_step_ne_died ih (fun he => hguard before (he ▸ hok)) hstep

/-- A step is one of the copy, or none that it knows of. -/
theorem untimed_step (hbooks : s.Books job) {e : ServeEvent} (hlives : s.copier ≠ .died)
    (he : e ≠ .died) (hstep : s.step job e = some s') :
    s'.untimed job = s.untimed job ∨
      ∃ event, (CopyCall.system job.secret).step (s.untimed job) event = some (s'.untimed job) := by
  have hhelper := hbooks.helper
  have hcopier := hbooks.copier
  cases e with
  | tick n => exact Or.inl (Option.some.inj hstep ▸ rfl)
  | otherClient => exact Or.inl (Option.some.inj hstep ▸ rfl)
  | died => exact absurd rfl he
  | readNothing | notTaken | notPrinted | served | watchdog | killed =>
      obtain ⟨exit, halive, -, -, rfl⟩ := step_exits rfl hstep
      exact Or.inr ⟨some .exits, if_pos halive⟩
  | read =>
      obtain ⟨⟨hphase, -⟩, hs'⟩ := Option.ite_none_right_eq_some.mp hstep
      obtain rfl := Option.some.inj hs'
      exact Or.inl (by simp [untimed, alive, hphase])
  | taken =>
      obtain ⟨hphase, hs'⟩ := Option.ite_none_right_eq_some.mp hstep
      obtain rfl := Option.some.inj hs'
      exact Or.inl (by simp [untimed, alive, hphase])
  | printed =>
      obtain ⟨hphase, hs'⟩ := Option.ite_none_right_eq_some.mp hstep
      obtain rfl := Option.some.inj hs'
      simp only [HelperFits, hphase] at hhelper
      have hawaiting : s.copier.untimed s.stored = .waitingReady := by
        unfold CopierFits at hcopier
        cases hcopy : s.copier <;> simp_all [CopierPhase.untimed, alive]
      refine Or.inr ⟨some .serves, if_pos ⟨hawaiting, by simp [alive, hphase], ?_⟩⟩
      simp [hhelper.2.2]
  | handed =>
      obtain ⟨hphase, hs'⟩ := Option.ite_none_right_eq_some.mp hstep
      obtain rfl := Option.some.inj hs'
      refine Or.inr ⟨some .written, ?_⟩
      simp [CopyCall.system, CopyCall.step, untimed, hphase, CopierPhase.untimed,
        CopierPhase.jobEnd?, alive]
  | heard =>
      obtain ⟨expiry, hphase, hheard, rfl⟩ := step_heard hstep
      have hnone := hbooks.not_stored (by simp [jobStarted, hphase]) (by simp [hphase])
      refine Or.inr ⟨some .ready, ?_⟩
      simp [CopyCall.system, CopyCall.step, untimed, hphase, hnone, hheard, CopyCall.ready,
        CopierPhase.untimed, CopierPhase.jobEnd?, alive]
  | unheard =>
      obtain ⟨expiry, hphase, -, rfl⟩ := step_unheard hstep
      have hbefore : (s.untimed job).phase = .waitingReady := by
        simp [untimed, hphase, CopierPhase.untimed]
      rw [untimed_left (by simp [hphase, CopierPhase.jobEnd?]) rfl]
      exact Or.inr ⟨some (.notReady s.kill.exitCode), if_pos hbefore⟩
  | notHanded text =>
      obtain ⟨hphase, hs'⟩ := Option.ite_none_right_eq_some.mp hstep
      obtain rfl := Option.some.inj hs'
      have hbefore : (s.untimed job).phase = .writing := by
        simp [untimed, hphase, CopierPhase.untimed]
      rw [untimed_left (by simp [hphase, CopierPhase.jobEnd?]) rfl]
      exact Or.inr ⟨some (.writeFailed text), if_pos hbefore⟩
  | dropped =>
      obtain ⟨hphase, rfl⟩ := step_dropped hstep
      have hbefore : (s.untimed job).phase = .writing ∨ (s.untimed job).phase = .waitingReady := by
        rcases hphase with hphase | ⟨expiry, hphase⟩ <;> simp [untimed, hphase, CopierPhase.untimed]
      have hnone : s.copier.jobEnd? = none := by
        rcases hphase with hphase | ⟨expiry, hphase⟩ <;> simp [hphase, CopierPhase.jobEnd?]
      rw [untimed_left hnone rfl]
      exact Or.inr ⟨some .dropped, if_pos hbefore⟩
  | polled =>
      obtain ⟨hphase, hs'⟩ := Option.ite_none_right_eq_some.mp hstep
      obtain rfl := Option.some.inj hs'
      exact Or.inl (by simp [untimed, hphase, CopierPhase.untimed, CopierPhase.jobEnd?, alive])
  | ended jobEnd =>
      obtain ⟨⟨hphase, hend⟩, hs'⟩ := Option.ite_none_right_eq_some.mp hstep
      obtain rfl := Option.some.inj hs'
      refine Or.inr ⟨some (.ended jobEnd), ?_⟩
      have hended : (s.untimed job).mayEnd jobEnd = true := by
        cases jobEnd with
        | cleared =>
            obtain ⟨deadline, hdeadline, -⟩ := (Option.any_eq_true _ _).mp hend
            exact (hbooks.deadline deadline hdeadline).1
        | ownershipLost => exact hend
        | replaced => exact hend
      have hbefore : (s.untimed job).phase = .storing ∨
          (s.untimed job).phase = .returned (.ok ()) := by
        cases hstored : s.stored <;> simp [untimed, hphase, CopierPhase.untimed, hstored]
      have hopen : (s.untimed job).ended = none := by simp [untimed, hphase, CopierPhase.jobEnd?]
      rw [untimed_killed]
      refine (if_pos ⟨hbefore, hopen, hended⟩).trans ?_
      simp [untimed, CopyCall.kill, hphase, CopierPhase.untimed, CopierPhase.jobEnd?]
  | stored =>
      obtain ⟨⟨hstarted, hnone⟩, hs'⟩ := Option.ite_none_right_eq_some.mp hstep
      obtain rfl := Option.some.inj hs'
      refine Or.inr ⟨some .stored, (if_pos ?_).trans ?_⟩
      · simp [untimed, untimed_storing hstarted, hnone]
      · simp [untimed, untimed_storing hstarted, alive]
  | cancelled =>
      obtain ⟨hstored, hs'⟩ := Option.ite_none_right_eq_some.mp hstep
      obtain rfl := Option.some.inj hs'
      have hstarted := (hbooks.stored hstored).resolve_right hlives
      refine Or.inr ⟨none, (if_pos ?_).trans rfl⟩
      simp [untimed, untimed_storing hstarted, hstored]

/-- **A copy among copies.** While the application lives, a copy with its times is one of the copies
`HelperClipboard` has to do with: its times decide which of their steps come next, and add none. -/
theorem untimed_reach {guard : ServedCopy → ServeEvent → Prop} (hguard : ∀ s, ¬ guard s .died)
    (h : (system job).Reach guard s) :
    (CopyCall.system job.secret).Reach TransitionSystem.anyStep (s.untimed job) := by
  refine TransitionSystem.Reach.simulate (untimed job) ?_ ?_ h
  · rintro _ ⟨now, rfl⟩
    exact .start rfl
  · intro s e s' hreach _ hok hstep
    have hdied : e ≠ .died := by
      rintro rfl
      exact hguard s hok
    rcases untimed_step (books_of_reach hreach) (lives_of_reach hguard hreach) hdied hstep with
      hsame | ⟨event, hevent⟩
    · exact hsame ▸ .start rfl
    · exact .single trivial hevent

/-- A password that is cleared when its time is up. -/
theorem untimed_cleared : ∃ s, (system ninety).Reach (fun _ e => e ≠ .died) s ∧
    s.copier = .ended .cleared ∧
      (CopyCall.system true).Reach TransitionSystem.anyStep (s.untimed ninety) := by
  have hrun : ∃ s, (system ninety).Reach (fun _ e => e ≠ .died) s ∧ s.copier = .ended .cleared := by
    refine TransitionSystem.exists_reach_of_run { now := 0 }
      [.handed, .read, .taken, .printed, .heard, .stored, .polled, .tick (90 * second),
        .ended .cleared] ⟨0, rfl⟩ ?_
    decide +kernel
  obtain ⟨s, hreach, hcleared⟩ := hrun
  exact ⟨s, hreach, hcleared, untimed_reach (fun _ => by simp) hreach⟩

end ServedCopy

end CosmicPass
