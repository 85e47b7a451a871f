import CosmicPass.App.Popup
import CosmicPass.Proof.Dispatch

/-!
# The surface and what the reducer takes for visible

The surface is created and destroyed by the effects of the reducer, but a request to show can be
refused and the compositor can take the focus away. Every message leaves the log one that `Popup`
reads, and the surface, the reducer's state and what was read of the log agree on whether the popup
is on screen. The log read back then says when it was opened, when it could be opened again, and
what was measured.
-/

namespace CosmicPass

/-- The surface and the reducer agree with what was read of the log. -/
structure Popup.Shows (p : Popup) (s : App) : Prop where
  surface : s.surface.visible = p.isOn
  model : s.world.model.view.visible = p.isOn
  pending : s.surface.pendingShow = p.pending
  hidden : ∀ since, p = .off since → s.surface.lastHide = since

namespace App

def stamped (instant : Nat) (tasks : List AppTask) : List (Nat × AppTask) :=
  tasks.map fun task => (instant, task)

/-- The tasks can be read on, and what is read of them agrees with the state after. -/
structure Follows (s : App) (p : Popup) (instant : Nat) (out : App × List AppTask) : Prop where
  id : out.1.surface.id = s.surface.id
  reads : ∃ p', (Popup.system s.surface.id).run TransitionSystem.anyStep p (stamped instant out.2) =
    some p' ∧ p'.Shows out.1

section Follows

variable {s : App} {p : Popup} {instant : Nat} {out : App × List AppTask}

theorem run_of_not_concerns {id : WindowId} {tasks : List AppTask}
    (h : ∀ task ∈ tasks, Popup.concerns task = false) :
    (Popup.system id).run TransitionSystem.anyStep p (stamped instant tasks) = some p := by
  induction tasks with
  | nil => rfl
  | cons task rest ih =>
      refine TransitionSystem.run_cons_eq_some.mpr ⟨trivial, p, ?_, ?_⟩
      · exact Popup.read_of_not_concerns (h task List.mem_cons_self)
      · exact ih fun other hmem => h other (List.mem_cons_of_mem _ hmem)

/-- The surface and the window stay as they are. -/
theorem Follows.same (hshows : p.Shows s) (hsurface : out.1.surface = s.surface)
    (hvisible : out.1.world.model.view.visible = s.world.model.view.visible)
    (htasks : ∀ task ∈ out.2, Popup.concerns task = false) : Follows s p instant out where
  id := by rw [hsurface]
  reads := by
    refine ⟨p, run_of_not_concerns htasks, ?_, ?_, ?_, ?_⟩
    · rw [hsurface, hshows.surface]
    · rw [hvisible, hshows.model]
    · rw [hsurface, hshows.pending]
    · rw [hsurface]
      exact hshows.hidden

/-- One message after the other, at the same reading of the clock. -/
theorem Follows.trans {next : App × List AppTask} (h : Follows s p instant out)
    (hnext : ∀ p', p'.Shows out.1 → Follows out.1 p' instant next) :
    Follows s p instant (next.1, out.2 ++ next.2) := by
  obtain ⟨mid, hmid, hshows⟩ := h.reads
  obtain ⟨hid, last, hlast, hafter⟩ := hnext mid hshows
  refine ⟨hid.trans h.id, last, ?_, hafter⟩
  rw [stamped, List.map_append]
  exact TransitionSystem.run_append_eq_some.mpr ⟨mid, hmid, h.id ▸ hlast⟩

theorem Follows.append {more : List AppTask} (h : Follows s p instant out)
    (hmore : ∀ task ∈ more, Popup.concerns task = false) :
    Follows s p instant (out.1, out.2 ++ more) := by
  have hafter : ∀ p', p'.Shows out.1 → Follows out.1 p' instant (out.1, more) :=
    fun _ hshows => .same hshows rfl rfl hmore
  exact h.trans hafter

/-- What the surface and the window have no part in. -/
theorem Follows.books {s' : App} (h : Follows s p instant out)
    (hsurface : s'.surface = out.1.surface)
    (hvisible : s'.world.model.view.visible = out.1.world.model.view.visible) :
    Follows s p instant (s', out.2) := by
  obtain ⟨mid, hmid, hshows⟩ := h.reads
  refine ⟨by rw [hsurface, h.id], mid, hmid, ?_, ?_, ?_, ?_⟩
  · rw [hsurface, hshows.surface]
  · rw [hvisible, hshows.model]
  · rw [hsurface, hshows.pending]
  · rw [hsurface]
    exact hshows.hidden

/-- The shell's own books, which the surface has no part in. -/
theorem Follows.of_eq {s' : App} (h : Follows s' p instant out) (hsurface : s'.surface = s.surface) :
    Follows s p instant out where
  id := by rw [h.id, hsurface]
  reads := hsurface ▸ h.reads

end Follows

section Shell

variable [TextSupport] {s : App} {p : Popup} {c : Clock}

/-- **Handling a message keeps the surface and the reducer together.** -/
theorem dispatch_follows (hshows : p.Shows s) (msg : Msg) (c : Clock) :
    Follows s p c.instant (s.dispatch msg c) := by
  cases dispatch_cases s msg c with
  | quiet _ hsurface hvisible htasks =>
      exact .same hshows hsurface hvisible (by simp [htasks])
  | refused hbefore _ _ _ hsurface hvisible htasks =>
      exact .same hshows hsurface (hvisible.trans hbefore.symm) (by simp [htasks])
  | shown hbefore hready _ _ hvisible hout =>
      have hoff : s.surface.visible = false := by rw [hshows.surface, ← hshows.model, hbefore]
      obtain ⟨since, rfl⟩ : ∃ since, p = .off since := by
        cases p with
        | off since => exact ⟨since, rfl⟩
        | on => simp [hshows.model, Popup.isOn] at hbefore
      have hsince := hshows.hidden since rfl
      simp only [Surface.show, Surface.beginShow, Surface.markShowRequested, hoff, Bool.false_eq_true,
        if_false, Prod.mk.injEq] at hout
      obtain ⟨hsurface, htasks⟩ := hout
      refine ⟨by rw [hsurface], .on c.instant false, ?_, ?_, hvisible, ?_, by simp⟩
      · rw [htasks]
        refine TransitionSystem.run_cons_eq_some.mpr ⟨trivial, .on c.instant false, ?_, ?_⟩
        · refine if_pos ⟨rfl, fun hidden hmem => ?_⟩
          rw [Surface.recentlyHidden, hsince, Option.mem_def.mp hmem] at hready
          have hlate : ¬ c.instant - hidden < toggleDebounce := by simpa using hready
          rw [toggleDebounce] at hlate ⊢
          omega
        · exact run_of_not_concerns (by simp [Popup.concerns])
      · rw [hsurface]
        rfl
      · rw [hsurface]
        rfl
  | hidden _ hvisible hout =>
      cases p with
      | off since =>
          have hoff : s.surface.visible = false := hshows.surface
          simp only [Surface.hide, hoff, Bool.false_eq_true, if_false, Prod.mk.injEq] at hout
          refine .same hshows hout.1 ?_ (by simp [hout.2])
          rw [hvisible, hshows.model]
          rfl
      | on since measured =>
          have hon : s.surface.visible = true := hshows.surface
          simp only [Surface.hide, hon, if_true, Prod.mk.injEq] at hout
          obtain ⟨hsurface, htasks⟩ := hout
          refine ⟨by rw [hsurface], .off (some c.instant), ?_, ?_, hvisible, ?_, ?_⟩
          · rw [htasks]
            simp [stamped, TransitionSystem.run, TransitionSystem.anyStep, Popup.system, Popup.read]
          · rw [hsurface]
            rfl
          · rw [hsurface]
            rfl
          · rintro _ ⟨⟩
            rw [hsurface]

theorem onKey_follows (hshows : p.Shows s) (press : KeyPress) (c : Clock) :
    Follows s p c.instant (s.onKey press c) := by
  unfold onKey
  split
  next => exact .same hshows rfl rfl (by simp)
  next msg _ =>
    dsimp only
    split
    next =>
      refine (dispatch_follows hshows msg c).append ?_
      unfold scrollToSelection
      dsimp only
      split <;> simp [Popup.concerns]
    next => exact dispatch_follows hshows msg c

theorem rowPressed_follows (hshows : p.Shows s) (row : Nat) (c : Clock) :
    Follows s p c.instant (s.rowPressed row c) := by
  have hselect : Follows s p c.instant
      ({ s with lastPress := some (row, c.instant) }.dispatch (.select row) c) := by
    refine Follows.of_eq (dispatch_follows ?_ _ c) rfl
    exact ⟨hshows.surface, hshows.model, hshows.pending, hshows.hidden⟩
  unfold rowPressed
  dsimp only
  split
  next =>
    refine hselect.trans fun p' hshows' => Follows.of_eq (dispatch_follows ?_ _ c) rfl
    exact ⟨hshows'.surface, hshows'.model, hshows'.pending, hshows'.hidden⟩
  next => exact hselect

omit [TextSupport] in
/-- The compositor reports the focus: what is pending is measured, once. -/
theorem focused_follows (hshows : p.Shows s) (instant : Nat) :
    Follows s p instant
      ({ s with surface := (s.surface.takeOpenLatency instant).2 },
        ((s.surface.takeOpenLatency instant).1.map AppTask.logOpenLatency).toList ++
          [.focusSearch]) := by
  have hfocus : ∀ task ∈ [AppTask.focusSearch], Popup.concerns task = false := by
    simp [Popup.concerns]
  have hmeasured : Follows s p instant ({ s with surface := (s.surface.takeOpenLatency instant).2 },
      ((s.surface.takeOpenLatency instant).1.map AppTask.logOpenLatency).toList) := ?_
  · exact hmeasured.append hfocus
  cases hpending : p.pending with
  | none =>
      have hnone : s.surface.pendingShow = none := hshows.pending.trans hpending
      refine .same hshows ?_ rfl ?_
      · rw [Surface.takeOpenLatency, ← hnone]
      · simp [Surface.takeOpenLatency, hnone]
  | some since =>
      have hsome : s.surface.pendingShow = some since := hshows.pending.trans hpending
      obtain rfl : p = .on since false := by
        cases p with
        | off => simp [Popup.pending] at hpending
        | on at_ measured => cases measured <;> simp_all [Popup.pending]
      refine ⟨rfl, .on since true, ?_, hshows.surface, hshows.model, rfl, by simp⟩
      simp [Surface.takeOpenLatency, hsome, stamped, TransitionSystem.run, TransitionSystem.anyStep,
        Popup.system, Popup.read]

theorem update_follows (hshows : p.Shows s) (message : Message) (c : Clock) :
    Follows s p c.instant (s.update message c) := by
  cases message with
  | core msg => exact dispatch_follows hshows msg c
  | key press => exact onKey_follows hshows press c
  | layer event id =>
      cases event with
      | focused =>
          simp only [update]
          split
          · exact focused_follows hshows c.instant
          · exact .same hshows rfl rfl (by simp)
      | unfocused =>
          simp only [update]
          split
          · exact dispatch_follows hshows .hide c
          · exact .same hshows rfl rfl (by simp)
      | done => exact .same hshows rfl rfl (by simp [update])
  | submit | nothing => exact .same hshows rfl rfl (by simp [update])
  | rowPressed row => exact rowPressed_follows hshows row c
  | openUrl url =>
      have hopen : Follows s p c.instant (s, [.openUrl url]) :=
        .same hshows rfl rfl (by simp [Popup.concerns])
      exact hopen.trans fun _ hshows => dispatch_follows hshows .hide c

theorem dbusActivation_follows (hshows : p.Shows s) (details : Details) (c : Clock) :
    Follows s p c.instant (s.dbusActivation details c) := by
  have hidle : Follows s p c.instant (s, []) := .same hshows rfl rfl (by simp)
  cases details with
  | activate =>
      simp only [dbusActivation]
      split
      · exact hidle
      · exact dispatch_follows hshows .toggle c
  | activateAction action =>
      simp only [dbusActivation]
      split
      · exact dispatch_follows hshows .show c
      · exact dispatch_follows hshows .hide c
      · exact dispatch_follows hshows .refreshRequested c
      · exact hidle
      · exact hidle
  | «open» => exact hidle

theorem resolve_model {w w' : World} {id : Nat} {reply : Reply}
    (h : w.step (.resolve id reply) = some w') : w'.model = w.model := by
  rcases World.step_cases h with ⟨_, _, hevent, -⟩ | ⟨_, _, _, _, -, -, -, -, -, rfl⟩ |
    ⟨_, _, _, hevent, -⟩ | ⟨_, hevent, -⟩
  · cases hevent
  · rfl
  · cases hevent
  · cases hevent

theorem step_follows (hshows : p.Shows s) (e : AppEvent) (out : App × List AppTask)
    (h : s.step c e = some out) : Follows s p c.instant out := by
  cases e with
  | popup message =>
      simp only [step, Option.ite_none_right_eq_some, Option.some.injEq] at h
      obtain ⟨-, rfl⟩ := h
      exact update_follows hshows message c
  | layer event id =>
      obtain rfl := Option.some.inj h
      exact update_follows hshows (.layer event id) c
  | dbus details =>
      obtain rfl := Option.some.inj h
      exact dbusActivation_follows hshows details c
  | tick | loginLine =>
      simp only [step, Option.ite_none_right_eq_some, Option.some.injEq] at h
      obtain ⟨-, rfl⟩ := h
      exact dispatch_follows hshows _ c
  | prefsChanged prefs =>
      obtain rfl := Option.some.inj h
      exact dispatch_follows hshows _ c
  | resolve id reply =>
      obtain ⟨world, hworld, rfl⟩ := Option.map_eq_some_iff.mp h
      exact .same hshows rfl (by rw [resolve_model hworld]) (by simp)
  | deliver id =>
      simp only [step, deliver] at h
      split at h
      next => simp at h
      next =>
        split at h
        next => simp at h
        next found msg _ _ =>
          obtain rfl := Option.some.inj h
          exact (dispatch_follows hshows msg c).books rfl rfl
  | switchAccount account =>
      obtain rfl := Option.some.inj h
      exact .same hshows rfl rfl (by simp)

theorem init_follows (stored : Preferences) (account : Option AccountId) (id : WindowId)
    (action : Option RemoteAction) (c : Clock) :
    Follows (new stored account id) (.off none) c.instant (init stored account id action c) := by
  have hstart : (Popup.off none).Shows (new stored account id) :=
    ⟨rfl, rfl, rfl, by rintro _ ⟨⟩; rfl⟩
  have hstartup := dispatch_follows hstart .startup c
  unfold init
  dsimp only
  split
  · exact hstartup
  · exact hstartup.trans fun _ hshows => dispatch_follows hshows .show c

end Shell

end App

namespace Shell

section Runs

variable [TextSupport] {s : Shell} {guard : Shell → AppEvent × Clock → Prop}

/-- **The log of every run can be read, and what is read agrees with the state.** -/
theorem readLog_of_reach (h : system.Reach guard s) :
    ∃ p, Popup.readLog s.app.surface.id s.log = some p ∧ p.Shows s.app := by
  apply h.invariant
  · rintro _ ⟨stored, account, id, action, c, rfl⟩
    obtain ⟨hid, p, hread, hshows⟩ := App.init_follows stored account id action c
    exact ⟨p, by rw [Popup.readLog]; rw [started] at *; rw [hid]; exact hread, hshows⟩
  · intro s e s' _ _ hstep ⟨p, hread, hshows⟩
    simp only [system, step, Option.ite_none_right_eq_some] at hstep
    obtain ⟨-, hstep⟩ := hstep
    obtain ⟨out, hout, rfl⟩ := Option.map_eq_some_iff.mp hstep
    obtain ⟨hid, p', hread', hshows'⟩ := App.step_follows hshows e.1 out hout
    refine ⟨p', ?_, hshows'⟩
    rw [Popup.readLog, hid]
    exact TransitionSystem.run_append_eq_some.mpr ⟨p, hread, hread'⟩

/-- **The popup is on screen when the reducer takes it for visible.** -/
theorem on_screen_iff_visible (h : system.Reach guard s) :
    s.app.surface.visible = s.app.world.model.view.visible := by
  obtain ⟨p, -, hshows⟩ := readLog_of_reach h
  rw [hshows.surface, hshows.model]

/-- **An opening follows a closing, no sooner than the debounce time after it.** -/
theorem reopened_after_debounce (h : system.Reach guard s) (before between after : List (Nat × AppTask))
    (first second : Nat) (id id' : WindowId)
    (hlog : s.log = before ++ (first, .createSurface id) :: between ++
      (second, .createSurface id') :: after) :
    ∃ closed, (closed, .destroySurface id) ∈ between ∧ closed + toggleDebounce ≤ second := by
  obtain ⟨p, hread, -⟩ := readLog_of_reach h
  rw [Popup.readLog, hlog] at hread
  obtain ⟨closed, hprefix, hrest⟩ := TransitionSystem.run_append_eq_some.mp hread
  obtain ⟨opening, -, hfirst⟩ := TransitionSystem.run_append_eq_some.mp hprefix
  obtain ⟨-, opened, hopened, hbetween⟩ := TransitionSystem.run_cons_eq_some.mp hfirst
  obtain ⟨-, _, hreopened, -⟩ := TransitionSystem.run_cons_eq_some.mp hrest
  obtain ⟨rfl, rfl, -⟩ := Popup.of_read_create hopened
  obtain ⟨-, -, since, rfl, hsince⟩ := Popup.of_read_create hreopened
  obtain ⟨earlier, entry, later, mid, _, rfl, hmid, hclosed, rfl, -⟩ :=
    TransitionSystem.exists_entered_of_run (P := fun q => q = .off since) hbetween (by simp) rfl
  obtain ⟨rfl, htask⟩ := Popup.destroyed_of_read hclosed hmid
  refine ⟨entry.1, ?_, hsince _ rfl⟩
  rw [← htask]
  simp

/-- **What is measured is the opening on screen.** A latency in the log is the time since the
surface was last asked for, which is still there and has not been measured before. -/
theorem latency_measures_opening (h : system.Reach guard s) (before after : List (Nat × AppTask))
    (instant elapsed : Nat) (hlog : s.log = before ++ (instant, .logOpenLatency elapsed) :: after) :
    ∃ earlier since between, before = earlier ++ (since, .createSurface s.app.surface.id) :: between ∧
      elapsed = instant - since ∧ ∀ entry ∈ between, Popup.concerns entry.2 = false := by
  obtain ⟨p, hread, -⟩ := readLog_of_reach h
  rw [Popup.readLog, hlog] at hread
  obtain ⟨opened, hprefix, hrest⟩ := TransitionSystem.run_append_eq_some.mp hread
  obtain ⟨-, _, hmeasured, -⟩ := TransitionSystem.run_cons_eq_some.mp hrest
  obtain ⟨since, rfl, helapsed, -⟩ := @Popup.of_read_latency s.app.surface.id _ _ _ _ hmeasured
  obtain ⟨earlier, entry, later, mid, _, rfl, hmid, hopened, rfl, hkept⟩ :=
    TransitionSystem.exists_entered_of_run (P := fun q => q = .on since false) hprefix (by simp) rfl
  obtain ⟨rfl, htask⟩ := Popup.created_of_read hopened hmid
  refine ⟨earlier, entry.1, later, by rw [← htask], helapsed, fun other hmem => ?_⟩
  obtain ⟨_, _, rfl, hread, rfl⟩ := hkept other hmem
  exact Popup.not_concerns_of_read hread

end Runs

section Examples

attribute [local instance] World.plainText

/-- Opened at the start, closed by the shortcut, and the shortcut again when it is time. -/
def closeAndReopen : List (AppEvent × Clock) :=
  [(.dbus .activate, ⟨5, 0⟩), (.dbus .activate, ⟨toggleDebounce, 0⟩),
    (.dbus .activate, ⟨toggleDebounce + 5, 0⟩)]

theorem on_screen_while_refused : ∃ s : Shell, s.log.length = 3 ∧
    s.app.surface.visible = s.app.world.model.view.visible := by
  have hrun : ∃ s : Shell, system.Reach TransitionSystem.anyStep s ∧ s.log.length = 3 := by
    refine TransitionSystem.exists_reach_of_run (started (App.init .default none 0 none ⟨0, 0⟩) 0)
      [(.dbus .activate, ⟨5, 0⟩), (.dbus (.activateAction (some (.string "show"))), ⟨9, 0⟩)]
      ⟨_, _, _, _, _, rfl⟩ ?_
    decide
  obtain ⟨s, hreach, hlength⟩ := hrun
  exact ⟨s, hlength, on_screen_iff_visible hreach⟩

theorem reopened_by_shortcut : ∃ s : Shell, s.app.surface.visible = true ∧
    ∃ closed, (closed, .destroySurface 0) ∈ [(0, AppTask.focusSearch), (5, .destroySurface 0)] ∧
      closed + toggleDebounce ≤ toggleDebounce + 5 := by
  have hrun : ∃ s : Shell, system.Reach TransitionSystem.anyStep s ∧
      s.app.surface.visible = true ∧
      s.log = [] ++ (0, .createSurface 0) :: [(0, .focusSearch), (5, .destroySurface 0)] ++
        (toggleDebounce + 5, .createSurface 0) :: [(toggleDebounce + 5, .focusSearch)] := by
    refine TransitionSystem.exists_reach_of_run (started (App.init .default none 0 none ⟨0, 0⟩) 0)
      closeAndReopen ⟨_, _, _, _, _, rfl⟩ ?_
    decide +kernel
  obtain ⟨s, hreach, hvisible, hlog⟩ := hrun
  exact ⟨s, hvisible, reopened_after_debounce hreach _ _ _ _ _ _ _ hlog⟩

theorem latency_measured_once : ∃ s : Shell,
    ∃ earlier since between, [(0, AppTask.createSurface 0), (0, .focusSearch)] =
        earlier ++ (since, .createSurface s.app.surface.id) :: between ∧
      7 = 7 - since ∧ ∀ entry ∈ between, Popup.concerns entry.2 = false := by
  have hrun : ∃ s : Shell, system.Reach TransitionSystem.anyStep s ∧
      s.log = [(0, .createSurface 0), (0, .focusSearch)] ++ (7, .logOpenLatency 7) ::
        [(7, .focusSearch), (9, .focusSearch)] := by
    refine TransitionSystem.exists_reach_of_run (started (App.init .default none 0 none ⟨0, 0⟩) 0)
      [(.layer .focused 0, ⟨7, 0⟩), (.layer .focused 0, ⟨9, 0⟩)] ⟨_, _, _, _, _, rfl⟩ ?_
    decide
  obtain ⟨s, hreach, hlog⟩ := hrun
  exact ⟨s, latency_measures_opening hreach _ _ _ _ hlog⟩

end Examples

end Shell

end CosmicPass
