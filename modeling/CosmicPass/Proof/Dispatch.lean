import CosmicPass.App.Shell
import CosmicPass.Proof.Confirmation

/-!
# A message handled by the shell

`dispatch` runs the reducer and then its effects one by one. `dispatch_cases` says what that comes
to: the message is fed to the reducer and its effects, and the surface stays as it was, comes up or
goes away; or a request to show is refused, which is to have asked for a refresh, or for nothing.
-/

namespace CosmicPass

/-- Shows or hides the window. -/
def Effect.ofWindow : Effect → Bool
  | .showWindow | .hideWindow => true
  | _ => false

theorem Effect.ofWindow_of_concernsWindow {effect : Effect} (h : effect.concernsWindow = false) :
    effect.ofWindow = false := by
  cases effect <;> simp_all [concernsWindow, ofWindow]

namespace Model

variable {m : Model}

/-- A hidden window that is asked for: whether a refresh goes with it. -/
def refreshesOnShow (m : Model) (now : Int) : Bool := m.staleSince now ∧ m.mayRefresh

theorem show_of_hidden (hhidden : m.view.visible = false) (now : Int) :
    m.show now =
      ({ (if m.refreshesOnShow now then m.requestRefresh.1 else m) with
          view := { m.view with visible := true } },
        .showWindow :: if m.refreshesOnShow now then m.requestRefresh.2 else []) := by
  refine Prod.ext ?_ ?_
  · rw [show_fst, hhidden]
    unfold refreshesOnShow
    cases hstale : m.staleSince now <;> cases hmay : m.mayRefresh <;>
      simp [requestRefresh_fst, hmay]
  · rw [show_snd, hhidden, requestRefresh_snd]
    unfold refreshesOnShow
    cases hstale : m.staleSince now <;> cases hmay : m.mayRefresh <;> simp

theorem update_of_shows [TextSupport] {msg : Msg} (hhidden : m.view.visible = false)
    (hmsg : msg = .show ∨ msg = .toggle) (now : Int) : m.update msg now = m.show now := by
  rcases hmsg with rfl | rfl
  · rfl
  · rw [update, if_neg (by simp [hhidden])]

end Model

namespace App

section Effects

variable (s : App) (asked : Model) (c : Clock)

/-- The effects join those in flight. -/
def join (effects : List Effect) : App :=
  { s with world := { s.world with
      flights := s.world.flights ++
        effects.map fun effect => { effect, asked, account := s.world.account } } }

theorem runEffects_of_quiet {effects : List Effect}
    (h : ∀ effect ∈ effects, effect.ofWindow = false) :
    s.runEffects asked c effects = (s.join asked effects, []) := by
  induction effects generalizing s with
  | nil => simp [runEffects, join]
  | cons effect rest ih =>
      have hfirst := h effect List.mem_cons_self
      have hrun : s.runEffect asked c effect = (s.spawn asked effect, []) := by
        cases effect <;> simp [Effect.ofWindow] at hfirst <;> rfl
      rw [runEffects, hrun]
      dsimp only
      rw [ih _ fun other hmem => h other (List.mem_cons_of_mem _ hmem)]
      simp [join, spawn]

theorem runEffects_lastPress (effects : List Effect) :
    (s.runEffects asked c effects).1.lastPress = s.lastPress := by
  induction effects generalizing s with
  | nil => rfl
  | cons effect rest ih =>
      rw [runEffects]
      dsimp only
      rw [ih]
      cases effect <;> simp only [runEffect, spawn]
      split <;> rfl

end Effects

section Shell

variable [TextSupport] {s : App} {msg : Msg} {c : Clock}

/-- The world after a request to show that is refused. -/
def refuse (s : App) (c : Clock) : World :=
  if s.world.model.refreshesOnShow c.now then s.world.feed .refreshRequested c.now else s.world

/-- What handling a message comes to. -/
inductive Dispatched (s : App) (msg : Msg) (c : Clock) (out : App × List AppTask) : Prop
  | quiet (hworld : out.1.world = s.world.feed msg c.now) (hsurface : out.1.surface = s.surface)
      (hvisible : out.1.world.model.view.visible = s.world.model.view.visible) (htasks : out.2 = [])
  | shown (hbefore : s.world.model.view.visible = false)
      (hready : s.surface.recentlyHidden c.instant = false)
      (hmsg : msg = .show ∨ msg = .toggle) (hworld : out.1.world = s.world.feed msg c.now)
      (hvisible : out.1.world.model.view.visible = true)
      (hout : (out.1.surface, out.2) = (s.surface.markShowRequested c.instant).show)
  | refused (hbefore : s.world.model.view.visible = false)
      (hrecent : s.surface.recentlyHidden c.instant = true) (hmsg : msg = .show ∨ msg = .toggle)
      (hworld : out.1.world = s.refuse c) (hsurface : out.1.surface = s.surface)
      (hvisible : out.1.world.model.view.visible = false) (htasks : out.2 = [])
  | hidden (hworld : out.1.world = s.world.feed msg c.now)
      (hvisible : out.1.world.model.view.visible = false)
      (hout : (out.1.surface, out.2) = s.surface.hide c.instant)

theorem dispatch_of_quiet (h : ∀ effect ∈ (s.world.model.update msg c.now).2, effect.ofWindow = false) :
    s.dispatch msg c =
      ({ s with world := s.world.feed msg c.now, showRequestedAt := none }, []) := by
  unfold dispatch
  dsimp only
  rw [runEffects_of_quiet _ _ _ h]
  rfl

theorem dispatch_of_hide (h : s.world.model.update msg c.now = s.world.model.hide) :
    s.dispatch msg c =
      ({ s with
          world := s.world.feed msg c.now
          surface := (s.surface.hide c.instant).1
          showRequestedAt := none },
        (s.surface.hide c.instant).2) := by
  have heffects : s.world.model.hide.2 = [.hideWindow] := rfl
  unfold dispatch World.feed
  simp only [h, heffects, runEffects, runEffect, spawn, List.append_nil, List.map_cons, List.map_nil]

theorem dispatch_of_show (hhidden : s.world.model.view.visible = false)
    (hmsg : msg = .show ∨ msg = .toggle) : Dispatched s msg c (s.dispatch msg c) := by
  have hquiet : ∀ effect ∈
      (if s.world.model.refreshesOnShow c.now then s.world.model.requestRefresh.2 else []),
      effect.ofWindow = false := by
    intro effect hmem
    split at hmem
    next => rw [Model.mem_requestRefresh _ hmem]; rfl
    next => simp at hmem
  have hupdate : s.world.model.update msg c.now = s.world.model.show c.now :=
    Model.update_of_shows hhidden hmsg c.now
  cases hrecent : s.surface.recentlyHidden c.instant with
  | false =>
      refine .shown hhidden hrecent hmsg ?_ ?_ ?_ <;>
        simp [dispatch, World.feed, hupdate, Model.show_of_hidden hhidden, runEffects, runEffect,
          hrecent, hmsg, runEffects_of_quiet _ _ _ hquiet, join, spawn]
  | true =>
      have hview : { s.world.model.view with visible := false } = s.world.model.view := by
        rw [← hhidden]
      have hrefresh : s.world.model.update .refreshRequested c.now = s.world.model.requestRefresh := rfl
      have hdispatch : s.dispatch msg c =
          ({ s with world := s.refuse c, showRequestedAt := none }, []) := by
        simp only [dispatch, hupdate, Model.show_of_hidden hhidden, runEffects, runEffect, hrecent,
          runEffects_of_quiet _ _ _ hquiet, join, refuse, World.feed, hrefresh, if_true, hview,
          List.append_nil]
        by_cases hrefreshes : s.world.model.refreshesOnShow c.now = true
        · simp [hrefreshes, Model.requestRefresh_fst]
        · simp [hrefreshes]
      rw [hdispatch]
      refine .refused hhidden hrecent hmsg rfl rfl ?_ rfl
      dsimp only [refuse]
      split
      · simp [World.feed, hrefresh, Model.requestRefresh_fst, hhidden]
      · exact hhidden

/-- **What handling a message comes to.** -/
theorem dispatch_cases (s : App) (msg : Msg) (c : Clock) : Dispatched s msg c (s.dispatch msg c) := by
  cases s.world.model.update_windowMove msg c.now with
  | keep hvisible _ heffects _ =>
      rw [dispatch_of_quiet fun effect hmem => Effect.ofWindow_of_concernsWindow (heffects effect hmem)]
      exact .quiet rfl rfl hvisible rfl
  | «show» hbefore hmsg _ _ _ _ => exact dispatch_of_show hbefore hmsg
  | hide h =>
      rw [dispatch_of_hide h]
      refine .hidden rfl ?_ rfl
      simp [World.feed, h, Model.hide, Model.recomputeResults]
  | copy value secret hvisible _ heffects _ =>
      rw [dispatch_of_quiet (by simp [heffects, Effect.ofWindow])]
      exact .quiet rfl rfl hvisible rfl

/-- Only a request to show can be refused. -/
theorem dispatch_world (s : App) (c : Clock) (hmsg : ¬ (msg = .show ∨ msg = .toggle)) :
    (s.dispatch msg c).1.world = s.world.feed msg c.now := by
  cases dispatch_cases s msg c with
  | quiet hworld | hidden hworld => exact hworld
  | shown _ _ hshow | refused _ _ hshow => exact absurd hshow hmsg

theorem update_key_world {press : KeyPress} (hpress : s.keyMsg press = some msg)
    (hmsg : ¬ (msg = .show ∨ msg = .toggle)) (c : Clock) :
    (s.update (.key press) c).1.world = s.world.feed msg c.now := by
  simp only [update, onKey, hpress]
  split <;> exact dispatch_world s c hmsg

/-- The key pressed once at each of these readings, nothing else happening in between. -/
def pressAll (s : App) (press : KeyPress) (clocks : List Clock) : App :=
  clocks.foldl (fun s c => (s.update (.key press) c).1) s

theorem dispatch_lastPress (s : App) (msg : Msg) (c : Clock) :
    (s.dispatch msg c).1.lastPress = s.lastPress :=
  runEffects_lastPress _ _ _ _

end Shell

end App

end CosmicPass
