import CosmicPass.Proof.Hidden
import CosmicPass.Proof.LoginLink
import CosmicPass.Proof.OnScreen
import CosmicPass.Proof.RevealBooks

/-!
# Runs of the shell are runs of the reducer among its effects

Whatever happens to the shell comes down to messages handled by `World`, in an order `World` allows:
a request to show that is refused to a request for a refresh, or to nothing. The shell also keeps
the promises the reducer relies on. The field list is only entered from the list of items, because
the key map says so; the popup sends nothing while the reducer takes it for hidden, because the
surface is not there then; and output of a sign-in comes from one that has not ended.
-/

namespace CosmicPass

theorem forall_mem_ite {p : Prop} [Decidable p] {P : Msg → Prop} {first second : Option Msg}
    (hfirst : ∀ msg ∈ first, P msg) (hsecond : ∀ msg ∈ second, P msg) :
    ∀ msg ∈ (if p then first else second), P msg := by
  split
  · exact hfirst
  · exact hsecond

/-- The message may be sent in this mode: it answers nothing, is no output, and opens the field list
from the list of items. -/
def Msg.sentIn (msg : Msg) (mode : Mode) : Prop :=
  msg.isAnswer = false ∧ msg.isLine = false ∧ (msg = .openActions → mode = .list)

theorem preferencesKey_sentIn (press : KeyPress) (rebinding : Option Action) (prefs : Preferences)
    (mode : Mode) : ∀ msg ∈ preferencesKey press rebinding prefs, msg.sentIn mode := by
  unfold preferencesKey
  repeat' apply forall_mem_ite
  all_goals simp [Msg.sentIn, Msg.isAnswer, Msg.isLine]

theorem mapKey_sentIn (press : KeyPress) (mode : Mode) (prefs : Preferences) (ctx : KeyContext) :
    ∀ msg ∈ mapKey press mode prefs ctx, msg.sentIn mode := by
  unfold mapKey
  cases mode with
  | preferences rebinding => exact preferencesKey_sentIn press rebinding prefs _
  | list =>
      dsimp only
      repeat' apply forall_mem_ite
      all_goals try (simp [Msg.sentIn, Msg.isAnswer, Msg.isLine]; done)
      cases prefs.actionFor press.modifiers press.key with
      | none => simp
      | some action => cases action <;> simp [Msg.sentIn, Msg.isAnswer, Msg.isLine]
  | actions key selected =>
      simp only [reduceCtorEq, false_and, if_false]
      repeat' apply forall_mem_ite
      all_goals try (simp [Msg.sentIn, Msg.isAnswer, Msg.isLine]; done)
      cases prefs.actionFor press.modifiers press.key with
      | none => simp
      | some action => cases action <;> simp [Msg.sentIn, Msg.isAnswer, Msg.isLine]

theorem Msg.ofWidget_sends {msg : Msg} (h : msg.ofWidget = true) :
    msg.isAnswer = false ∧ msg.isLine = false ∧ msg ≠ .openActions := by
  cases msg <;> simp_all [Msg.ofWidget, Msg.isAnswer, Msg.isLine]

namespace World

/-- What the reducer relies on: the field list is entered from the list of items, the popup sends
nothing while the window is hidden, and output comes from a sign-in under way. -/
def kept (w : World) (e : Event) : Prop := fromList w e ∧ whileVisible w e ∧ whileLogging w e

/-- The same, where the popup is promised to send nothing then. -/
def keptIf (promised : Prop) (w : World) (e : Event) : Prop :=
  fromList w e ∧ (promised → whileVisible w e) ∧ whileLogging w e

theorem keptIf_true (w : World) (e : Event) (h : w.keptIf True e) : w.kept e :=
  ⟨h.1, h.2.1 trivial, h.2.2⟩

variable {promised : Prop} {w : World} {msg : Msg} {now : Int}

theorem keptIf_of_sentIn (hsent : msg.sentIn w.model.view.mode)
    (hvisible : promised → msg.fromWindow = true → w.model.view.visible = true) :
    w.keptIf promised (.send msg now) := by
  refine ⟨?_, fun hpromised => ?_, whileLogging_of_not_isLine hsent.2.1⟩
  · cases msg with
    | openActions => simpa [fromList] using hsent.2.2 rfl
    | _ => rfl
  · cases hfrom : msg.fromWindow with
    | false => simp [whileVisible, hfrom]
    | true => simp [whileVisible, hvisible hpromised hfrom]

/-- Not from the popup. -/
theorem keptIf_of_not_fromWindow (hfrom : msg.fromWindow = false)
    (hlogging : w.whileLogging (.send msg now)) : w.keptIf promised (.send msg now) := by
  refine ⟨?_, fun _ => by simp [whileVisible, hfrom], hlogging⟩
  cases msg with
  | openActions => simp [Msg.fromWindow] at hfrom
  | _ => rfl

end World

namespace App

section Shell

variable [TextSupport] {promised : Prop} {s : App} {c : Clock}

omit [TextSupport] in
theorem unanswered_of_logsIn {w : World} {id : Nat} (h : logsIn w id = true) :
    w.Unanswered id .startLogin := by
  simp only [logsIn, decide_eq_true_eq] at h
  obtain ⟨flight, hflight, heffect⟩ := (Option.any_eq_true _ _).mp h.1
  exact ⟨⟨flight, hflight, of_decide_eq_true heffect⟩, fun msg hmem => h.2 _ hmem rfl⟩

theorem refuse_reach (s : App) (c : Clock) :
    (World.system.startingAt s.world).Reach (World.keptIf promised) (s.refuse c) := by
  unfold refuse
  split
  · exact .single (World.keptIf_of_not_fromWindow rfl trivial) (e := .send .refreshRequested c.now) rfl
  · exact .start rfl

/-- **A message handled by the shell is a message handled by the reducer.** -/
theorem dispatch_reach (s : App) (msg : Msg) (c : Clock) (hanswer : msg.isAnswer = false)
    (hkept : s.world.keptIf promised (.send msg c.now)) :
    (World.system.startingAt s.world).Reach (World.keptIf promised) (s.dispatch msg c).1.world := by
  have hfeed : (World.system.startingAt s.world).Reach (World.keptIf promised)
      (s.world.feed msg c.now) :=
    .single hkept (by simp [World.system, World.step, hanswer])
  cases dispatch_cases s msg c with
  | quiet hworld | shown _ _ _ hworld | hidden hworld => exact hworld ▸ hfeed
  | refused _ _ _ hworld => exact hworld ▸ refuse_reach s c

theorem feed_select_visible (s : App) (row : Nat) (now : Int) :
    (s.world.feed (.select row) now).model.view.visible = s.world.model.view.visible := by
  simp only [World.feed, Model.update]
  split <;> rfl

theorem onKey_reach (hvisible : promised → s.world.model.view.visible = true) (press : KeyPress)
    (c : Clock) :
    (World.system.startingAt s.world).Reach (World.keptIf promised) (s.onKey press c).1.world := by
  unfold onKey
  split
  next => exact .start rfl
  next msg hmsg =>
    have hsent : msg.sentIn s.world.model.view.mode := mapKey_sentIn _ _ _ _ msg hmsg
    have hreach := dispatch_reach s msg c hsent.1
      (World.keptIf_of_sentIn hsent fun hpromised _ => hvisible hpromised)
    dsimp only
    split <;> exact hreach

theorem rowPressed_reach (hvisible : promised → s.world.model.view.visible = true) (row : Nat)
    (c : Clock) :
    (World.system.startingAt s.world).Reach (World.keptIf promised) (s.rowPressed row c).1.world := by
  have hselect := dispatch_reach { s with lastPress := some (row, c.instant) } (.select row) c rfl
    (World.keptIf_of_sentIn ⟨rfl, rfl, by simp⟩ fun hpromised _ => hvisible hpromised)
  unfold rowPressed
  dsimp only
  split
  next =>
    refine hselect.trans (dispatch_reach
      { ({ s with lastPress := some (row, c.instant) }.dispatch (.select row) c).1 with
        lastPress := none } .copyPrimary c rfl ?_)
    refine World.keptIf_of_sentIn ⟨rfl, rfl, by simp⟩ fun hpromised _ => ?_
    dsimp only
    rw [dispatch_world _ c (by simp)]
    exact (feed_select_visible s row c.now).trans (hvisible hpromised)
  next => exact hselect

theorem update_reach (hvisible : promised → s.world.model.view.visible = true) {message : Message}
    (hpopup : message.ofPopup = true) (c : Clock) :
    (World.system.startingAt s.world).Reach (World.keptIf promised) (s.update message c).1.world := by
  cases message with
  | core msg =>
      obtain ⟨hanswer, hline, hactions⟩ := Msg.ofWidget_sends hpopup
      exact dispatch_reach s msg c hanswer
        (World.keptIf_of_sentIn ⟨hanswer, hline, fun h => absurd h hactions⟩
          fun hpromised _ => hvisible hpromised)
  | key press => exact onKey_reach hvisible press c
  | layer event id => simp [Message.ofPopup] at hpopup
  | submit | nothing => exact .start rfl
  | rowPressed row => exact rowPressed_reach hvisible row c
  | openUrl url => exact dispatch_reach s .hide c rfl (World.keptIf_of_not_fromWindow rfl trivial)

/-- What the window manager reports hides the window, at most. -/
theorem layer_reach (s : App) (event : LayerEvent) (id : WindowId) (c : Clock) :
    (World.system.startingAt s.world).Reach (World.keptIf promised)
      (s.update (.layer event id) c).1.world := by
  cases event with
  | focused =>
      simp only [update]
      split <;> exact .start rfl
  | unfocused =>
      simp only [update]
      split
      · exact dispatch_reach s .hide c rfl (World.keptIf_of_not_fromWindow rfl trivial)
      · exact .start rfl
  | done => exact .start rfl

theorem dbusActivation_reach (s : App) (details : Details) (c : Clock) :
    (World.system.startingAt s.world).Reach (World.keptIf promised)
      (s.dbusActivation details c).1.world := by
  cases details with
  | activate =>
      simp only [dbusActivation]
      split
      · exact .start rfl
      · exact dispatch_reach s .toggle c rfl (World.keptIf_of_not_fromWindow rfl trivial)
  | activateAction action =>
      simp only [dbusActivation]
      split
      · exact dispatch_reach s .show c rfl (World.keptIf_of_not_fromWindow rfl trivial)
      · exact dispatch_reach s .hide c rfl (World.keptIf_of_not_fromWindow rfl trivial)
      · exact dispatch_reach s .refreshRequested c rfl (World.keptIf_of_not_fromWindow rfl trivial)
      · exact .start rfl
      · exact .start rfl
  | «open» => exact .start rfl

/-- An answer shows nothing, so nothing is refused. -/
theorem deliver_reach {guard : World → Event → Prop} (hworld : World.system.Reach guard s.world)
    {id : Nat} {out : App × List AppTask} (h : s.deliver id c = some out) :
    (World.system.startingAt s.world).Reach (World.keptIf promised) out.1.world := by
  have hconsistent := World.consistent_of_reach hworld
  unfold deliver at h
  split at h
  next => simp at h
  next found msg hfound =>
    split at h
    next => simp at h
    next hopen =>
      obtain rfl := Option.some.inj h
      have hfed : (s.dispatch msg c).1.world = s.world.feed msg c.now := by
        obtain ⟨flight, reply, -, hexecute, -⟩ :=
          hconsistent.resolved _ _ (List.mem_of_find?_eq_some hfound)
        have hanswer := isAnswer_of_execute hexecute
        apply dispatch_world
        rintro (rfl | rfl) <;> simp [Msg.isAnswer] at hanswer
      have hstep : s.world.step (.deliver id c.now) =
          some { s.world.feed msg c.now with answered := (id, msg) :: s.world.answered } := by
        simp only [World.step, hfound]
        rw [if_neg hopen]
      have hanswered : s.world.answered = (s.dispatch msg c).1.world.answered := by
        rw [hfed]
        rfl
      rw [hanswered, ← hfed] at hstep
      exact .single (e := .deliver id c.now) ⟨rfl, fun _ => rfl, trivial⟩ hstep

/-- **What happens to the shell is a run of the reducer among its effects.** -/
theorem step_reach {guard : World → Event → Prop} (hworld : World.system.Reach guard s.world)
    {e : AppEvent}
    (hvisible : promised → ∀ message, e = .popup message → s.world.model.view.visible = true)
    {out : App × List AppTask} (h : s.step c e = some out) :
    (World.system.startingAt s.world).Reach (World.keptIf promised) out.1.world := by
  cases e with
  | popup message =>
      simp only [step, Option.ite_none_right_eq_some, Option.some.injEq] at h
      obtain ⟨hpopup, rfl⟩ := h
      exact update_reach (fun hpromised => hvisible hpromised message rfl) hpopup c
  | layer event id =>
      obtain rfl := Option.some.inj h
      exact layer_reach s event id c
  | dbus details =>
      obtain rfl := Option.some.inj h
      exact dbusActivation_reach s details c
  | tick =>
      simp only [step, Option.ite_none_right_eq_some, Option.some.injEq] at h
      obtain ⟨-, rfl⟩ := h
      exact dispatch_reach s (.tick c.now) c rfl (World.keptIf_of_not_fromWindow rfl trivial)
  | loginLine id line =>
      simp only [step, Option.ite_none_right_eq_some, Option.some.injEq] at h
      obtain ⟨hlogs, rfl⟩ := h
      exact dispatch_reach s (.loginLine line) c rfl
        (World.keptIf_of_not_fromWindow rfl ⟨id, unanswered_of_logsIn hlogs⟩)
  | prefsChanged prefs =>
      obtain rfl := Option.some.inj h
      exact dispatch_reach s (.prefsLoaded prefs) c rfl (World.keptIf_of_not_fromWindow rfl trivial)
  | resolve id reply =>
      obtain ⟨world, hresolved, rfl⟩ := Option.map_eq_some_iff.mp h
      exact .single (e := .resolve id reply) ⟨rfl, fun _ => rfl, trivial⟩ hresolved
  | deliver id => exact deliver_reach hworld h
  | switchAccount account =>
      obtain rfl := Option.some.inj h
      exact .single (e := .switchAccount account) ⟨rfl, fun _ => rfl, trivial⟩ rfl

theorem init_reach (stored : Preferences) (account : Option AccountId) (id : WindowId)
    (action : Option RemoteAction) (c : Clock) :
    World.system.Reach (World.keptIf promised) (init stored account id action c).1.world := by
  have hstart : World.system.Reach (World.keptIf promised) (new stored account id).world :=
    .start ⟨_, _, rfl⟩
  have hstartup := hstart.append
    (dispatch_reach (new stored account id) .startup c rfl (World.keptIf_of_not_fromWindow rfl trivial))
  unfold init
  dsimp only
  split
  · exact hstartup
  · exact hstartup.append
      (dispatch_reach _ .show c rfl (World.keptIf_of_not_fromWindow rfl trivial))

end Shell

end App

namespace Shell

/-- The popup's widgets and keys only send while the surface is there. -/
def whileThere (s : Shell) (e : AppEvent × Clock) : Prop :=
  ∀ message, e.1 = .popup message → s.app.surface.visible = true

instance (s : Shell) (e : AppEvent × Clock) : Decidable (s.whileThere e) :=
  match e with
  | (.popup _, _) => decidable_of_iff (s.app.surface.visible = true) (by simp [whileThere])
  | (.layer _ _, _) | (.dbus _, _) | (.tick, _) | (.prefsChanged _, _) | (.loginLine _ _, _)
  | (.resolve _ _, _) | (.deliver _, _) | (.switchAccount _, _) => isTrue (by simp [whileThere])

section Runs

variable [TextSupport] {s s' : Shell} {guard : Shell → AppEvent × Clock → Prop}

/-- **What one step of the shell does is a run of the reducer among its effects.** -/
theorem world_step {promised : Prop} (hreach : system.Reach guard s) {e : AppEvent × Clock}
    (hthere : promised → s.whileThere e) (hstep : system.step s e = some s')
    (hworld : World.system.Reach (World.keptIf promised) s.app.world) :
    (World.system.startingAt s.app.world).Reach (World.keptIf promised) s'.app.world := by
  simp only [system, step, Option.ite_none_right_eq_some] at hstep
  obtain ⟨-, hstep⟩ := hstep
  obtain ⟨out, hout, rfl⟩ := Option.map_eq_some_iff.mp hstep
  obtain ⟨p, -, hshows⟩ := readLog_of_reach hreach
  refine App.step_reach hworld (fun hpromised message hmessage => ?_) hout
  rw [hshows.model, ← hshows.surface]
  exact hthere hpromised message hmessage

theorem world_reach_if (promised : Prop) (hguard : ∀ s e, guard s e → promised → s.whileThere e)
    (h : system.Reach guard s) : World.system.Reach (World.keptIf promised) s.app.world := by
  refine TransitionSystem.Reach.simulate (fun s : Shell => s.app.world) ?_ ?_ h
  · rintro _ ⟨stored, account, id, action, c, rfl⟩
    exact App.init_reach stored account id action c
  · intro s e s' hreach hworld hok hstep
    exact world_step hreach (hguard s e hok) hstep hworld

/-- Whatever the popup sends, and when. -/
theorem world_reach (h : system.Reach guard s) :
    World.system.Reach TransitionSystem.anyStep s.app.world :=
  (world_reach_if False (fun _ _ _ hfalse => hfalse.elim) h).mono fun _ _ _ => trivial

/-- **What happens to the shell is a run of the reducer among its effects**, from the start to any
state and from there to any later one, and a run that keeps what the reducer relies on: the field
list is entered from the list of items, a hidden window sends nothing, and output comes from a
sign-in under way. -/
theorem reducer_run (h : system.Reach whileThere s)
    (hlater : (system.startingAt s).Reach whileThere s') :
    World.system.Reach World.kept s.app.world ∧
      (World.system.startingAt s.app.world).Reach World.kept s'.app.world := by
  have hworld := world_reach_if True (fun _ _ hthere _ => hthere) h
  refine ⟨hworld.mono World.keptIf_true, ?_⟩
  refine (TransitionSystem.Reach.simulate (fun s : Shell => s.app.world) ?_ ?_ hlater).mono
    World.keptIf_true
  · rintro _ rfl
    exact .start rfl
  · intro mid e next hmid hbetween hthere hstep
    exact world_step (h.append hmid) (fun _ => hthere) hstep (hworld.append hbetween)

end Runs

section Examples

attribute [local instance] World.plainText

/-- Shown at the start. -/
def shownAtStart : Shell := started (App.init .default none 0 none ⟨0, 0⟩) 0

/-- Hidden by a press of Escape, and asked for again too soon. -/
def escapeAndReturn : List (AppEvent × Clock) :=
  [(.popup (.key { key := "Escape", modifiers := [] }), ⟨5, 0⟩), (.dbus .activate, ⟨9, 0⟩)]

theorem reducer_run_refused : ∃ s' : Shell, s'.instant = 9 ∧ s'.app.surface.visible = false ∧
    (World.system.startingAt shownAtStart.app.world).Reach World.kept s'.app.world := by
  have hstart : system.Reach whileThere shownAtStart := .start ⟨_, _, _, _, _, rfl⟩
  have hany : (system.run whileThere shownAtStart escapeAndReturn).any fun s' =>
      s'.instant = 9 ∧ s'.app.surface.visible = false := by decide
  obtain ⟨s', hlater, hinstant, hhidden⟩ := TransitionSystem.exists_later_of_run hany
  exact ⟨s', hinstant, hhidden, (reducer_run hstart hlater).2⟩

end Examples

end Shell

end CosmicPass
