import CosmicPass.Proof.ShellRuns
import CosmicPass.View.Status

/-!
# The session panel is no dead end

The panel takes the place of the list, so what it says has to lead somewhere: either an answer is
under way that will replace it, or one of its buttons asks for one. Each such button names a chord;
the key map does the same for it as the button does, unless the chord is taken by a fixed key of the
list or by another action.
-/

namespace CosmicPass

/-- Asks how the session is. -/
def Effect.settles (effect : Effect) : Prop := effect = .startLogin ∨ effect = .probeSession

namespace World

/-- An answer that settles the session is under way. -/
def Settling (w : World) : Prop := ∃ id effect, effect.settles ∧ w.Unanswered id effect

section Runs

variable [TextSupport] {w : World} {guard : World → Event → Prop}

omit [TextSupport] in
theorem settling_of_session (hbooks : w.SessionBooks)
    (hsession : w.model.session = .checking ∨ w.model.session = .loggingIn) : w.Settling := by
  rcases hsession with hchecking | hlogging
  · obtain ⟨id, hopen⟩ := hbooks.checking hchecking
    exact ⟨id, .probeSession, Or.inr rfl, hopen⟩
  · obtain ⟨id, hopen⟩ := hbooks.loggingIn hlogging
    exact ⟨id, .startLogin, Or.inl rfl, hopen⟩

/-- The reducer's state after a message of the user, in a run that goes on with it. -/
theorem sessionBooks_feed (h : system.Reach guard w) {msg : Msg} (huser : msg.isAnswer = false)
    (now : Int) : (w.feed msg now).SessionBooks := by
  have hany : system.Reach TransitionSystem.anyStep w := h.mono fun _ _ _ => trivial
  have hstep : w.step (.send msg now) = some (w.feed msg now) := by simp [step, huser]
  exact sessionBooks_of_reach (.next hany trivial (e := .send msg now) hstep)

end Runs

end World

namespace Model

variable [TextSupport] {m : Model}

theorem update_startLogin_session (h : m.canStartLogin = true) (now : Int) :
    (m.update .startLogin now).1.session = .loggingIn := by
  simp [update, startLogin, h]

theorem update_startup_session (h : m.offersRetry = true) (now : Int) :
    (m.update .startup now).1.session = .checking := by
  simp only [update, startup]
  unfold offersRetry at h
  split <;> simp_all

theorem buttons_of_panel {p : Panel} (h : m.panel = some p) : p.buttons = m.panelButtons := by
  obtain ⟨text, -, rfl⟩ := Option.map_eq_some_iff.mp h
  rfl

theorem list_of_shownPanel {p : Panel} (h : m.shownPanel = some p) :
    m.view.mode = .list ∧ m.panel = some p := by
  unfold shownPanel at h
  cases hmode : m.view.mode <;> simp_all [pane]

/-- The buttons that do more than open a page. -/
theorem mem_panelButtons {button : PanelButton} {msg : Msg} (hmem : button ∈ m.panelButtons)
    (hmsg : button.message = .core msg) :
    (msg = .startLogin ∧ m.canStartLogin = true ∧
        button.label = "Sign in" ++ " (" ++ (m.prefs.chord .signIn).toText ++ ")") ∨
      (msg = .startup ∧ m.offersRetry = true ∧
        button.label = "Try again" ++ " (" ++ (m.prefs.chord .retry).toText ++ ")") := by
  simp only [panelButtons, List.mem_append, Option.mem_toList, Option.map_eq_some_iff,
    List.mem_ite_nil_right, List.mem_singleton] at hmem
  rcases hmem with ((⟨url, -, rfl⟩ | ⟨-, rfl⟩) | ⟨hoffered, rfl⟩) | ⟨hoffered, rfl⟩
  · simp at hmsg
  · simp at hmsg
  · exact Or.inl ⟨(Message.core.inj hmsg).symm, hoffered, rfl⟩
  · exact Or.inr ⟨(Message.core.inj hmsg).symm, hoffered, rfl⟩

/-- A panel is shown of a session in question, or offers a button about it. -/
theorem panel_cases {p : Panel} (h : m.panel = some p) :
    (m.session = .checking ∨ m.session = .loggingIn) ∨
      ∃ button ∈ p.buttons, ∃ msg, button.message = .core msg := by
  obtain ⟨⟨icon, title, detail⟩, htext, rfl⟩ := Option.map_eq_some_iff.mp h
  by_cases hlogin : m.canStartLogin = true
  · refine Or.inr ⟨⟨"Sign in (" ++ (m.prefs.chord .signIn).toText ++ ")", .core .startLogin⟩, ?_,
      .startLogin, rfl⟩
    simp [panelButtons, hlogin]
  · by_cases hretry : m.offersRetry = true
    · refine Or.inr ⟨⟨"Try again (" ++ (m.prefs.chord .retry).toText ++ ")", .core .startup⟩, ?_,
        .startup, rfl⟩
      simp [panelButtons, hretry]
    · refine Or.inl ?_
      unfold panelText at htext
      unfold canStartLogin at hlogin
      unfold offersRetry at hretry
      cases hsession : m.session <;> simp_all

end Model

/-! ### The chords the buttons name -/

namespace KeyPress

/-- Looked at before the shortcuts, in the list. -/
def fixedInList (press : KeyPress) (ctx : KeyContext) : Bool :=
  press.is [] "ArrowDown" || press.is [.ctrl] "n" || press.is [.ctrl] "j" ||
    (press.is [] "ArrowUp" || press.is [.ctrl] "p" || press.is [.ctrl] "k") ||
    press.is [] "PageDown" || press.is [] "PageUp" || press.is [] "Escape" ||
    (ctx.caretAtEnd && press.is [] "ArrowRight")

end KeyPress

/-- The message of a panel button's shortcut. -/
def Action.panelMsg? : Action → Option Msg
  | .signIn => some .startLogin
  | .retry => some .startup
  | _ => none

theorem ite_eq_some_iff_of_ne {c : Prop} [Decidable c] {fixed msg : Msg} {rest : Option Msg}
    (hne : fixed ≠ msg) : (if c then some fixed else rest) = some msg ↔ ¬ c ∧ rest = some msg := by
  split
  next h => simp [h, hne]
  next h => simp [h]

/-- In the list a shortcut of a panel button does its work, unless a fixed key or another action
takes the press. -/
theorem mapKey_panelMsg_iff {action : Action} {msg : Msg} (hmsg : action.panelMsg? = some msg)
    (press : KeyPress) (prefs : Preferences) (ctx : KeyContext) :
    mapKey press .list prefs ctx = some msg ↔
      press.fixedInList ctx = false ∧ prefs.actionFor press.modifiers press.key = some action := by
  have hkept : msg = .startLogin ∧ action = .signIn ∨ msg = .startup ∧ action = .retry := by
    cases action <;> simp_all [Action.panelMsg?]
  -- None of the fixed keys sends what a panel button does.
  have hfixed : ∀ fixed ∈ [Msg.selectNext, .selectPrev, .pageDown, .pageUp, .escape, .openActions],
      fixed ≠ msg := by
    rcases hkept with ⟨rfl, -⟩ | ⟨rfl, -⟩ <;> simp
  simp only [List.forall_mem_cons] at hfixed
  obtain ⟨hnext, hprev, hdown, hup, hescape, hactions, -⟩ := hfixed
  simp only [mapKey, true_and, Bool.false_and, Bool.false_eq_true, if_false, if_true,
    ite_eq_some_iff_of_ne hnext, ite_eq_some_iff_of_ne hprev, ite_eq_some_iff_of_ne hdown,
    ite_eq_some_iff_of_ne hup, ite_eq_some_iff_of_ne hescape, ite_eq_some_iff_of_ne hactions]
  rcases hkept with ⟨rfl, rfl⟩ | ⟨rfl, rfl⟩ <;>
    cases prefs.actionFor press.modifiers press.key with
    | none => simp [KeyPress.fixedInList]
    | some found => cases found <;> simp [KeyPress.fixedInList, and_assoc]

namespace App

variable [TextSupport] {s : App}

/-- **The chord on a button.** A button of the shown panel that opens no page names the chord of an
action, and the presses that do its work are exactly those of this action that no fixed key of the
list takes; such a press does what a click on the button does. -/
theorem panel_chord_iff {p : Panel} (hpanel : s.world.model.shownPanel = some p) {button : PanelButton}
    (hmem : button ∈ p.buttons) {msg : Msg} (hmsg : button.message = .core msg) :
    ∃ action text, button.label = text ++ " (" ++ (s.world.model.prefs.chord action).toText ++ ")" ∧
      ∀ press, (s.keyMsg press = some msg ↔
          press.fixedInList { caretAtEnd := s.world.model.view.query.isEmpty } = false ∧
            s.world.model.prefs.actionFor press.modifiers press.key = some action) ∧
        (s.keyMsg press = some msg → ∀ c, s.update (.key press) c = s.update button.message c) := by
  obtain ⟨hmode, hshown⟩ := Model.list_of_shownPanel hpanel
  have hbutton := Model.mem_panelButtons (Model.buttons_of_panel hshown ▸ hmem) hmsg
  have hnamed : ∃ action : Action, action.panelMsg? = some msg ∧
      ∃ text, button.label = text ++ " (" ++ (s.world.model.prefs.chord action).toText ++ ")" := by
    rcases hbutton with ⟨rfl, -, hlabel⟩ | ⟨rfl, -, hlabel⟩
    · exact ⟨.signIn, rfl, "Sign in", hlabel⟩
    · exact ⟨.retry, rfl, "Try again", hlabel⟩
  obtain ⟨action, haction, text, hlabel⟩ := hnamed
  refine ⟨action, text, hlabel, fun press => ⟨?_, fun hpress c => ?_⟩⟩
  · simp only [keyMsg, hmode]
    exact mapKey_panelMsg_iff haction press _ _
  · have hstill : scrolls msg = false := by rcases hbutton with ⟨rfl, -⟩ | ⟨rfl, -⟩ <;> rfl
    simp [update, onKey, hpress, hstill, hmsg]

end App

namespace Shell

section Runs

variable [TextSupport] {s : Shell}

/-- **No dead end.** Whenever the popup shows the session panel, an answer that settles the session
is under way or the panel has a button that asks for one; and each of its buttons that opens no page
does so: pressed, it leaves the session checked or signed in to, with the answer under way. -/
theorem panel_leads_on {guard : Shell → AppEvent × Clock → Prop} (h : system.Reach guard s) {p : Panel}
    (hpanel : s.app.world.model.shownPanel = some p) :
    (s.app.world.Settling ∨ ∃ button ∈ p.buttons, ∃ msg, button.message = .core msg) ∧
      ∀ button ∈ p.buttons, ∀ msg, button.message = .core msg → ∀ c,
        (s.app.update button.message c).1.world.Settling ∧
          ((s.app.update button.message c).1.world.model.session = .checking ∨
            (s.app.update button.message c).1.world.model.session = .loggingIn) := by
  have hworld := world_reach h
  obtain ⟨-, hshown⟩ := Model.list_of_shownPanel hpanel
  refine ⟨?_, fun button hmem msg hmsg c => ?_⟩
  · rcases Model.panel_cases hshown with hsession | hbutton
    · exact Or.inl (World.settling_of_session (World.sessionBooks_of_reach hworld) hsession)
    · exact Or.inr hbutton
  · have hcase := Model.mem_panelButtons (Model.buttons_of_panel hshown ▸ hmem) hmsg
    have hfed : (s.app.update button.message c).1.world = s.app.world.feed msg c.now := by
      rw [hmsg]
      exact App.dispatch_world s.app c (by rcases hcase with ⟨rfl, -⟩ | ⟨rfl, -⟩ <;> simp)
    have huser : msg.isAnswer = false := by rcases hcase with ⟨rfl, -⟩ | ⟨rfl, -⟩ <;> rfl
    have hsession : (s.app.world.feed msg c.now).model.session = .checking ∨
        (s.app.world.feed msg c.now).model.session = .loggingIn := by
      rcases hcase with ⟨rfl, hoffered, -⟩ | ⟨rfl, hoffered, -⟩
      · exact Or.inr (Model.update_startLogin_session hoffered c.now)
      · exact Or.inl (Model.update_startup_session hoffered c.now)
    rw [hfed]
    exact ⟨World.settling_of_session (World.sessionBooks_feed hworld huser c.now) hsession, hsession⟩

end Runs

section Examples

attribute [local instance] World.plainText

/-- Shown at the start, the probe answers that nobody is signed in. -/
def foundSignedOut : List (AppEvent × Clock) :=
  [(.resolve 2 (.account (.error .signedOut)), ⟨1, 0⟩), (.deliver 2, ⟨2, 0⟩)]

def signInButton : PanelButton := { label := "Sign in (Ctrl+Shift+s)", message := .core .startLogin }

theorem panel_leads_on_signed_out : ∃ s : Shell,
    ((s.app.update signInButton.message ⟨3, 0⟩).1.world.model.session = .checking ∨
      (s.app.update signInButton.message ⟨3, 0⟩).1.world.model.session = .loggingIn) := by
  have hrun : ∃ s : Shell, system.Reach TransitionSystem.anyStep s ∧
      s.app.world.model.shownPanel.any fun p => signInButton ∈ p.buttons := by
    refine TransitionSystem.exists_reach_of_run shownAtStart foundSignedOut ⟨_, _, _, _, _, rfl⟩ ?_
    decide
  obtain ⟨s, hreach, hany⟩ := hrun
  obtain ⟨p, hpanel, hbutton⟩ := (Option.any_eq_true _ _).mp hany
  exact ⟨s, ((panel_leads_on hreach hpanel).2 _ (of_decide_eq_true hbutton) _ rfl ⟨3, 0⟩).2⟩

theorem panel_chord_signs_in : ∃ (s : Shell) (action : Action) (text : String),
    signInButton.label = text ++ " (" ++ (s.app.world.model.prefs.chord action).toText ++ ")" ∧
      s.app.update (.key { key := "S", modifiers := [.shift, .ctrl] }) ⟨3, 0⟩ =
        s.app.update signInButton.message ⟨3, 0⟩ := by
  have hrun : ∃ s : Shell, system.Reach TransitionSystem.anyStep s ∧
      (s.app.world.model.shownPanel.any fun p => signInButton ∈ p.buttons) ∧
      s.app.keyMsg { key := "S", modifiers := [.shift, .ctrl] } = some .startLogin := by
    refine TransitionSystem.exists_reach_of_run shownAtStart foundSignedOut ⟨_, _, _, _, _, rfl⟩ ?_
    decide
  obtain ⟨s, -, hany, hpress⟩ := hrun
  obtain ⟨p, hpanel, hbutton⟩ := (Option.any_eq_true _ _).mp hany
  obtain ⟨action, text, hlabel, hchord⟩ :=
    App.panel_chord_iff hpanel (of_decide_eq_true hbutton) rfl
  exact ⟨s, action, text, hlabel, (hchord _).2 hpress ⟨3, 0⟩⟩

end Examples

end Shell

end CosmicPass
