import CosmicPass.Proof.Flights
import CosmicPass.Proof.Parts

/-!
# A hidden window

While the window is hidden its view rests: the list of items, nothing typed, nothing revealed, nothing
awaited. Every way of hiding leaves the view like that, and what arrives while it is hidden lands on
nothing.
-/

namespace CosmicPass

/-- Only the window sends the message: keys, typing, the pointer, the preferences editor. -/
def Msg.fromWindow : Msg → Bool
  | .queryChanged _ | .selectNext | .selectPrev | .pageDown | .pageUp | .select _ | .copyPrimary
  | .escape | .copyUsername | .copyTotp | .copyUrl | .openActions | .activateAction _ | .back
  | .toggleReveal | .openPreferences | .adjustClipboardClear _ | .startRebind _ | .chordCaptured _
  | .resetShortcuts => true
  | _ => false

/-- The message brings plaintext fetched from the vault. -/
def Msg.bringsPlaintext : Msg → Bool
  | .copyFetched _ (.ok _) | .revealFetched _ _ _ (.ok _) | .totpFetched _ (.ok _) => true
  | _ => false

/-- The effect copies a value, or fetches one to copy or to show. -/
def Effect.yieldsValue : Effect → Bool
  | .copy _ _ | .fetchAndCopy _ _ _ _ | .fetchTotpAndCopy _ _ _ | .fetchReveal _ _ _ _ _
  | .fetchTotp _ _ => true
  | _ => false

/-- The view holds nothing and waits for nothing. -/
structure ViewState.Resting (view : ViewState) : Prop where
  mode : view.mode = .list
  query : view.query = ""
  revealed : view.revealed = .nothing
  revealCancel : view.revealCancel = none
  revealTotpCancel : view.revealTotpCancel = none
  pending : view.pending = none
  copying : view.copying = false

namespace Model

variable (m : Model)

def YieldsNothing (effects : List Effect) : Prop := ∀ effect ∈ effects, effect.yieldsValue = false

theorem yieldsNothing_of_parts {effects : List Effect}
    (hcopy : ∀ effect ∈ effects, effect.part ≠ some .copy)
    (hreveal : ∀ effect ∈ effects, effect.part ≠ some .reveal) : YieldsNothing effects := by
  intro effect hmem
  have hnotCopy := hcopy effect hmem
  have hnotReveal := hreveal effect hmem
  cases effect <;> simp [Effect.part, Effect.yieldsValue] at hnotCopy hnotReveal ⊢

theorem show_resting (hresting : m.view.Resting) (now : Int) : (m.show now).1.view.Resting := by
  rw [show_fst]
  exact ⟨hresting.mode, hresting.query, hresting.revealed, hresting.revealCancel,
    hresting.revealTotpCancel, hresting.pending, hresting.copying⟩

theorem show_yieldsNothing (now : Int) : YieldsNothing (m.show now).2 := by
  apply yieldsNothing_of_parts
  · exact (m.show_untouched (by simp [Msg.touches]) now).effects
  · exact (m.show_untouched (by simp [Msg.touches]) now).effects

theorem resting_of_untouched {r : Model × List Effect} (hresting : m.view.Resting)
    (hcopy : Untouched .copy m r) (hreveal : Untouched .reveal m r) (hwindow : Untouched .window m r) :
    r.1.view.Resting ∧ YieldsNothing r.2 := by
  obtain ⟨hpending, hcopying⟩ := hcopy.same
  obtain ⟨hmode, hrevealed, hrevealCancel, htotp, -⟩ := hreveal.same
  refine ⟨⟨hmode.trans hresting.mode, hwindow.same.2.trans hresting.query,
    hrevealed.trans hresting.revealed, hrevealCancel.trans hresting.revealCancel,
    htotp.trans hresting.revealTotpCancel, hpending.trans hresting.pending,
    hcopying.trans hresting.copying⟩, yieldsNothing_of_parts hcopy.effects hreveal.effects⟩

section Methods

variable [TextSupport]

theorem hide_resting : m.hide.1.view.Resting := by
  refine ⟨?_, ?_, ?_, ?_, ?_, ?_, ?_⟩ <;> simp [hide, recomputeResults]

theorem hide_yieldsNothing : YieldsNothing m.hide.2 := by
  simp [hide, YieldsNothing, Effect.yieldsValue]

theorem replaceItems_resting (hresting : m.view.Resting) (listing : Listing) :
    (m.replaceItems listing).view.Resting := by
  obtain ⟨hmode, hquery, hrevealed, hreveal, htotp, hpending, hcopying⟩ := hresting
  refine ⟨?_, ?_, ?_, ?_, ?_, ?_, ?_⟩ <;>
    simp [replaceItems, dropStaleReveal_eq, recomputeResults, *]

theorem clearData_resting (hresting : m.view.Resting) : m.clearData.view.Resting := by
  obtain ⟨hmode, hquery, hrevealed, hreveal, htotp, hpending, hcopying⟩ := hresting
  refine ⟨?_, ?_, ?_, ?_, ?_, ?_, ?_⟩ <;>
    simp [clearData, clearRevealed, dropReveal, cancelReveal, recomputeResults, *]

theorem sessionError_resting (hresting : m.view.Resting) (error : PassError) :
    (m.sessionError error).1.view.Resting := by
  cases error with
  | signedOut => exact clearData_resting { m with session := .signedOut } hresting
  | _ => exact hresting

theorem sessionProbed_resting (hresting : m.view.Resting) (result : Except PassError AccountId) :
    (m.sessionProbed result).1.view.Resting := by
  cases result with
  | ok account =>
      simp only [sessionProbed, signedIn, requestRefresh_fst]
      split
      · exact m.clearData_resting hresting
      · exact hresting
  | error error =>
      have herror := m.sessionError_resting hresting error
      simp only [sessionProbed]
      split <;> exact herror

theorem cacheLoaded_resting (hresting : m.view.Resting) (file : Option CacheFile) :
    (m.cacheLoaded file).1.view.Resting := by
  cases file with
  | none => exact hresting
  | some file =>
      simp only [cacheLoaded]
      split
      · exact hresting
      · split
        · exact hresting
        · apply replaceItems_resting
          exact hresting

theorem copyFetched_of_resting (hresting : m.view.Resting) (key : ItemKey)
    (result : Except PassError SecretString) (now : Int) :
    m.update (.copyFetched key result) now = (m, []) := by
  simp [update, copyFetched, hresting.pending]

theorem revealFetched_of_resting (hresting : m.view.Resting) (key : ItemKey)
    (index generation : Nat) (result : Except PassError SecretString) (now : Int) :
    m.update (.revealFetched key index generation result) now = (m, []) := by
  simp [update, revealFetched, inActions, hresting.mode]

theorem totpFetched_of_resting (hresting : m.view.Resting) (key : ItemKey)
    (result : Except PassError Codes) (now : Int) :
    m.update (.totpFetched key result) now = (m, []) := by
  simp [update, totpFetched, inActions, hresting.mode]

theorem update_bringsPlaintext (hresting : m.view.Resting) {msg : Msg} (now : Int)
    (hmsg : msg.bringsPlaintext = true) : m.update msg now = (m, []) := by
  cases msg with
  | copyFetched key result => exact m.copyFetched_of_resting hresting key result now
  | revealFetched key index generation result =>
      exact m.revealFetched_of_resting hresting key index generation result now
  | totpFetched key result => exact m.totpFetched_of_resting hresting key result now
  | _ => simp [Msg.bringsPlaintext] at hmsg

/-- **What a hidden window makes of a message.** Its view keeps resting, and no value is copied or
asked for. -/
theorem update_resting (hresting : m.view.Resting) (hhidden : m.view.visible = false) {msg : Msg}
    (now : Int) (hmsg : msg.fromWindow = false) :
    (m.update msg now).1.view.Resting ∧ YieldsNothing (m.update msg now).2 := by
  cases msg with
  | toggle =>
      rw [update, if_neg (by simp [hhidden])]
      exact ⟨m.show_resting hresting now, m.show_yieldsNothing now⟩
  | «show» => exact ⟨m.show_resting hresting now, m.show_yieldsNothing now⟩
  | hide => exact ⟨m.hide_resting, m.hide_yieldsNothing⟩
  | dataLoaded listing =>
      refine ⟨?_, by simp [update, dataLoaded, YieldsNothing, Effect.yieldsValue]⟩
      apply replaceItems_resting
      exact hresting
  | cacheLoaded file =>
      refine ⟨m.cacheLoaded_resting hresting file, ?_⟩
      simp only [update, cacheLoaded]
      split
      · simp [YieldsNothing]
      · split
        · simp [YieldsNothing]
        · split <;> simp [YieldsNothing, Effect.yieldsValue]
  | refreshFailed error =>
      refine ⟨?_, fun effect hmem => ?_⟩
      · apply sessionError_resting
        exact hresting
      · rw [mem_sessionError _ hmem]
        rfl
  | sessionProbed result =>
      refine ⟨m.sessionProbed_resting hresting result, fun effect hmem => ?_⟩
      rcases m.mem_sessionProbed hmem with rfl | rfl <;> rfl
  | copyFetched key result =>
      rw [m.copyFetched_of_resting hresting]
      exact ⟨hresting, by simp [YieldsNothing]⟩
  | revealFetched key index generation result =>
      rw [m.revealFetched_of_resting hresting]
      exact ⟨hresting, by simp [YieldsNothing]⟩
  | totpFetched key result =>
      rw [m.totpFetched_of_resting hresting]
      exact ⟨hresting, by simp [YieldsNothing]⟩
  | copyFinished result =>
      cases result with
      | ok done =>
          have hignored : m.update (.copyFinished (.ok done)) now = (m, []) := by
            simp [update, copyFinished, copyConfirmed, hresting.copying]
          rw [hignored]
          exact ⟨hresting, by simp [YieldsNothing]⟩
      | error error =>
          refine ⟨?_, by simp [update, copyFinished, notify, YieldsNothing, Effect.yieldsValue]⟩
          obtain ⟨hmode, hquery, hrevealed, hreveal, htotp, hpending, hcopying⟩ := hresting
          exact ⟨hmode, hquery, hrevealed, hreveal, htotp, hpending, hcopying⟩
  | tick clock =>
      have hignored : m.update (.tick clock) now = (m, []) := by
        simp [update, tick, hresting.revealed, Revealed.totpCode]
      rw [hignored]
      exact ⟨hresting, by simp [YieldsNothing]⟩
  | refreshRequested | noticeExpired | startup | versionProbed | startLogin | loginLine
  | loginFinished | prefsLoaded =>
      exact m.resting_of_untouched hresting (m.update_untouched _ now (by simp [Msg.touches]))
        (m.update_untouched _ now (by simp [Msg.touches]))
        (m.update_untouched _ now (by simp [Msg.touches]))
  | _ => simp [Msg.fromWindow] at hmsg

/-- A message that hides the window does nothing else. -/
theorem update_eq_hide (hvisible : m.view.visible = true) (msg : Msg) (now : Int)
    (hhidden : (m.update msg now).1.view.visible = false) : m.update msg now = m.hide := by
  by_cases htouches : Part.window ∈ msg.touches
  · cases msg with
    | toggle => rw [update, if_pos hvisible]
    | «show» =>
        rw [update, show_fst] at hhidden
        simp at hhidden
    | hide => rfl
    | escape =>
        rw [update] at hhidden ⊢
        unfold escape at hhidden ⊢
        by_cases hpending : m.view.pending.isSome
        · simp [hpending, cancelPending, hvisible] at hhidden
        · rw [if_neg hpending] at hhidden ⊢
          split at hhidden
          · simp [hvisible] at hhidden
          · rfl
          · simp [leaveMode, clearRevealed, dropReveal, cancelReveal, hvisible] at hhidden
    | copyFinished result =>
        cases result with
        | ok done =>
            simp only [update, copyFinished, copyConfirmed] at hhidden ⊢
            by_cases hcopying : m.view.copying
            · rw [if_pos hcopying]
            · simp [hcopying, hvisible] at hhidden
        | error error => simp [update, copyFinished, notify, hvisible] at hhidden
    | queryChanged query => simp [update, recomputeResults, hvisible] at hhidden
    | _ => simp [Msg.touches] at htouches
  · have hsame := (m.update_untouched msg now htouches).same.1
    simp [hsame, hvisible] at hhidden

/-- **Every way of hiding leaves the view resting.** -/
theorem update_hides (hvisible : m.view.visible = true) (msg : Msg) (now : Int)
    (hhidden : (m.update msg now).1.view.visible = false) : (m.update msg now).1.view.Resting := by
  rw [m.update_eq_hide hvisible msg now hhidden]
  exact m.hide_resting

end Methods

end Model

namespace World

/-- The window only sends messages while it is open. -/
def whileVisible (w : World) : Event → Bool
  | .send msg _ => !msg.fromWindow || w.model.view.visible
  | _ => true

def RestsHidden (w : World) : Prop := w.model.view.visible = false → w.model.view.Resting

section Runs

variable [TextSupport] {w w' : World} {source : Option Nat} {msg : Msg} {now : Int}

theorem Handled.fromWindow_eq_false (h : Handled w source msg now w')
    (hhidden : w.model.view.visible = false)
    (hguard : source = none → whileVisible w (.send msg now) = true) : msg.fromWindow = false := by
  cases hfrom : msg.fromWindow with
  | false => rfl
  | true =>
      have huser : msg.isAnswer = false := by
        cases msg <;> simp [Msg.fromWindow, Msg.isAnswer] at hfrom ⊢
      have hvisible := hguard (h.source_eq_none huser)
      simp [whileVisible, hfrom, hhidden] at hvisible

theorem restsHidden_of_reach (h : system.Reach (fun w e => whileVisible w e) w) : w.RestsHidden := by
  refine invariant_of_handled ?_ ?_ ?_ h
  · intro prefs account _
    exact ⟨rfl, rfl, rfl, rfl, rfl, rfl, rfl⟩
  · intro w w' hquiet hresting
    rwa [RestsHidden, hquiet.model]
  · intro w w' source msg now _ _ hhandled hguard _ hresting hhidden
    rw [hhandled.model] at hhidden ⊢
    cases hvisible : w.model.view.visible with
    | true => exact w.model.update_hides hvisible msg now hhidden
    | false =>
        have hmsg := hhandled.fromWindow_eq_false hvisible hguard
        exact (w.model.update_resting (hresting hvisible) hvisible now hmsg).1

/-- **A hidden window holds and yields nothing.** Its view rests; it still rests after whatever comes
next, which copies no value and asks for none; and plaintext that arrives changes nothing at all. -/
theorem hidden_holds_nothing (h : system.Reach (fun w e => whileVisible w e) w)
    (hhidden : w.model.view.visible = false) :
    w.model.view.Resting ∧ ∀ e w', whileVisible w e → w.step e = some w' →
      w'.model.view.Resting ∧ (∀ effect ∈ w.issued w', effect.yieldsValue = false) ∧
      ∀ id now msg, e = .deliver id now → (id, msg) ∈ w.resolved → msg.bringsPlaintext →
        w'.model = w.model ∧ w.issued w' = [] := by
  have hresting := restsHidden_of_reach h hhidden
  have hconsistent := consistent_of_reach h
  refine ⟨hresting, fun e w' hguard hstep => ?_⟩
  rcases (step_handled hconsistent hstep).2 with hquiet | ⟨source, msg, now, hhandled, hevent⟩
  · refine ⟨hquiet.model ▸ hresting, by simp [issued, hquiet.flights], ?_⟩
    intro _ _ _ _ _ _
    exact ⟨hquiet.model, by simp [issued, hquiet.flights]⟩
  have hmsg : msg.fromWindow = false := by
    refine hhandled.fromWindow_eq_false hhidden ?_
    rintro rfl
    rcases hevent with ⟨rfl, -⟩ | ⟨_, -, hsource⟩
    · exact hguard
    · exact absurd hsource (by simp)
  obtain ⟨hafter, hyields⟩ := w.model.update_resting hresting hhidden now hmsg
  rw [hhandled.issued_eq, hhandled.model]
  refine ⟨hafter, hyields, ?_⟩
  rintro id now' msg' rfl hmem hplain
  rcases hevent with ⟨hsend, -⟩ | ⟨id', hdeliver, rfl⟩
  · cases hsend
  · obtain ⟨rfl, rfl⟩ := Event.deliver.inj hdeliver
    obtain rfl := hconsistent.once _ _ _ (hhandled.answer _ rfl).1 hmem
    simp [w.model.update_bringsPlaintext hresting now' hplain]

end Runs

section Examples

attribute [local instance] plainText

theorem hidden_holds_nothing_late : ∃ w w' : World, w.model.view.visible = false ∧
    (3, .copyFetched mailLogin.key (.ok ⟨"hunter2"⟩)) ∈ w.resolved ∧
    w.step (.deliver 3 0) = some w' ∧ w'.model = w.model ∧ w.issued w' = [] := by
  have hrun : ∃ w, system.Reach (fun w e => whileVisible w e) w ∧ w.model.view.visible = false ∧
      (3, .copyFetched mailLogin.key (.ok ⟨"hunter2"⟩)) ∈ w.resolved ∧
      (w.step (.deliver 3 0)).isSome := by
    refine TransitionSystem.exists_reach_of_run (start .default none)
      (listMailLogin ++ [.send .show 0, .send .copyPrimary 0, .send .hide 0,
        .resolve 3 (.field (.ok ⟨"hunter2"⟩))]) ⟨_, _, rfl⟩ ?_
    decide
  obtain ⟨w, hreach, hhidden, hmem, hstep⟩ := hrun
  obtain ⟨w', hnext⟩ := Option.isSome_iff_exists.mp hstep
  have hlate := ((hidden_holds_nothing hreach hhidden).2 _ w' rfl hnext).2.2 3 0 _ rfl hmem rfl
  exact ⟨w, w', hhidden, hmem, hnext, hlate⟩

end Examples

end World

end CosmicPass
