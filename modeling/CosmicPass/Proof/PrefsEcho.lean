import CosmicPass.Library.WriteBack
import CosmicPass.Proof.Chords
import CosmicPass.Proof.Indexed
import CosmicPass.Watcher

/-!
# Edits and the echoes of their saves

Every save comes back as `PrefsLoaded`, and nothing in the message tells the reducer that it is its own,
or how old it is. One that comes back after a later edit puts the earlier preferences in the place of
the later ones.
-/

namespace CosmicPass

namespace Model

section Saves

variable (m : Model)

def SavesNothing (effects : List Effect) : Prop := ∀ effect ∈ effects, effect.saved = none

theorem SavesNothing.filterMap {effects : List Effect} (h : SavesNothing effects) :
    effects.filterMap Effect.saved = [] :=
  List.filterMap_eq_nil_iff.mpr h

theorem requestRefresh_savesNothing : SavesNothing m.requestRefresh.2 := fun effect hmem => by
  rw [m.mem_requestRefresh hmem]
  rfl

theorem show_savesNothing (now : Int) : SavesNothing (m.show now).2 := by
  rw [show_snd]
  split
  · simp [SavesNothing]
  · split <;> simp [SavesNothing, Effect.saved]

theorem moveSelection_savesNothing (delta : Int) : SavesNothing (m.moveSelection delta).2 := by
  unfold moveSelection
  split
  · simp [SavesNothing]
  · dsimp only
    split <;> simp [SavesNothing]

theorem copyWith_savesNothing (pick : ItemSummary → Option CopySource) (missing : String) :
    SavesNothing (m.copyWith pick missing).2 := by
  unfold copyWith
  split
  · simp [SavesNothing]
  · split
    next source _ => cases source <;> simp [SavesNothing, startCopy, Effect.saved]
    next => simp [SavesNothing, notify, Effect.saved]

theorem activateAction_savesNothing (index : Option Nat) :
    SavesNothing (m.activateAction index).2 := by
  unfold activateAction
  split
  · split
    next entry _ => cases entry.source <;> simp [SavesNothing, startCopy, Effect.saved]
    next => simp [SavesNothing]
  · simp [SavesNothing]

theorem fetchTotp_savesNothing : SavesNothing m.fetchTotp.2 := by
  unfold fetchTotp
  split <;> simp [SavesNothing, Effect.saved]

theorem toggleReveal_savesNothing : SavesNothing m.toggleReveal.2 := by
  unfold toggleReveal
  split
  · split
    · simp [SavesNothing]
    · split
      · simp [SavesNothing]
      · split
        · exact fetchTotp_savesNothing _
        · split
          · unfold fetchReveal
            dsimp only
            split <;> simp [SavesNothing, Effect.saved]
          · simp [SavesNothing]
        · simp [SavesNothing]
  · simp [SavesNothing]

theorem revealFetched_savesNothing (key : ItemKey) (index generation : Nat)
    (result : Except PassError SecretString) :
    SavesNothing (m.revealFetched key index generation result).2 := by
  unfold revealFetched
  dsimp only
  split
  · simp [SavesNothing]
  · split
    · split <;> simp [SavesNothing]
    · simp [SavesNothing]
    · simp [SavesNothing, notify, Effect.saved]

theorem totpFetched_savesNothing (key : ItemKey) (result : Except PassError Codes) (now : Int) :
    SavesNothing (m.totpFetched key result now).2 := by
  unfold totpFetched
  split
  · simp [SavesNothing]
  · split <;> simp [SavesNothing, notify, Effect.saved]

variable [TextSupport]

theorem copyFinished_savesNothing (result : Except String Unit) :
    SavesNothing (m.copyFinished result).2 := by
  unfold copyFinished copyConfirmed
  split
  · split <;> simp [SavesNothing, hide, Effect.saved]
  · simp [SavesNothing, notify, Effect.saved]

theorem escape_savesNothing : SavesNothing m.escape.2 := by
  unfold escape
  split
  · simp [SavesNothing]
  · split <;> simp [SavesNothing, hide, Effect.saved]

theorem sessionError_savesNothing (error : PassError) : SavesNothing (m.sessionError error).2 :=
  fun effect hmem => by
    rw [m.mem_sessionError hmem]
    rfl

theorem sessionProbed_savesNothing (result : Except PassError AccountId) :
    SavesNothing (m.sessionProbed result).2 := fun effect hmem => by
  rcases m.mem_sessionProbed hmem with rfl | rfl <;> rfl

theorem cacheLoaded_savesNothing (file : Option CacheFile) :
    SavesNothing (m.cacheLoaded file).2 := by
  unfold cacheLoaded
  split
  · simp [SavesNothing]
  · split
    · simp [SavesNothing]
    · split <;> simp [SavesNothing, Effect.saved]

theorem copyFetched_savesNothing (key : ItemKey) (result : Except PassError SecretString)
    (now : Int) : SavesNothing (m.copyFetched key result now).2 := by
  unfold copyFetched
  split
  · simp [SavesNothing]
  · split
    · intro effect hmem
      rcases mem_copySettled _ hmem with ⟨value, rfl⟩ | rfl | rfl | rfl | ⟨id, after, rfl⟩ <;> rfl
    · simp [SavesNothing]

/-- A message that saves something, and saves what it makes of the preferences if it changes them. -/
theorem savePrefs_saves (prefs : Preferences) :
    (m.savePrefs prefs).2.filterMap Effect.saved =
      if (m.savePrefs prefs).1.prefs = m.prefs then [] else [(m.savePrefs prefs).1.prefs] := by
  rw [savePrefs_prefs]
  unfold savePrefs
  dsimp only
  split <;> rfl

theorem update_saves (msg : Msg) (now : Int) (hmsg : ∀ prefs, msg ≠ .prefsLoaded prefs) :
    (m.update msg now).2.filterMap Effect.saved =
      if (m.update msg now).1.prefs = m.prefs then [] else [(m.update msg now).1.prefs] := by
  have hnothing : SavesNothing (m.update msg now).2 → m.editedPrefs msg = m.prefs →
      (m.update msg now).2.filterMap Effect.saved =
        if (m.update msg now).1.prefs = m.prefs then [] else [(m.update msg now).1.prefs] := by
    intro hsaves hprefs
    rw [hsaves.filterMap, if_pos ((m.update_prefs msg now).trans hprefs)]
  cases msg with
  | adjustClipboardClear delta =>
      simp only [update, adjustClipboardClear_eq]
      exact m.savePrefs_saves _
  | resetShortcuts => exact m.savePrefs_saves _
  | prefsLoaded prefs => exact absurd rfl (hmsg prefs)
  | chordCaptured chord =>
      cases hmode : m.view.mode with
      | list | actions => simp [update, chordCaptured, hmode]
      | preferences rebinding =>
          cases rebinding with
          | none => simp [update, chordCaptured, hmode]
          | some action =>
              cases hconflict : m.prefs.conflict action chord with
              | some other =>
                  simp [update, chordCaptured, hmode, hconflict, notify, Effect.saved]
              | none =>
                  simp only [update, chordCaptured, hmode, hconflict]
                  exact savePrefs_saves _ _
  | toggle =>
      refine hnothing ?_ rfl
      simp only [update]
      split
      · simp [SavesNothing, hide, Effect.saved]
      · exact m.show_savesNothing now
  | «show» => exact hnothing (m.show_savesNothing now) rfl
  | hide => exact hnothing (by simp [SavesNothing, update, hide, Effect.saved]) rfl
  | queryChanged | versionProbed | openPreferences | back =>
      exact hnothing (by simp [SavesNothing, update, versionProbed]) rfl
  | startup => exact hnothing (by simp [SavesNothing, update, startup, Effect.saved]) rfl
  | loginFinished result =>
      refine hnothing ?_ rfl
      cases result <;> simp [SavesNothing, update, loginFinished, Effect.saved]
  | selectNext | selectPrev | pageDown | pageUp => exact hnothing (m.moveSelection_savesNothing _) rfl
  | select | noticeExpired | loginLine | openActions | startRebind | startLogin =>
      refine hnothing ?_ rfl
      simp only [update, loginLine, openActions, startLogin]
      split <;> simp [SavesNothing, Effect.saved]
  | refreshRequested => exact hnothing m.requestRefresh_savesNothing rfl
  | dataLoaded listing => exact hnothing (by simp [SavesNothing, update, dataLoaded, Effect.saved]) rfl
  | cacheLoaded file => exact hnothing (m.cacheLoaded_savesNothing file) rfl
  | refreshFailed error => exact hnothing (sessionError_savesNothing _ error) rfl
  | sessionProbed result => exact hnothing (m.sessionProbed_savesNothing result) rfl
  | copyPrimary | copyUsername | copyTotp | copyUrl =>
      exact hnothing (m.copyWith_savesNothing _ _) rfl
  | activateAction index => exact hnothing (m.activateAction_savesNothing index) rfl
  | copyFetched key result => exact hnothing (m.copyFetched_savesNothing key result now) rfl
  | copyFinished result => exact hnothing (m.copyFinished_savesNothing result) rfl
  | escape => exact hnothing m.escape_savesNothing rfl
  | toggleReveal => exact hnothing m.toggleReveal_savesNothing rfl
  | revealFetched key index generation result =>
      exact hnothing (m.revealFetched_savesNothing key index generation result) rfl
  | totpFetched key result => exact hnothing (m.totpFetched_savesNothing key result now) rfl
  | tick =>
      refine hnothing ?_ rfl
      simp only [update, tick]
      split
      · exact m.fetchTotp_savesNothing
      · simp [SavesNothing]

/-- The preferences a message leaves behind are valid, if the ones it found were. -/
theorem editedPrefs_validated (hvalid : m.prefs.validated = m.prefs) (msg : Msg) :
    (m.editedPrefs msg).validated = m.editedPrefs msg := by
  unfold editedPrefs
  split
  · exact Preferences.validated_validated _
  · split
    · split
      · exact hvalid
      · exact Preferences.validated_validated _
    · exact hvalid
  · exact Preferences.validated_validated _
  · exact Preferences.validated_validated _
  · exact hvalid

end Saves

end Model

namespace PrefsEdit

section Apply

variable [TextSupport] {prefs : Preferences}

omit [TextSupport] in
theorem clamp_adjusted (secs : Nat) (delta : Int) :
    clamp (min (max (saturateI64 (secs + delta)) 0).toNat u32Max) clipboardClearRange =
      clampSecs (secs + delta) := by
  rw [clamp_eq _ (by decide)]
  simp only [clampSecs, clipboardClearRange, saturateI64, i64Min, i64Max, u32Max]
  omega

omit [TextSupport] in
theorem clamp_clampSecs (secs : Int) :
    clamp (clampSecs secs) clipboardClearRange = clampSecs secs := by
  rw [clamp_eq _ (by decide)]
  simp only [clampSecs, clipboardClearRange]
  omega

theorem validated_withSecs (hvalid : prefs.validated = prefs) (secs : Nat) :
    { prefs with clipboardClearSecs := secs }.validated =
      { prefs with clipboardClearSecs := clamp secs clipboardClearRange } := by
  have hstale := congrArg Preferences.refreshStaleSecs hvalid
  have hresults := congrArg Preferences.maxResults hvalid
  have hshortcuts := congrArg Preferences.shortcuts hvalid
  exact Preferences.ext rfl hstale hresults hshortcuts

theorem apply_validated (hvalid : prefs.validated = prefs) (edit : PrefsEdit) :
    (edit.apply prefs).validated = edit.apply prefs := by
  cases edit with
  | adjust delta => rw [apply, validated_withSecs hvalid, clamp_clampSecs]
  | rebind action chord =>
      simp only [apply]
      split
      · exact hvalid
      · exact Preferences.validated_validated _
  | reset => exact Preferences.validated_validated _

/-- What a message makes of valid preferences is what its edit makes of them. -/
theorem editedPrefs_eq {m : Model} (hvalid : m.prefs.validated = m.prefs) {msg : Msg}
    (hmsg : ∀ prefs, msg ≠ .prefsLoaded prefs) :
    m.editedPrefs msg = applyAll m.prefs (ofMsg m msg).toList := by
  cases msg with
  | adjustClipboardClear delta =>
      simp only [Model.editedPrefs, validated_withSecs hvalid, clamp_adjusted]
      rfl
  | chordCaptured chord =>
      cases hmode : m.view.mode with
      | list | actions => simp [Model.editedPrefs, ofMsg, hmode, applyAll]
      | preferences rebinding =>
          cases rebinding with
          | none => simp [Model.editedPrefs, ofMsg, hmode, applyAll]
          | some action =>
              simp only [Model.editedPrefs, ofMsg, hmode]
              rfl
  | prefsLoaded prefs => exact absurd rfl (hmsg prefs)
  | _ => rfl

theorem secs_apply (hvalid : prefs.validated = prefs) (edit : PrefsEdit) :
    (edit.apply prefs).clipboardClearSecs =
      edit.delta.elim prefs.clipboardClearSecs fun delta =>
        clampSecs (prefs.clipboardClearSecs + delta) := by
  have hsecs := congrArg Preferences.clipboardClearSecs hvalid
  cases edit with
  | adjust delta => rfl
  | rebind action chord =>
      simp only [apply]
      split
      · rfl
      · exact hsecs
  | reset => exact hsecs

/-- The clipboard timeout is what the edits of it make of it; the others leave it alone. -/
theorem secs_applyAll (hvalid : prefs.validated = prefs) (edits : List PrefsEdit) :
    (applyAll prefs edits).clipboardClearSecs =
      (edits.filterMap delta).foldl (fun secs delta => clampSecs ((secs : Nat) + delta))
        prefs.clipboardClearSecs := by
  induction edits generalizing prefs with
  | nil => rfl
  | cons edit rest ih =>
      have happly := secs_apply hvalid edit
      rw [List.filterMap_cons]
      cases hdelta : edit.delta with
      | none =>
          rw [hdelta, Option.elim_none] at happly
          rw [← happly]
          exact ih (apply_validated hvalid edit)
      | some delta =>
          rw [hdelta, Option.elim_some] at happly
          rw [List.foldl_cons, ← happly]
          exact ih (apply_validated hvalid edit)

omit [TextSupport] in
theorem clampSecs_add {secs delta : Int} (hsecs : 10 ≤ secs) (hdelta : 0 ≤ delta) :
    clampSecs (clampSecs secs + delta) = clampSecs (secs + delta) := by
  have hcast : (clampSecs secs : Int) = max 10 (min 600 secs) := by
    simp only [clampSecs, clipboardClearRange]
    omega
  rw [hcast]
  simp only [clampSecs, clipboardClearRange]
  omega

omit [TextSupport] in
theorem presses_eq {secs : Nat} (hsecs : 10 ≤ secs) (n : Nat) :
    (List.replicate n clipboardClearStep).foldl (fun secs delta => clampSecs ((secs : Nat) + delta))
        (clampSecs secs) = clampSecs (secs + n * clipboardClearStep) := by
  induction n with
  | zero => simp
  | succ n ih =>
      have hn : (0 : Int) ≤ n * clipboardClearStep := by
        simp only [clipboardClearStep]
        omega
      rw [List.replicate_succ', List.foldl_append, ih, List.foldl_cons, List.foldl_nil,
        clampSecs_add (by omega) (by decide)]
      congr 1
      simp only [clipboardClearStep]
      omega

end Apply

end PrefsEdit

namespace Watched

section Runs

variable [TextSupport] {stored : Preferences} {w w' : Watched} {e : Event}

/-- The watcher reports preferences the model has already. -/
def EchoInStep (w : Watched) : Event → Prop
  | .echo _ => ∀ prefs ∈ w.echoes.head?, prefs.validated = w.model.prefs
  | _ => True

instance (w : Watched) (e : Event) : Decidable (w.EchoInStep e) := by
  unfold EchoInStep
  split <;> infer_instance

def register (w : Watched) : WriteBack Preferences :=
  { value := w.model.prefs, stored := w.stored, saving := w.saving, echoes := w.echoes }

def registerEvent (w : Watched) : Event → WriteBack.Event Preferences
  | .send msg now => .edit (w.model.update msg now).1.prefs
  | .write i => .write i
  | .echo _ => .echo

theorem send_cases {msg : Msg} {now : Int} (h : w.step (.send msg now) = some w') :
    (∀ prefs, msg ≠ .prefsLoaded prefs) ∧ w' = w.feed msg now := by
  cases msg with
  | prefsLoaded prefs => simp [step] at h
  | _ => exact ⟨by simp, (Option.some.inj h).symm⟩

theorem feed_prefs (msg : Msg) (now : Int) :
    (w.feed msg now).model.prefs = w.model.editedPrefs msg := w.model.update_prefs msg now

/-- Beside the reducer, the preferences are a value written back to the file. -/
theorem register_step (hvalid : w.model.prefs.validated = w.model.prefs) (h : w.step e = some w') :
    WriteBack.step Preferences.validated w.register (w.registerEvent e) = some w'.register := by
  cases e with
  | send msg now =>
      obtain ⟨hmsg, rfl⟩ := send_cases h
      have hedited := w.model.editedPrefs_validated hvalid msg
      rw [← w.model.update_prefs msg now] at hedited
      simp only [WriteBack.step, registerEvent, register, feed, hedited,
        w.model.update_saves msg now hmsg]
      split
      next heq => simp [heq]
      next => simp
  | write i =>
      cases hsaving : w.saving[i]? with
      | none => simp [step, hsaving] at h
      | some prefs =>
          simp only [step, hsaving, Option.some.injEq] at h
          subst h
          simp [WriteBack.step, registerEvent, register, hsaving]
  | echo now =>
      cases hechoes : w.echoes with
      | nil => simp [step, hechoes] at h
      | cons prefs rest =>
          simp only [step, hechoes, Option.some.injEq] at h
          subst h
          have hprefs : (w.feed (.prefsLoaded prefs) now).model.prefs = prefs.validated :=
            feed_prefs _ _
          simp [WriteBack.step, registerEvent, register, hechoes, hprefs]
          simp [feed, Model.update]

theorem registerEvent_inStep (h : w.EchoInStep e) :
    WriteBack.InStep Preferences.validated w.register (w.registerEvent e) := by
  cases e with
  | echo now => exact fun _ => h
  | _ => exact fun heq => nomatch heq

/-- A step keeps the preferences what the edits make of them just if it is in step. -/
theorem intended_step_iff (hvalid : w.model.prefs.validated = w.model.prefs)
    (h : w.step e = some w') :
    w'.model.prefs = PrefsEdit.applyAll w.model.prefs (w.edit e).toList ↔ w.EchoInStep e := by
  cases e with
  | send msg now =>
      obtain ⟨hmsg, rfl⟩ := send_cases h
      rw [feed_prefs, PrefsEdit.editedPrefs_eq hvalid hmsg]
      simp [edit, EchoInStep]
  | write i =>
      cases hsaving : w.saving[i]? with
      | none => simp [step, hsaving] at h
      | some prefs =>
          simp only [step, hsaving, Option.some.injEq] at h
          subst h
          simp [edit, EchoInStep, PrefsEdit.applyAll]
  | echo now =>
      cases hechoes : w.echoes with
      | nil => simp [step, hechoes] at h
      | cons prefs rest =>
          simp only [step, hechoes, Option.some.injEq] at h
          subst h
          have hprefs : (w.feed (.prefsLoaded prefs) now).model.prefs = prefs.validated :=
            feed_prefs _ _
          simp [hprefs, edit, EchoInStep, PrefsEdit.applyAll, hechoes]

/-- **The reducer among its saves refines a value written back.** -/
theorem register_reach {s : Watched × List PrefsEdit}
    (h : (logged stored).Reach (fun s e => s.1.EchoInStep e) s) :
    (WriteBack.system Preferences.validated stored).Reach (WriteBack.InStep Preferences.validated)
      s.1.register := by
  induction h with
  | @start s hinit =>
      obtain ⟨w, edits⟩ := s
      obtain ⟨rfl : w = start stored, -⟩ := hinit
      exact .start rfl
  | next _ hguard hstep ih =>
      have hvalid := (WriteBack.tracked_of_reach Preferences.validated_validated ih).value
      obtain ⟨hnext, -⟩ := TransitionSystem.annotated_step_eq_some.mp hstep
      exact .next ih (registerEvent_inStep hguard) (register_step hvalid hnext)

theorem tracked {s : Watched × List PrefsEdit}
    (h : (logged stored).Reach (fun s e => s.1.EchoInStep e) s) :
    WriteBack.Tracked Preferences.validated stored s.1.register :=
  WriteBack.tracked_of_reach Preferences.validated_validated (register_reach h)

theorem intended {s : Watched × List PrefsEdit}
    (h : (logged stored).Reach (fun s e => s.1.EchoInStep e) s) :
    s.1.model.prefs = PrefsEdit.applyAll stored.validated s.2 := by
  induction h with
  | @start s hinit =>
      obtain ⟨w, edits⟩ := s
      obtain ⟨rfl : w = start stored, rfl : edits = []⟩ := hinit
      rfl
  | next hreach hguard hstep ih =>
      obtain ⟨hnext, hlog⟩ := TransitionSystem.annotated_step_eq_some.mp hstep
      rw [(intended_step_iff (tracked hreach).value hnext).mpr hguard, ← Option.some.inj hlog, ih,
        PrefsEdit.applyAll, PrefsEdit.applyAll, PrefsEdit.applyAll, List.foldl_append]

/-- **Edits survive the echoes of earlier saves**, as long as the watcher reports only preferences the
model has already. A report that is not in step takes an edit back. -/
theorem edits_survive_echoes {s : Watched × List PrefsEdit}
    (h : (logged stored).Reach (fun s e => s.1.EchoInStep e) s) :
    s.1.model.prefs = PrefsEdit.applyAll stored.validated s.2 ∧
    (s.1.saving = [] → s.1.echoes = [] → s.1.stored.validated = s.1.model.prefs ∧
      (stored.validated = stored → s.1.stored = s.1.model.prefs)) ∧
    (∀ n, s.2.filterMap PrefsEdit.delta = List.replicate n clipboardClearStep →
      s.1.model.prefs.clipboardClearSecs =
        PrefsEdit.clampSecs (stored.validated.clipboardClearSecs + n * clipboardClearStep)) ∧
    ∀ e s', (logged stored).step s e = some s' →
      (s'.1.model.prefs = PrefsEdit.applyAll stored.validated s'.2 ↔ s.1.EchoInStep e) := by
  have htracked := tracked h
  have hintended := intended h
  have hvalid := Preferences.validated_validated stored
  refine ⟨hintended, fun hsaving hechoes => ?_, fun n hpresses => ?_, fun e s' hstep => ?_⟩
  · have hrest := htracked.atRest hsaving hechoes
    refine ⟨hrest, fun hstored => ?_⟩
    rcases htracked.stored with hfirst | haccepted
    · rw [← hfirst] at hstored
      exact hstored.symm.trans hrest
    · exact haccepted.symm.trans hrest
  · have hsecs : stored.validated.clipboardClearSecs =
        clamp stored.validated.clipboardClearSecs clipboardClearRange :=
      (congrArg Preferences.clipboardClearSecs hvalid).symm
    rw [clamp_eq _ (by decide)] at hsecs
    have hlow : 10 ≤ stored.validated.clipboardClearSecs := by
      rw [hsecs]
      exact le_max_left _ _
    have hstart : stored.validated.clipboardClearSecs =
        PrefsEdit.clampSecs stored.validated.clipboardClearSecs := by
      simp only [PrefsEdit.clampSecs, clipboardClearRange] at hsecs ⊢
      omega
    rw [hintended, PrefsEdit.secs_applyAll hvalid, hpresses, hstart, PrefsEdit.presses_eq hlow,
      ← hstart]
  · obtain ⟨hnext, hlog⟩ := TransitionSystem.annotated_step_eq_some.mp hstep
    rw [← intended_step_iff htracked.value hnext, ← Option.some.inj hlog, hintended,
      PrefsEdit.applyAll, PrefsEdit.applyAll, PrefsEdit.applyAll, List.foldl_append]

end Runs

section Examples

attribute [local instance] Preferences.asciiText

/-- Two presses, each saved and reported before the next. -/
theorem edits_survive_echoes_twice : ∃ s, (logged .default).Reach (fun s e => s.1.EchoInStep e) s ∧
    s.1.stored = s.1.model.prefs ∧ s.1.model.prefs.clipboardClearSecs = 110 := by
  have hrun : ∃ s, (logged .default).Reach (fun s e => s.1.EchoInStep e) s ∧
      s.2 = [.adjust 10, .adjust 10] ∧ s.1.saving = [] ∧ s.1.echoes = [] :=
    TransitionSystem.exists_reach_of_run (start .default, [])
      [.send (.adjustClipboardClear 10) 0, .write 0, .echo 0, .send (.adjustClipboardClear 10) 0,
        .write 0, .echo 0] ⟨rfl, rfl⟩ (by decide)
  obtain ⟨s, hreach, hedits, hsaving, hechoes⟩ := hrun
  obtain ⟨-, hrest, hpresses, -⟩ := edits_survive_echoes hreach
  refine ⟨s, hreach, (hrest hsaving hechoes).2 (by decide), ?_⟩
  rw [hpresses 2 (by rw [hedits]; rfl)]
  decide

/-- Three presses, the second while the report of the first is on its way: that report takes the second
back, and the third is made on top of the first. -/
theorem edit_lost_to_echo : ∃ s, (logged .default).Reach TransitionSystem.anyStep s ∧
    s.2 = [.adjust 10, .adjust 10, .adjust 10] ∧ s.1.saving = [] ∧ s.1.echoes = [] ∧
    s.1.model.prefs.clipboardClearSecs = 110 ∧
    (PrefsEdit.applyAll Preferences.default.validated s.2).clipboardClearSecs = 120 :=
  TransitionSystem.exists_reach_of_run (start .default, [])
    [.send (.adjustClipboardClear 10) 0, .write 0, .send (.adjustClipboardClear 10) 0, .echo 0,
      .send (.adjustClipboardClear 10) 0, .write 0, .write 0, .echo 0, .echo 0]
    ⟨rfl, rfl⟩ (by decide)

end Examples

end Watched

end CosmicPass
