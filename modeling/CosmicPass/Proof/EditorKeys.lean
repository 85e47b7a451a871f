import CosmicPass.Proof.Captions
import CosmicPass.Proof.Editor
import CosmicPass.Proof.EscapeKey
import CosmicPass.Proof.ListRows

/-!
# The keys of the editor

The editor has no focus ring, so each of its controls is to have a key of its own. The two steps and
the reset have one always; the way back has one unless a copy is awaited, and a row has one exactly
if its chord is its action's, and none of the editor's own keys.
-/

namespace CosmicPass

namespace Modifier

theorem rank_injective : Function.Injective rank := by
  intro left right h
  cases left <;> cases right <;> first | rfl | cases h

theorem pairwise_sortDedup (modifiers : List Modifier) :
    (sortDedup modifiers).Pairwise fun left right => left.rank < right.rank := by
  have hsorted : (sortDedup modifiers).Pairwise fun left right => left.rank ≤ right.rank :=
    (List.pairwise_insertionSort _ modifiers).sublist (List.destutter_sublist _ _)
  have hstutter : (sortDedup modifiers).IsChain (· ≠ ·) := List.isChain_destutter _ _
  have hchain : (sortDedup modifiers).IsChain fun left right => left.rank < right.rank := by
    refine List.isChain_iff_getElem.mpr fun i hi => ?_
    exact lt_of_le_of_ne (hsorted.isChain.getElem i hi) fun heq =>
      hstutter.getElem i hi (rank_injective heq)
  exact hchain.pairwise

theorem nodup_sortDedup (modifiers : List Modifier) : (sortDedup modifiers).Nodup :=
  (pairwise_sortDedup modifiers).imp fun hlt heq => absurd (congrArg rank heq) hlt.ne

theorem sorted_sortDedup (modifiers : List Modifier) :
    sorted (sortDedup modifiers) = sortDedup modifiers :=
  ((pairwise_sortDedup modifiers).imp le_of_lt).insertionSort_eq

/-- Without a modifier that is there twice, there is nothing to leave out. -/
theorem sortDedup_of_nodup {modifiers : List Modifier} (h : modifiers.Nodup) :
    sortDedup modifiers = sorted modifiers := by
  apply List.destutter_of_isChain
  have hnodup : (modifiers.insertionSort fun left right => left.rank ≤ right.rank).Nodup :=
    (List.perm_insertionSort _ modifiers).nodup_iff.mpr h
  exact List.Pairwise.isChain hnodup

end Modifier

/-- The press of a chord, with each modifier held once. -/
def KeyChord.typed (chord : KeyChord) : KeyPress :=
  { key := chord.key, modifiers := Modifier.sortDedup chord.modifiers }

/-- The chord that the action's row shows is found to be the action's, and is no key of the editor's
own. -/
def Preferences.LeadsToRow (prefs : Preferences) (a : Action) : Prop :=
  prefs.actionFor (prefs.chord a).typed.modifiers (prefs.chord a).typed.key = some a ∧
    (prefs.chord a).typed.editsPreferences = false

/-- A press that an action's chord accepts is the press of that chord. -/
theorem is_typed_of_actionFor {press : KeyPress} {prefs : Preferences} {a : Action}
    (hnodup : press.modifiers.Nodup)
    (h : prefs.actionFor press.modifiers press.key = some a) :
    press.is (prefs.chord a).typed.modifiers (prefs.chord a).typed.key := by
  have haccepts := List.find?_some h
  obtain ⟨hmodifiers, hkey⟩ := of_decide_eq_true haccepts
  have hlowered := of_decide_eq_true hkey
  refine decide_eq_true ⟨?_, decide_eq_true hlowered.symm⟩
  calc
    Modifier.sorted press.modifiers = Modifier.sortDedup press.modifiers :=
      (Modifier.sortDedup_of_nodup hnodup).symm
    _ = Modifier.sortDedup (prefs.chord a).modifiers := hmodifiers.symm
    _ = Modifier.sorted (prefs.chord a).typed.modifiers := (Modifier.sorted_sortDedup _).symm

theorem editsPreferences_of_is {press other : KeyPress}
    (h : press.is other.modifiers other.key) :
    press.editsPreferences = other.editsPreferences := by
  unfold KeyPress.editsPreferences unshifted
  simp only [is_eq_of_is h]

namespace Model

variable [TextSupport] {m : Model}

theorem savePrefs_mode (prefs : Preferences) : (m.savePrefs prefs).1.view.mode = m.view.mode := by
  obtain ⟨_, _, h⟩ := m.savePrefs_cases prefs
  rw [h]

/-- Where a key of the editor leads. -/
theorem mode_of_editorKey {press : KeyPress} {ctx : KeyContext} {msg : Msg}
    (hmode : m.view.mode = .preferences none)
    (hkey : mapKey press m.view.mode m.prefs ctx = some msg) (now : Int) :
    msg ≠ .show ∧ msg ≠ .toggle ∧
      match (m.update msg now).1.view.mode with
      | .list => m.view.pending = none
      | .preferences (some a) => msg = .startRebind a
      | _ => True := by
  rw [hmode, mapKey, preferencesKey] at hkey
  simp only [Option.isSome_none, Bool.false_eq_true, if_false] at hkey
  split at hkey
  next =>
    obtain rfl := Option.some.inj hkey
    refine ⟨by simp, by simp, ?_⟩
    cases hpending : m.view.pending with
    | none => simp [update, escape, hpending, hmode, leaveMode, clearRevealed, dropReveal, cancelReveal]
    | some pending => simp [update, escape, hpending, cancelPending, hmode]
  split at hkey
  next =>
    obtain rfl := Option.some.inj hkey
    exact ⟨by simp, by simp, by simp only [update, savePrefs_mode, hmode]⟩
  split at hkey
  next =>
    obtain rfl := Option.some.inj hkey
    exact ⟨by simp, by simp, by simp only [update, adjustClipboardClear, savePrefs_mode, hmode]⟩
  split at hkey
  next =>
    obtain rfl := Option.some.inj hkey
    exact ⟨by simp, by simp, by simp only [update, adjustClipboardClear, savePrefs_mode, hmode]⟩
  next =>
    obtain ⟨a, -, rfl⟩ := Option.map_eq_some_iff.mp hkey
    exact ⟨by simp, by simp, by simp [update, hmode]⟩

end Model

namespace Model

variable [TextSupport] {m : Model} {now : Int}

theorem fields_of_popup {pane : FieldList} (h : m.popup now = .fields (some pane)) :
    ∃ selected, m.fieldList selected now = some pane := by
  unfold popup at h
  split at h
  next selected _ => exact ⟨selected, Screen.fields.inj h⟩
  · cases h
  · split at h <;> cases h

theorem editor_of_popup {pane : Editor} (h : m.popup now = .editor pane) : pane = m.editor := by
  unfold popup at h
  split at h
  · cases h
  · exact (Screen.editor.inj h).symm
  · split at h <;> cases h

theorem panel_of_popup {shown : Panel} (h : m.popup now = .panel shown) : m.panel = some shown := by
  unfold popup at h
  split at h
  · cases h
  · cases h
  · split at h
    next held hpanel => exact Screen.panel.inj h ▸ hpanel
    next => cases h

theorem ofPopup_of_mem_buttons {shown : Panel} (h : m.panel = some shown) {button : PanelButton}
    (hmem : button ∈ shown.buttons) : button.message.ofPopup = true := by
  obtain ⟨text, -, rfl⟩ := Option.map_eq_some_iff.mp h
  simp only [panelButtons, List.mem_append, Option.mem_toList, Option.map_eq_some_iff] at hmem
  rcases hmem with ((⟨url, -, rfl⟩ | hmem) | hmem) | hmem
  · rfl
  all_goals
    split at hmem
    · obtain rfl := List.mem_singleton.mp hmem
      rfl
    · cases hmem

end Model

theorem Screen.mem_controls_editor [TextSupport] {m : Model} {message : Message}
    (h : message ∈ (Screen.editor m.editor).controls) :
    message = .core .back ∨ message = .core (.adjustClipboardClear (-clipboardClearStep)) ∨
      message = .core (.adjustClipboardClear clipboardClearStep) ∨
      message = .core .resetShortcuts ∨ ∃ a, message = .core (.startRebind a) := by
  simp only [controls, Model.editor, Model.shortcutRow, List.mem_append, List.mem_cons, List.mem_map,
    List.not_mem_nil, or_false] at h
  rcases h with (h | ⟨_, ⟨a, -, rfl⟩, rfl⟩) | h
  · rcases h with h | h | h <;> simp [h]
  · simp
  · simp [h]

/-- What can be pressed on the screen is what the popup sends. -/
theorem Model.ofPopup_of_mem_controls [TextSupport] {m : Model} {now : Int} {message : Message}
    (h : message ∈ (m.popup now).controls) : message.ofPopup = true := by
  cases hscreen : m.popup now with
  | fields pane =>
      rw [hscreen] at h
      cases pane with
      | none => simp [Screen.controls] at h
      | some pane =>
          obtain ⟨selected, hpane⟩ := fields_of_popup hscreen
          obtain ⟨item, -, rfl⟩ := Option.map_eq_some_iff.mp hpane
          rcases List.mem_cons.mp h with rfl | h
          · rfl
          · obtain ⟨row, hrow, rfl⟩ := List.mem_map.mp h
            obtain ⟨⟨entry, i⟩, -, rfl⟩ := List.mem_map.mp hrow
            rfl
  | editor pane =>
      rw [hscreen] at h
      obtain rfl := editor_of_popup hscreen
      rcases Screen.mem_controls_editor h with rfl | rfl | rfl | rfl | ⟨a, rfl⟩ <;> rfl
  | panel pane =>
      rw [hscreen] at h
      obtain ⟨button, hbutton, rfl⟩ := List.mem_map.mp h
      exact ofPopup_of_mem_buttons (panel_of_popup hscreen) hbutton
  | list pane =>
      rw [hscreen] at h
      obtain ⟨-, rfl⟩ := list_of_popup hscreen
      obtain ⟨row, hrow, rfl⟩ := List.mem_map.mp h
      obtain ⟨⟨hit, i⟩, -, hmapped⟩ := List.mem_filterMap.mp hrow
      obtain ⟨item, -, rfl⟩ := Option.map_eq_some_iff.mp hmapped
      rfl

namespace App

variable [TextSupport] {s : App}

theorem update_key {press : KeyPress} {msg : Msg} (hkey : s.keyMsg press = some msg)
    (hstill : scrolls msg = false) (c : Clock) :
    s.update (.key press) c = s.update (.core msg) c := by
  simp [update, onKey, hkey, hstill]

/-- A press that leads where a control leads. -/
theorem exists_editorKey {press : KeyPress} {msg : Msg}
    (hmode : s.world.model.view.mode = .preferences none)
    (hmsg : (s.world.model.update msg 0).1.view.mode ≠ .preferences none)
    (hwindow : msg ≠ .show ∧ msg ≠ .toggle)
    (hsame : s.update (.key press) ⟨0, 0⟩ = s.update (.core msg) ⟨0, 0⟩) :
    ∃ own, s.keyMsg press = some own ∧
      (s.world.model.update own 0).1.view.mode = (s.world.model.update msg 0).1.view.mode := by
  have hcontrol : (s.update (.core msg) ⟨0, 0⟩).1.world.model = (s.world.model.update msg 0).1 := by
    rw [update, dispatch_world s _ (by simp [hwindow])]
    rfl
  cases hkey : s.keyMsg press with
  | none =>
      refine absurd ?_ hmsg
      rw [← hcontrol, ← hsame, ← hmode]
      simp [update, onKey, hkey]
  | some own =>
      refine ⟨own, rfl, ?_⟩
      obtain ⟨hshow, htoggle, -⟩ := Model.mode_of_editorKey hmode hkey 0
      rw [← hcontrol, ← hsame, update_key_world hkey (by simp [hshow, htoggle])]
      rfl

/-- **The controls that have a key.** While the editor is on screen and no shortcut is being
captured, a step or the reset is what some press of a key does as well; the way back is, unless a copy
is awaited; and the row of an action is exactly if the chord it shows leads to it. -/
theorem editor_control_keyed_iff (hmode : s.world.model.view.mode = .preferences none)
    {message : Message} (hmem : message ∈ (Screen.editor s.world.model.editor).controls) :
    (∃ press : KeyPress, press.modifiers.Nodup ∧
        ∀ c, s.update (.key press) c = s.update message c) ↔
      (message = .core .back → s.world.model.view.pending = none) ∧
        ∀ a, message = .core (.startRebind a) → s.world.model.prefs.LeadsToRow a := by
  constructor
  · rintro ⟨press, hnodup, hsame⟩
    refine ⟨?_, ?_⟩
    · rintro rfl
      have hback : (s.world.model.update .back 0).1.view.mode = .list := rfl
      obtain ⟨own, hkey, hafter⟩ := exists_editorKey hmode (by simp [hback]) (by simp) (hsame ⟨0, 0⟩)
      obtain ⟨-, -, hleads⟩ := Model.mode_of_editorKey hmode hkey 0
      rw [hafter, hback] at hleads
      exact hleads
    · rintro a rfl
      have hrebind : (s.world.model.update (.startRebind a) 0).1.view.mode = .preferences (some a) := by
        simp [Model.update, hmode]
      obtain ⟨own, hkey, hafter⟩ :=
        exists_editorKey hmode (by simp [hrebind]) (by simp) (hsame ⟨0, 0⟩)
      obtain ⟨-, -, hleads⟩ := Model.mode_of_editorKey hmode hkey 0
      rw [hafter, hrebind] at hleads
      subst hleads
      rw [keyMsg, hmode] at hkey
      obtain ⟨hfree, hfor⟩ := mapKey_editor.mp hkey
      have hown := is_typed_of_actionFor hnodup hfor
      exact ⟨(actionFor_of_is hown).symm.trans hfor, (editsPreferences_of_is hown).symm.trans hfree⟩
  · rintro ⟨hpending, hown⟩
    rcases Screen.mem_controls_editor hmem with rfl | rfl | rfl | rfl | ⟨a, rfl⟩
    · refine ⟨.escape, by simp [KeyPress.escape], fun c => ?_⟩
      have hkey : s.keyMsg .escape = some .escape := mapKey_escape _ _ _
      rw [update_key hkey rfl]
      have hsame : s.world.model.update .escape c.now = s.world.model.update .back c.now := by
        simp [Model.update, Model.escape, hpending rfl, hmode]
      refine dispatch_congr ?_ ?_ c hsame <;> simp
    · refine ⟨{ key := "ArrowLeft", modifiers := [] }, by simp, fun c => update_key ?_ rfl c⟩
      simp only [keyMsg, hmode, mapKey, preferencesKey]
      rw [if_neg (by decide), if_neg (by decide), if_neg (by decide), if_neg (by decide),
        if_pos (by decide)]
    · refine ⟨{ key := "ArrowRight", modifiers := [] }, by simp, fun c => update_key ?_ rfl c⟩
      simp only [keyMsg, hmode, mapKey, preferencesKey]
      rw [if_neg (by decide), if_neg (by decide), if_neg (by decide), if_pos (by decide)]
    · refine ⟨{ key := "Delete", modifiers := [.ctrl, .shift] }, by simp, fun c => update_key ?_ rfl c⟩
      simp only [keyMsg, hmode, mapKey, preferencesKey]
      rw [if_neg (by decide), if_neg (by decide), if_pos (by decide)]
    · obtain ⟨hfor, hfree⟩ := hown a rfl
      refine ⟨(s.world.model.prefs.chord a).typed, Modifier.nodup_sortDedup _,
        fun c => update_key ?_ rfl c⟩
      rw [keyMsg, hmode]
      exact mapKey_editor.mpr ⟨hfree, hfor⟩

end App

namespace Shell

section Examples

attribute [local instance] World.plainText

/-- The editor is opened while the password of a login is on its way. -/
def editWhileCopying : List (AppEvent × Clock) :=
  pressSecondLogin ++
    [(.popup (.rowPressed 1), ⟨5, 0⟩), (.popup (.key { key := ",", modifiers := [.ctrl] }), ⟨6, 0⟩)]

/-- Escape would call off the copy; the reset has a key of its own. -/
theorem no_key_goes_back : ∃ s : Shell, system.Reach whileThere s ∧
    (¬ ∃ press : KeyPress, press.modifiers.Nodup ∧
        ∀ c, s.app.update (.key press) c = s.app.update (.core .back) c) ∧
      ∃ press : KeyPress, press.modifiers.Nodup ∧
        ∀ c, s.app.update (.key press) c = s.app.update (.core .resetShortcuts) c := by
  have hrun : ∃ s : Shell, system.Reach whileThere s ∧
      s.app.world.model.view.mode = .preferences none ∧
      s.app.world.model.view.pending.isSome := by
    refine TransitionSystem.exists_reach_of_run shownAtStart editWhileCopying ⟨_, _, _, _, _, rfl⟩ ?_
    decide
  obtain ⟨s, hreach, hmode, hcopying⟩ := hrun
  have hback : .core .back ∈ (Screen.editor s.app.world.model.editor).controls := by
    simp [Screen.controls, Model.editor]
  have hreset : .core .resetShortcuts ∈ (Screen.editor s.app.world.model.editor).controls := by
    simp [Screen.controls, Model.editor]
  refine ⟨s, hreach, fun hkeyed => ?_, (App.editor_control_keyed_iff hmode hreset).mpr (by simp)⟩
  have hpending := ((App.editor_control_keyed_iff hmode hback).mp hkeyed).1 rfl
  simp [hpending] at hcopying

end Examples

end Shell

end CosmicPass
