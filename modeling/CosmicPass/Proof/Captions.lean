import CosmicPass.App.Shell
import CosmicPass.Proof.ActionRows
import CosmicPass.Proof.CopyReveal
import CosmicPass.Proof.Rebinding
import CosmicPass.View.FieldList

/-!
# The captions of the field list

A row names its own chord, and the highlighted one the chord that copies it as well. A shortcut is bound
to what its accessor returns, so both do what a click on the row does. The footer says what the reveal
chord does to the highlighted row; while the list awaits what it would reveal, that is not so.
-/

namespace CosmicPass

/-- Looked at before the shortcuts, in the field list. -/
def KeyPress.fixedInFieldList (press : KeyPress) : Bool :=
  press.navigates || (press.is [] "ArrowLeft" || press.is [.shift] "Tab")

theorem mapKey_fieldList {press : KeyPress} {prefs : Preferences} {ctx : KeyContext} {key : ItemKey}
    {selected : Nat} {a : Action} (hfixed : press.fixedInFieldList = false)
    (hfor : prefs.actionFor press.modifiers press.key = some a)
    (hoffered : a.offeredIn (.actions key selected)) :
    mapKey press (.actions key selected) prefs ctx = some (a.message (.actions key selected)) := by
  simp only [KeyPress.fixedInFieldList, KeyPress.navigates, Bool.or_eq_false_iff] at hfixed
  simp only [mapKey, hfixed, hfor, Bool.or_self, Bool.and_false, Bool.false_eq_true, reduceCtorEq,
    false_and, if_false]
  cases a <;> simp_all [Action.message, Action.offeredIn]

namespace Model

variable [TextSupport] {m : Model} {key : ItemKey} {selected i : Nat} {entry : ActionEntry}

omit [TextSupport] in
theorem targetItem_actions (hmode : m.view.mode = .actions key selected) :
    m.targetItem = m.item key := by
  simp [targetItem, hmode]

/-- A click on a row copies it. -/
theorem update_activate (hmode : m.view.mode = .actions key selected)
    (hrow : m.actions[i]? = some entry) (now : Int) :
    m.update (.activateAction (some i)) now = m.startCopy key entry.source := by
  simp [update, activateAction, hmode, hrow]

/-- So does the activation chord, for the row under the highlight. -/
theorem update_activateSelected (hmode : m.view.mode = .actions key selected)
    (hrow : m.actions[selected]? = some entry) (now : Int) :
    m.update (Action.copyPrimary.message (.actions key selected)) now =
      m.startCopy key entry.source := by
  simp [Action.message, update, activateAction, hmode, hrow]

omit [TextSupport] in
/-- What a row has a chord of its own for is copying. -/
theorem mem_copies_of_ownAction {a : Action} (hmem : entry ∈ m.actions)
    (hown : entry.ownAction = some a) :
    a ∈ [Action.copyPrimary, .copyUsername, .copyTotp, .copyUrl] := by
  obtain ⟨item, -, hlisted⟩ := m.mem_actions hmem
  have haccessor := accessor_of_shortcut hlisted (Option.filter_eq_some_iff.mp hown).1
  cases a <;> simp_all [accessor]

/-- And its own chord, wherever the highlight is. -/
theorem update_ownAction {a : Action} (hmode : m.view.mode = .actions key selected)
    (hrow : m.actions[i]? = some entry) (hown : entry.ownAction = some a) (now : Int) :
    m.update (a.message (.actions key selected)) now = m.startCopy key entry.source := by
  obtain ⟨item, hitem, hlisted⟩ := m.mem_actions (List.mem_of_getElem? hrow)
  obtain ⟨hshortcut, hprimary⟩ := Option.filter_eq_some_iff.mp hown
  have haccessor := accessor_of_shortcut hlisted hshortcut
  have hkey : item.key = key := by
    rw [targetItem_actions hmode] at hitem
    exact (m.item_eq_some hitem).2
  cases a with
  | copyUsername | copyTotp | copyUrl =>
      simp only [accessor] at haccessor
      simp [Action.message, update, copyWith, hitem, haccessor, hkey]
  | copyPrimary => simp at hprimary
  | openActions | reveal | refresh | preferences | signIn | retry => simp [accessor] at haccessor

end Model

namespace App

variable [TextSupport] {s : App} {key : ItemKey} {selected i : Nat}

omit [TextSupport] in
/-- Copying is offered in the field list, and moves neither the highlight nor the window. -/
theorem message_of_mem_copies {a : Action} (key : ItemKey) (selected : Nat)
    (h : a ∈ [Action.copyPrimary, .copyUsername, .copyTotp, .copyUrl]) :
    a.offeredIn (.actions key selected) = true ∧
      scrolls (a.message (.actions key selected)) = false ∧
      a.message (.actions key selected) ≠ .show ∧ a.message (.actions key selected) ≠ .toggle := by
  simp only [List.mem_cons, List.not_mem_nil, or_false] at h
  rcases h with rfl | rfl | rfl | rfl <;> simp [Action.offeredIn, Action.message, scrolls]

/-- What a message does to the shell is what it does to the model, if it asks for no window. -/
theorem dispatch_congr {msg other : Msg} (hmsg : msg ≠ .show ∧ msg ≠ .toggle)
    (hother : other ≠ .show ∧ other ≠ .toggle) (c : Clock)
    (hsame : s.world.model.update msg c.now = s.world.model.update other c.now) :
    s.dispatch msg c = s.dispatch other c := by
  simp only [dispatch, hsame, hmsg.1, hmsg.2, hother.1, hother.2, or_self, if_false]

/-- **A chord on a row is a click on it.** Each chord that the caption of a row names copies that row: a
press that is the chord's, and no fixed key of the list, does just what a click on the row does. -/
theorem chord_on_row_is_click (hmode : s.world.model.view.mode = .actions key selected) {now : Int}
    {pane : FieldList} (hpane : s.world.model.fieldList selected now = some pane) {row : FieldRow}
    (hrow : pane.rows[i]? = some row) :
    ∃ (entry : ActionEntry) (activation : Option Action),
      s.world.model.actions[i]? = some entry ∧
      activation = (if i = selected then some .copyPrimary else none) ∧
      row.caption = shortcutCaption (entry.ownAction.map fun a => (s.world.model.prefs.chord a).toText)
        (activation.map fun a => (s.world.model.prefs.chord a).toText) ∧
      ∀ a, entry.ownAction = some a ∨ activation = some a → ∀ press : KeyPress,
        press.fixedInFieldList = false →
        s.world.model.prefs.actionFor press.modifiers press.key = some a →
        ∀ c, s.update (.key press) c = s.update (.core row.message) c := by
  obtain ⟨item, hitem, rfl⟩ := Option.map_eq_some_iff.mp hpane
  obtain ⟨⟨entry, place⟩, hentry, rfl⟩ : ∃ placed, s.world.model.actions.zipIdx[i]? = some placed ∧
      s.world.model.fieldRow selected now placed.1 placed.2 = row := by
    simpa using hrow
  obtain ⟨hlisted, rfl⟩ : s.world.model.actions[i]? = some entry ∧ i = place := by
    simpa [List.getElem?_zipIdx, eq_comm] using hentry
  refine ⟨entry, _, hlisted, rfl, ?_, ?_⟩
  · by_cases hselected : i = selected
    · simp only [Model.fieldRow, if_pos hselected, Option.map_some]
    · simp only [Model.fieldRow, if_neg hselected, Option.map_none]
  · intro a hnamed press hfixed hfor c
    have hcopies : s.world.model.update (a.message (.actions key selected)) c.now =
        s.world.model.update (.activateAction (some i)) c.now := by
      rw [Model.update_activate hmode hlisted]
      rcases hnamed with hown | hactivation
      · exact Model.update_ownAction hmode hlisted hown c.now
      · obtain ⟨rfl, hcopy⟩ := Option.ite_none_right_eq_some.mp hactivation
        exact Option.some.inj hcopy ▸ Model.update_activateSelected hmode hlisted c.now
    have hcopy : a ∈ [Action.copyPrimary, .copyUsername, .copyTotp, .copyUrl] := by
      rcases hnamed with hown | hactivation
      · exact Model.mem_copies_of_ownAction (List.mem_of_getElem? hlisted) hown
      · obtain ⟨-, hcopy⟩ := Option.ite_none_right_eq_some.mp hactivation
        simp [← Option.some.inj hcopy]
    obtain ⟨hoffered, hstill, hwindow⟩ := message_of_mem_copies key selected hcopy
    have hkey : s.keyMsg press = some (a.message (.actions key selected)) := by
      simp only [keyMsg, hmode]
      exact mapKey_fieldList hfixed hfor hoffered
    simp only [update, onKey, hkey, hstill, Bool.false_eq_true, if_false]
    exact dispatch_congr hwindow (by simp [Model.fieldRow]) c hcopies

end App

/-! ### The footer -/

/-- Asks for the value the row would show. -/
def Effect.asksFor (effect : Effect) (key : ItemKey) (entry : ActionEntry) : Prop :=
  match entry.source with
  | .totp _ => ∃ cancel, effect = .fetchTotp key cancel
  | .field field => ∃ index generation cancel, entry.fieldIndex = some index ∧
      effect = .fetchReveal key field.name index generation cancel

namespace Model

variable [TextSupport] {m : Model} {key : ItemKey} {selected : Nat} {entry : ActionEntry}

/-- The reveal chord does what the footer says of it: it asks for a value that is masked, takes away
one that is shown, and does nothing on a row that is plain. -/
def FooterHolds (m : Model) (key : ItemKey) (entry : ActionEntry) : Prop :=
  ∀ now, match m.revealState entry.source entry.fieldIndex with
    | .masked => ∃ effect ∈ (m.update .toggleReveal now).2, effect.asksFor key entry
    | .shown | .plain => (m.update .toggleReveal now).2 = [] ∧
        ∀ row ∈ (m.update .toggleReveal now).1.actions,
          (m.update .toggleReveal now).1.revealState row.source row.fieldIndex ≠ .shown

omit [TextSupport] in
/-- With nothing revealed no row shows anything. -/
theorem revealState_ne_shown (h : m.view.revealed = .nothing) (source : CopySource)
    (fieldIndex : Option Nat) : m.revealState source fieldIndex ≠ .shown := by
  cases source with
  | totp name => simp [revealState, revealedTotp, h, Revealed.totpCode]
  | field field =>
      cases hsecret : field.secret <;>
        simp [revealState, hsecret, revealedValue, h, Revealed.fieldTarget]

omit [TextSupport] in
/-- What a row shows, the chord finds it showing. -/
theorem wasShowing_of_shown (hmode : m.view.mode = .actions key selected)
    (h : m.revealState entry.source entry.fieldIndex = .shown) : m.wasShowing key entry = true := by
  cases hsource : entry.source with
  | totp name =>
      have hcode : m.revealedTotp.any fun shown => shown.field = name := by
        simpa [revealState, hsource] using h
      obtain ⟨shown, hshown, -⟩ := (Option.any_eq_true _ _).mp hcode
      have htotp : m.view.revealed.totpCode = some shown := hshown
      simp [wasShowing, hsource, htotp]
  | field field =>
      have hsecret : field.secret = true := by
        by_contra hplain
        simp [revealState, hsource, hplain] at h
      have hvalue : entry.fieldIndex.any fun index => (m.revealedValue index).isSome := by
        simpa [revealState, hsource, hsecret] using h
      obtain ⟨index, hindex, hsome⟩ := (Option.any_eq_true _ _).mp hvalue
      obtain ⟨value, hvalue⟩ := Option.isSome_iff_exists.mp hsome
      obtain ⟨target, item, hrevealed, hitem, hplace, hdescribes⟩ := revealedValue_eq_some.mp hvalue
      rw [targetItem_actions hmode] at hitem
      have hkey : target.key = key :=
        (of_decide_eq_true hdescribes).1.symm.trans (m.item_eq_some hitem).2
      simp [wasShowing, hsource, hindex, hrevealed, Revealed.fieldTarget, hkey, hplace]

omit [TextSupport] in
/-- What the list shows or awaits for the row, or in its place, the chord takes away. -/
theorem wasShowing_of_awaits
    (h : m.awaitsRow key entry = true ∨ m.otherCodeShown entry = true) :
    m.wasShowing key entry = true := by
  cases hsource : entry.source with
  | totp name =>
      rcases h with hawaits | hother
      · have hfetching : m.view.revealed.totpFetching = true := by
          simpa [awaitsRow, hsource, revealingTotp] using hawaits
        simp [wasShowing, hsource, hfetching]
      · have hcode : m.revealedTotp.any fun shown => shown.field ≠ name := by
          simp only [otherCodeShown, hsource] at hother
          exact (of_decide_eq_true hother).2
        obtain ⟨shown, hshown, -⟩ := (Option.any_eq_true _ _).mp hcode
        have htotp : m.view.revealed.totpCode = some shown := hshown
        simp [wasShowing, hsource, htotp]
  | field field =>
      rcases h with hawaits | hother
      · simp only [awaitsRow, hsource] at hawaits
        obtain ⟨index, hindex, hplace⟩ := (Option.any_eq_true _ _).mp hawaits
        simp only [wasShowing, hsource, hindex, Option.any_some]
        exact (of_decide_eq_true hplace).2
      · simp [otherCodeShown, hsource] at hother

/-- A masked row that the list neither shows nor awaits is asked for. -/
theorem asks_of_masked (hmode : m.view.mode = .actions key selected)
    (hrow : m.actions[selected]? = some entry) (hidle : m.wasShowing key entry = false)
    (hmasked : m.revealState entry.source entry.fieldIndex = .masked) (now : Int) :
    ∃ effect ∈ (m.update .toggleReveal now).2, effect.asksFor key entry := by
  have hmem := List.mem_of_getElem? hrow
  cases hsource : entry.source with
  | totp name =>
      have htoggle : m.update .toggleReveal now = m.clearRevealed.fetchTotp := by
        simp only [update, toggleReveal, hmode, hrow, hidle, hsource, Bool.false_eq_true, if_false]
      rw [htoggle, clearRevealed_fetchTotp_eq hmode]
      exact ⟨_, List.mem_singleton_self _, by simp [Effect.asksFor, hsource]⟩
  | field field =>
      obtain ⟨item, -, hlisted⟩ := m.mem_actions hmem
      obtain ⟨index, hindex⟩ := fieldIndex_of_mem_allActions hlisted hsource
      have hsecret : field.secret = true := by
        by_contra hplain
        simp [revealState, hsource, hplain] at hmasked
      have htoggle : m.update .toggleReveal now =
          m.clearRevealed.fetchReveal key field.name index := by
        simp only [update, toggleReveal, hmode, hrow, hidle, hsource, hindex, hsecret, if_true,
          Bool.false_eq_true, if_false]
      obtain ⟨_, _, -, -, -, -, -, -, hfetch⟩ := fetchReveal_eq hmode hmem hsource hindex
      rw [htoggle, hfetch]
      exact ⟨_, List.mem_singleton_self _, by simp [Effect.asksFor, hsource, hindex]⟩

/-- Where nothing is asked for, whatever was shown is gone. -/
theorem toggleReveal_eq (hmode : m.view.mode = .actions key selected)
    (hrow : m.actions[selected]? = some entry)
    (h : m.wasShowing key entry = true ∨ m.revealState entry.source entry.fieldIndex = .plain)
    (now : Int) : m.update .toggleReveal now = (m.clearRevealed, []) := by
  simp only [update, toggleReveal, hmode, hrow]
  by_cases hshowing : m.wasShowing key entry = true
  · rw [if_pos hshowing]
  · have hplain := h.resolve_left hshowing
    rw [if_neg hshowing]
    cases hsource : entry.source with
    | totp name =>
        exfalso
        simp only [revealState, hsource] at hplain
        split at hplain <;> cases hplain
    | field field =>
        have hopen : field.secret = false := by
          by_contra hsecret
          simp only [revealState, hsource, Bool.not_eq_false] at hplain hsecret
          rw [if_pos hsecret] at hplain
          split at hplain <;> cases hplain
        cases entry.fieldIndex <;> simp [hopen]

/-- **The footer is right** about the highlighted row, in every state, exactly unless the row is masked
while its value is on its way already, or while the code of another row is shown: the chord then takes
away what it is said to reveal. -/
theorem footer_holds_iff {guard : Model → Msg × Int → Prop} (hreach : system.Reach guard m)
    (hmode : m.view.mode = .actions key selected) (hrow : m.actions[selected]? = some entry) :
    m.FooterHolds key entry ↔ (m.revealState entry.source entry.fieldIndex = .masked →
      m.awaitsRow key entry = false ∧ m.otherCodeShown entry = false) := by
  by_cases hshowing : m.wasShowing key entry = true
  · have htoggle := toggleReveal_eq hmode hrow (Or.inl hshowing)
    cases hstate : m.revealState entry.source entry.fieldIndex with
    | masked =>
        refine iff_of_false (fun hholds => ?_) fun hidle => ?_
        · have hasked := hholds 0
          simp only [hstate, htoggle, List.not_mem_nil, false_and, exists_false] at hasked
        · obtain ⟨hawaits, hother⟩ := hidle rfl
          have hhides : m.hides key entry = true := by simp [hides, hstate, hawaits]
          rw [wasShowing_of_hides (pinned_of_reach hreach) hmode hhides hother] at hshowing
          cases hshowing
    | shown | plain =>
        refine iff_of_true (fun now => ?_) (by simp)
        simp only [hstate, htoggle, true_and]
        exact fun row _ => revealState_ne_shown rfl row.source row.fieldIndex
  · have hidle : m.wasShowing key entry = false := by simpa using hshowing
    cases hstate : m.revealState entry.source entry.fieldIndex with
    | masked =>
        refine iff_of_true (fun now => ?_) fun _ => ⟨?_, ?_⟩
        · simp only [hstate]
          exact asks_of_masked hmode hrow hidle hstate now
        · by_contra hawaits
          exact hshowing (wasShowing_of_awaits (Or.inl (by simpa using hawaits)))
        · by_contra hother
          exact hshowing (wasShowing_of_awaits (Or.inr (by simpa using hother)))
    | shown => exact absurd (wasShowing_of_shown hmode hstate) hshowing
    | plain =>
        refine iff_of_true (fun now => ?_) (by simp)
        simp only [hstate, toggleReveal_eq hmode hrow (Or.inr hstate), true_and]
        exact fun row _ => revealState_ne_shown rfl row.source row.fieldIndex

end Model

section Examples

open Model

attribute [local instance] World.plainText

/-- The second code row of an item, highlighted, with nothing on screen. -/
theorem Model.footer_holds_second : ∃ (m : Model) (row : ActionEntry),
    m.actions[1]? = some row ∧ m.revealState row.source row.fieldIndex = .masked ∧
      m.FooterHolds twoCodes.key row := by
  have hrun : ∃ m, Model.system.Reach TransitionSystem.anyStep m ∧
      m.view.mode = .actions twoCodes.key 1 ∧
      m.actions[1]?.any fun row => m.revealState row.source row.fieldIndex = .masked ∧
        m.awaitsRow twoCodes.key row = false ∧ m.otherCodeShown row = false := by
    refine TransitionSystem.exists_reach_of_run (Model.new .default)
      (listTwoCodes ++ [(.selectNext, 0)]) ⟨_, rfl⟩ ?_
    decide
  obtain ⟨m, hreach, hmode, hany⟩ := hrun
  obtain ⟨row, hrow, hall⟩ := (Option.any_eq_true _ _).mp hany
  obtain ⟨hmasked, hidle⟩ := of_decide_eq_true hall
  exact ⟨m, row, hrow, hmasked, (footer_holds_iff hreach hmode hrow).mpr fun _ => hidle⟩

/-- Enter on the first of two code rows, which is under the highlight. -/
theorem App.chord_on_row_is_click_first : ∃ (s : App) (pane : FieldList) (row : FieldRow),
    s.world.model.fieldList 0 0 = some pane ∧ pane.rows[0]? = some row ∧
      ∀ c, s.update (.key { key := "Enter", modifiers := [] }) c = s.update (.core row.message) c := by
  have hrun : ∃ m, Model.system.Reach TransitionSystem.anyStep m ∧
      m.view.mode = .actions twoCodes.key 0 ∧ m.prefs.actionFor [] "Enter" = some .copyPrimary ∧
      (m.fieldList 0 0).any fun pane => pane.rows[0]?.isSome := by
    refine TransitionSystem.exists_reach_of_run (Model.new .default) listTwoCodes ⟨_, rfl⟩ ?_
    decide
  obtain ⟨m, -, hmode, henter, hany⟩ := hrun
  obtain ⟨pane, hpane, hsome⟩ := (Option.any_eq_true _ _).mp hany
  obtain ⟨row, hrow⟩ := Option.isSome_iff_exists.mp hsome
  let s : App := { App.new .default none 0 with world := { World.start .default none with model := m } }
  obtain ⟨entry, activation, -, hactivation, -, hclicks⟩ :=
    App.chord_on_row_is_click (s := s) hmode hpane hrow
  exact ⟨s, pane, row, hpane, hrow,
    hclicks .copyPrimary (Or.inr hactivation) { key := "Enter", modifiers := [] } (by decide) henter⟩

end Examples

end CosmicPass
