import CosmicPass.Core.Frame

/-!
# The index follows the items, and the preferences follow their edits

Whatever a message does, the search index is afterwards the index of the items held, if it was before;
and the preferences are changed by five messages only. Both are the same walk over the reducer, so
they are carried together.
-/

namespace CosmicPass

namespace Model

section Index

variable [TextSupport]

def Indexed (m : Model) : Prop := m.index = SearchIndex.build m.data.items

/-- What every method that is not about preferences does to them and to the index. -/
structure Carries (m m' : Model) : Prop where
  prefs : m'.prefs = m.prefs
  indexed : m.Indexed → m'.Indexed

namespace Carries

theorem refl (m : Model) : Carries m m := ⟨rfl, id⟩

theorem trans {a b c : Model} (hab : Carries a b) (hbc : Carries b c) : Carries a c :=
  ⟨hbc.prefs.trans hab.prefs, hbc.indexed ∘ hab.indexed⟩

theorem of_eq {m m' : Model} (hprefs : m'.prefs = m.prefs) (hindex : m'.index = m.index)
    (hitems : m'.data.items = m.data.items) : Carries m m' :=
  ⟨hprefs, fun h => by rw [Indexed, hindex, hitems, h]⟩

end Carries

variable (m : Model)

theorem leaveMode_carries : Carries m m.leaveMode := .of_eq rfl rfl rfl

theorem clearRevealed_carries : Carries m m.clearRevealed := .of_eq rfl rfl rfl

theorem hide_carries : Carries m m.hide.1 := .of_eq rfl rfl rfl

theorem requestRefresh_carries : Carries m m.requestRefresh.1 := by
  rw [requestRefresh_fst]
  exact .of_eq rfl rfl rfl

theorem show_carries (now : Int) : Carries m (m.show now).1 := by
  rw [show_fst]
  exact .of_eq rfl rfl rfl

theorem moveSelection_carries (delta : Int) : Carries m (m.moveSelection delta).1 := by
  unfold moveSelection
  split
  · exact .of_eq rfl rfl rfl
  · dsimp only
    split <;> exact .of_eq rfl rfl rfl

theorem startCopy_carries (key : ItemKey) (source : CopySource) :
    Carries m (m.startCopy key source).1 := .of_eq rfl rfl rfl

theorem copyWith_carries (pick : ItemSummary → Option CopySource) (missing : String) :
    Carries m (m.copyWith pick missing).1 := by
  unfold copyWith
  split
  next => exact .refl m
  next item _ =>
    split
    · exact m.startCopy_carries item.key _
    · exact .of_eq rfl rfl rfl

theorem activateAction_carries (index : Option Nat) : Carries m (m.activateAction index).1 := by
  unfold activateAction
  split
  next =>
    split
    · exact m.startCopy_carries _ _
    · exact .refl m
  next => exact .refl m

theorem fetchTotp_carries : Carries m m.fetchTotp.1 := by
  unfold fetchTotp
  split
  · exact .of_eq rfl rfl rfl
  · exact .refl m

theorem fetchReveal_carries (key : ItemKey) (name : String) (index : Nat) :
    Carries m (m.fetchReveal key name index).1 := by
  unfold fetchReveal
  dsimp only
  split <;> exact .of_eq rfl rfl rfl

theorem toggleReveal_carries : Carries m m.toggleReveal.1 := by
  unfold toggleReveal
  split
  next =>
    split
    · exact .refl m
    · split
      · exact m.clearRevealed_carries
      · split
        next => exact m.clearRevealed_carries.trans (fetchTotp_carries _)
        next =>
          split
          · exact m.clearRevealed_carries.trans (fetchReveal_carries _ _ _ _)
          · exact m.clearRevealed_carries
        next => exact m.clearRevealed_carries
  next => exact .refl m

theorem revealFetched_carries (key : ItemKey) (index generation : Nat)
    (result : Except PassError SecretString) :
    Carries m (m.revealFetched key index generation result).1 := by
  unfold revealFetched
  dsimp only
  split
  · exact .refl m
  · split
    next => split <;> exact .of_eq rfl rfl rfl
    next => exact .of_eq rfl rfl rfl
    next => exact .of_eq rfl rfl rfl

theorem totpFetchSettled_carries : Carries m m.totpFetchSettled := by
  unfold totpFetchSettled
  split <;> exact .of_eq rfl rfl rfl

theorem totpFetched_carries (key : ItemKey) (result : Except PassError Codes) (now : Int) :
    Carries m (m.totpFetched key result now).1 := by
  unfold totpFetched
  split
  · exact .refl m
  · split
    next => exact .of_eq rfl rfl rfl
    next => exact m.totpFetchSettled_carries
    next => exact m.totpFetchSettled_carries.trans (.of_eq rfl rfl rfl)

theorem copyFinished_carries (result : Except String Unit) :
    Carries m (m.copyFinished result).1 := by
  unfold copyFinished copyConfirmed
  split
  next =>
    split
    · exact m.hide_carries
    · exact .refl m
  next => exact .of_eq rfl rfl rfl

theorem escape_carries : Carries m m.escape.1 := by
  unfold escape
  split
  · exact .of_eq rfl rfl rfl
  · split
    · exact .of_eq rfl rfl rfl
    · exact m.hide_carries
    · exact m.leaveMode_carries

theorem replaceItems_carries (listing : Listing) : Carries m (m.replaceItems listing) := by
  refine ⟨?_, fun _ => ?_⟩
  · simp only [replaceItems, dropStaleReveal_eq, recomputeResults]
  · simp only [Indexed, replaceItems, dropStaleReveal_eq, recomputeResults]

theorem clearData_carries : Carries m m.clearData := ⟨rfl, fun _ => rfl⟩

theorem sessionError_carries (error : PassError) : Carries m (m.sessionError error).1 := by
  unfold sessionError
  split
  next =>
    refine .trans ?_ (clearData_carries _)
    exact .of_eq rfl rfl rfl
  all_goals exact .of_eq rfl rfl rfl

theorem signedIn_carries (account : AccountId) : Carries m (m.signedIn account).1 := by
  have hnamed : ∀ m : Model, Carries m (requestRefresh
      { m with session := .signedIn account, dataAccount := some account }).1 := by
    intro m
    refine .trans ?_ (requestRefresh_carries _)
    exact .of_eq rfl rfl rfl
  unfold signedIn
  dsimp only
  split
  · exact m.clearData_carries.trans (hnamed _)
  · exact hnamed m

theorem sessionProbed_carries (result : Except PassError AccountId) :
    Carries m (m.sessionProbed result).1 := by
  unfold sessionProbed
  split
  next account => exact m.signedIn_carries account
  next error =>
    have herror := m.sessionError_carries error
    dsimp only
    split
    · exact herror.trans (.of_eq rfl rfl rfl)
    · exact herror.trans (.of_eq rfl rfl rfl)
    · exact herror

theorem cacheLoaded_carries (file : Option CacheFile) : Carries m (m.cacheLoaded file).1 := by
  unfold cacheLoaded
  split
  next => exact .refl m
  next =>
    split
    · exact .refl m
    · split
      · exact .refl m
      · refine .trans ?_ (replaceItems_carries _ _)
        exact .of_eq rfl rfl rfl

theorem dataLoaded_carries (listing : Listing) (now : Int) :
    Carries m (m.dataLoaded listing now).1 := by
  refine .trans ?_ (replaceItems_carries _ listing)
  exact .of_eq rfl rfl rfl

theorem copyFetched_carries (key : ItemKey) (result : Except PassError SecretString) (now : Int) :
    Carries m (m.copyFetched key result now).1 := by
  unfold copyFetched
  split
  next => exact .refl m
  next =>
    split
    next =>
      refine .trans (.of_eq rfl rfl rfl : Carries m { m with view := { m.view with pending := none } }) ?_
      unfold copySettled
      split
      next => exact .of_eq rfl rfl rfl
      next => exact .refl _
      next =>
        refine .trans ?_ (requestRefresh_carries _)
        exact .of_eq rfl rfl rfl
      next => exact .of_eq rfl rfl rfl
      next =>
        refine .trans ?_ (sessionError_carries _ _)
        exact .of_eq rfl rfl rfl
    next => exact .refl m

/-- The preferences a message leaves behind. -/
def editedPrefs (m : Model) : Msg → Preferences
  | .adjustClipboardClear delta =>
      let next := (max (saturateI64 (m.prefs.clipboardClearSecs + delta)) 0).toNat
      { m.prefs with clipboardClearSecs := min next u32Max }.validated
  | .chordCaptured chord =>
      match m.view.mode with
      | .preferences (some action) =>
          match m.prefs.conflict action chord with
          | some _ => m.prefs
          | none => { m.prefs with shortcuts := m.prefs.shortcuts.insert action chord }.validated
      | _ => m.prefs
  | .resetShortcuts => { m.prefs with shortcuts := Preferences.default.shortcuts }.validated
  | .prefsLoaded prefs => prefs.validated
  | _ => m.prefs

theorem savePrefs_indexed (prefs : Preferences) (h : m.Indexed) : (m.savePrefs prefs).1.Indexed := by
  obtain ⟨_, _, heq⟩ := m.savePrefs_cases prefs
  rw [heq]
  exact h

theorem savePrefs_prefs (prefs : Preferences) : (m.savePrefs prefs).1.prefs = prefs.validated := by
  obtain ⟨_, _, heq⟩ := m.savePrefs_cases prefs
  rw [heq]

theorem adjustClipboardClear_eq (delta : Int) :
    m.adjustClipboardClear delta = m.savePrefs
      { m.prefs with
        clipboardClearSecs :=
          min (max (saturateI64 (m.prefs.clipboardClearSecs + delta)) 0).toNat u32Max } := by
  unfold adjustClipboardClear
  dsimp only
  split
  next hle => rw [min_eq_left hle]
  next hgt => rw [min_eq_right (not_le.mp hgt).le]

/-- **The preferences follow their edits, and the index follows the items.** -/
theorem update_prefs_indexed (msg : Msg) (now : Int) :
    (m.update msg now).1.prefs = m.editedPrefs msg ∧
      (m.Indexed → (m.update msg now).1.Indexed) := by
  have hcarries : ∀ {m' : Model}, Carries m m' → m'.prefs = m.prefs ∧ (m.Indexed → m'.Indexed) :=
    fun h => ⟨h.prefs, h.indexed⟩
  cases msg with
  | toggle =>
      simp only [update]
      split
      · exact hcarries m.hide_carries
      · exact hcarries (m.show_carries now)
  | «show» => exact hcarries (m.show_carries now)
  | hide => exact hcarries m.hide_carries
  | queryChanged | startup | versionProbed | openPreferences | back =>
      exact hcarries (.of_eq rfl rfl rfl)
  | selectNext | selectPrev | pageDown | pageUp => exact hcarries (m.moveSelection_carries _)
  | select | noticeExpired | loginLine | openActions | startRebind | startLogin =>
      simp only [update, loginLine, openActions, startLogin]
      split <;> exact hcarries (.of_eq rfl rfl rfl)
  | loginFinished result => cases result <;> exact hcarries (.of_eq rfl rfl rfl)
  | refreshRequested => exact hcarries m.requestRefresh_carries
  | dataLoaded listing => exact hcarries (m.dataLoaded_carries listing now)
  | cacheLoaded file => exact hcarries (m.cacheLoaded_carries file)
  | refreshFailed error =>
      refine hcarries (.trans ?_ (sessionError_carries _ error))
      exact .of_eq rfl rfl rfl
  | sessionProbed result => exact hcarries (m.sessionProbed_carries result)
  | copyPrimary | copyUsername | copyTotp | copyUrl => exact hcarries (m.copyWith_carries _ _)
  | activateAction index => exact hcarries (m.activateAction_carries index)
  | copyFetched key result => exact hcarries (m.copyFetched_carries key result now)
  | copyFinished result => exact hcarries (m.copyFinished_carries result)
  | escape => exact hcarries m.escape_carries
  | toggleReveal => exact hcarries m.toggleReveal_carries
  | revealFetched key index generation result =>
      exact hcarries (m.revealFetched_carries key index generation result)
  | totpFetched key result => exact hcarries (m.totpFetched_carries key result now)
  | tick =>
      simp only [update, tick]
      split
      · exact hcarries m.fetchTotp_carries
      · exact hcarries (.refl m)
  | adjustClipboardClear delta =>
      simp only [update, adjustClipboardClear_eq]
      exact ⟨m.savePrefs_prefs _, m.savePrefs_indexed _⟩
  | resetShortcuts => exact ⟨m.savePrefs_prefs _, m.savePrefs_indexed _⟩
  | prefsLoaded prefs =>
      obtain ⟨_, _, heq⟩ := m.applyPrefs_cases prefs.validated
      simp only [update, heq]
      exact ⟨rfl, id⟩
  | chordCaptured chord =>
      cases hmode : m.view.mode with
      | list | actions => simp [update, chordCaptured, editedPrefs, hmode]
      | preferences rebinding =>
          cases rebinding with
          | none => simp [update, chordCaptured, editedPrefs, hmode]
          | some action =>
              cases hconflict : m.prefs.conflict action chord with
              | some other =>
                  simp only [update, chordCaptured, editedPrefs, hmode, hconflict]
                  exact hcarries (.of_eq rfl rfl rfl)
              | none =>
                  simp only [update, chordCaptured, editedPrefs, hmode, hconflict]
                  exact ⟨savePrefs_prefs _ _, fun h => savePrefs_indexed _ _ h⟩

theorem update_prefs (msg : Msg) (now : Int) : (m.update msg now).1.prefs = m.editedPrefs msg :=
  (m.update_prefs_indexed msg now).1

theorem update_indexed (msg : Msg) (now : Int) (h : m.Indexed) : (m.update msg now).1.Indexed :=
  (m.update_prefs_indexed msg now).2 h

end Index

end Model

end CosmicPass
