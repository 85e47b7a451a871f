import CosmicPass.Core.Frame

/-!
# Who holds a cancellation token

The state holds at most three tokens: the pending copy's, the reveal's and the one-time code's. They
are pairwise different, none of them has been cancelled, and a token is never handed out twice. So
cancelling one fetch never stops another, and a fetch the state still waits for has a live token.
-/

namespace CosmicPass

/-- The flags after some more tokens were handed out or cancelled. -/
structure Tokens.Extends (before after : Tokens) : Prop where
  next : before.next ≤ after.next
  cancelled : before.cancelled ⊆ after.cancelled

namespace Tokens.Extends

theorem refl (tokens : Tokens) : tokens.Extends tokens := ⟨le_rfl, List.Subset.refl _⟩

theorem trans {a b c : Tokens} (hab : a.Extends b) (hbc : b.Extends c) : a.Extends c :=
  ⟨hab.next.trans hbc.next, List.Subset.trans hab.cancelled hbc.cancelled⟩

theorem cancel (tokens : Tokens) (held : Option CancellationToken) :
    tokens.Extends (tokens.cancel held) :=
  ⟨le_rfl, List.subset_append_right _ _⟩

theorem advance (tokens : Tokens) : tokens.Extends tokens.advance :=
  ⟨Nat.le_succ _, List.Subset.refl _⟩

end Tokens.Extends

/-- The tokens a state holds, and the flags of all tokens. -/
structure Held where
  pending : Option CancellationToken
  reveal : Option CancellationToken
  totp : Option CancellationToken
  tokens : Tokens

namespace Held

def list (h : Held) : List CancellationToken :=
  h.pending.toList ++ h.reveal.toList ++ h.totp.toList

/-- What is held is live, and no slot holds another's token. -/
structure Owned (h : Held) : Prop where
  nodup : h.list.Nodup
  live : ∀ token ∈ h.list, token < h.tokens.next ∧ ¬ h.tokens.IsCancelled token
  spent : ∀ token ∈ h.tokens.cancelled, token < h.tokens.next

variable {h : Held}

theorem Owned.sublist (howned : h.Owned) {h' : Held} (hlist : h'.list.Sublist h.list)
    (htokens : h'.tokens = h.tokens) : h'.Owned where
  nodup := howned.nodup.sublist hlist
  live token hmem := htokens ▸ howned.live token (hlist.subset hmem)
  spent := htokens ▸ howned.spent

theorem Owned.cancel (howned : h.Owned) {h' : Held} {gone : Option CancellationToken}
    (hlist : (gone.toList ++ h'.list).Perm h.list) (htokens : h'.tokens = h.tokens.cancel gone) :
    h'.Owned := by
  have hnodup := hlist.nodup_iff.mpr howned.nodup
  rw [List.nodup_append] at hnodup
  obtain ⟨-, hrest, hdisjoint⟩ := hnodup
  refine ⟨hrest, ?_, ?_⟩
  · intro token hmem
    obtain ⟨hlt, hlive⟩ := howned.live token (hlist.subset (List.mem_append_right _ hmem))
    refine ⟨by simpa [htokens, Tokens.cancel] using hlt, ?_⟩
    rw [htokens]
    intro hcancelled
    rcases List.mem_append.mp hcancelled with hgone | hold
    · exact hdisjoint token hgone token hmem rfl
    · exact hlive hold
  · intro token hmem
    rw [htokens] at hmem ⊢
    rcases List.mem_append.mp hmem with hgone | hold
    · exact (howned.live token (hlist.subset (List.mem_append_left _ hgone))).1
    · exact howned.spent token hold

theorem Owned.fresh (howned : h.Owned) {h' : Held}
    (hlist : h'.list.Perm (h.tokens.next :: h.list)) (htokens : h'.tokens = h.tokens.advance) :
    h'.Owned := by
  refine ⟨?_, ?_, ?_⟩
  · rw [hlist.nodup_iff, List.nodup_cons]
    exact ⟨fun hmem => (howned.live _ hmem).1.false, howned.nodup⟩
  · intro token hmem
    rw [htokens]
    rcases List.mem_cons.mp (hlist.subset hmem) with rfl | hold
    · exact ⟨Nat.lt_succ_self _, fun hcancelled => (howned.spent _ hcancelled).false⟩
    · exact ⟨Nat.lt_succ_of_lt (howned.live token hold).1, (howned.live token hold).2⟩
  · intro token hmem
    rw [htokens] at hmem ⊢
    exact Nat.lt_succ_of_lt (howned.spent token hmem)

/-- The later slots follow from the earlier ones by handing out, cancelling and letting go. -/
structure Evolves (h h' : Held) : Prop where
  owned : h.Owned → h'.Owned
  extends_tokens : h.tokens.Extends h'.tokens

namespace Evolves

theorem refl (h : Held) : h.Evolves h := ⟨id, .refl _⟩

theorem trans {a b c : Held} (hab : a.Evolves b) (hbc : b.Evolves c) : a.Evolves c :=
  ⟨hbc.owned ∘ hab.owned, hab.extends_tokens.trans hbc.extends_tokens⟩

theorem sublist {h' : Held} (hlist : h'.list.Sublist h.list) (htokens : h'.tokens = h.tokens) :
    h.Evolves h' :=
  ⟨fun howned => howned.sublist hlist htokens, htokens ▸ .refl _⟩

theorem cancel {h' : Held} (gone : Option CancellationToken)
    (hlist : (gone.toList ++ h'.list).Perm h.list) (htokens : h'.tokens = h.tokens.cancel gone) :
    h.Evolves h' :=
  ⟨fun howned => howned.cancel hlist htokens, htokens ▸ .cancel _ _⟩

theorem fresh {h' : Held} (hlist : h'.list.Perm (h.tokens.next :: h.list))
    (htokens : h'.tokens = h.tokens.advance) : h.Evolves h' :=
  ⟨fun howned => howned.fresh hlist htokens, htokens ▸ .advance _⟩

end Evolves

end Held

namespace Model

def held (m : Model) : Held :=
  { pending := m.view.pending.map (·.cancel)
    reveal := m.view.revealCancel
    totp := m.view.revealTotpCancel
    tokens := m.tokens }

variable (m : Model)

theorem cancelReveal_evolves : m.held.Evolves m.cancelReveal.held := by
  refine .cancel m.view.revealCancel ?_ rfl
  simp only [held, Held.list, cancelReveal, Option.toList_none, List.append_nil]
  rw [← List.append_assoc]
  exact (List.perm_append_comm).append_right _

theorem clearRevealed_evolves : m.held.Evolves m.clearRevealed.held := by
  refine (m.cancelReveal_evolves).trans (.cancel m.view.revealTotpCancel ?_ rfl)
  simp only [held, Held.list, clearRevealed, dropReveal, cancelReveal, Option.toList_none,
    List.append_nil]
  exact List.perm_append_comm

theorem cancelPending_evolves : m.held.Evolves m.cancelPending.held := by
  refine .cancel (m.view.pending.map (·.cancel)) ?_ rfl
  simp [held, Held.list, cancelPending]

theorem dropStaleReveal_evolves : m.held.Evolves m.dropStaleReveal.held := by
  unfold dropStaleReveal
  split
  next => exact .refl _
  next =>
    split
    · exact .refl _
    · exact m.cancelReveal_evolves

theorem startCopy_evolves (key : ItemKey) (source : CopySource) :
    m.held.Evolves (m.startCopy key source).1.held := by
  refine m.cancelPending_evolves.trans (.fresh ?_ rfl)
  simp [held, Held.list, startCopy, cancelPending, Tokens.fresh, Tokens.cancel]

theorem fetchReveal_evolves (key : ItemKey) (name : String) (index : Nat)
    (hidle : m.view.revealCancel = none) :
    m.held.Evolves (m.fetchReveal key name index).1.held := by
  unfold fetchReveal
  dsimp only
  split
  next => exact .refl _
  next =>
    refine .fresh ?_ rfl
    simp only [held, Held.list, Tokens.fresh, hidle, Option.toList_none, Option.toList_some,
      List.append_nil, List.append_assoc]
    exact List.perm_middle

theorem fetchTotp_evolves : m.held.Evolves m.fetchTotp.1.held := by
  unfold fetchTotp
  split
  next =>
    cases htotp : m.view.revealTotpCancel with
    | none =>
        refine .fresh ?_ (by simp [held])
        simp only [held, Held.list, revealTotpToken, htotp, Option.getD_none, Option.toList_some,
          Option.toList_none, List.append_nil, Tokens.fresh]
        exact List.perm_append_singleton _ _
    | some token =>
        refine .sublist ?_ (by simp [held])
        simp [held, Held.list, revealTotpToken, htotp]
  next => exact .refl _

theorem evolves_of_held_eq {m m' : Model} (h : m'.held = m.held) : m.held.Evolves m'.held :=
  h ▸ .refl _

theorem evolves_after {m before m' : Model} (hlater : before.held.Evolves m'.held)
    (h : before.held = m.held) : m.held.Evolves m'.held :=
  h ▸ hlater

theorem requestRefresh_held : m.requestRefresh.1.held = m.held := by rw [requestRefresh_fst]; rfl

theorem show_held (now : Int) : (m.show now).1.held = m.held := by rw [show_fst]; rfl

theorem copyWith_evolves (pick : ItemSummary → Option CopySource) (missing : String) :
    m.held.Evolves (m.copyWith pick missing).1.held := by
  unfold copyWith
  split
  next => exact .refl _
  next =>
    split
    · exact startCopy_evolves _ _ _
    · exact .refl _

theorem moveSelection_evolves (delta : Int) :
    m.held.Evolves (m.moveSelection delta).1.held := by
  unfold moveSelection
  split
  next => exact m.clearRevealed_evolves
  next =>
    dsimp only
    split <;> exact .refl _

theorem toggleReveal_evolves : m.held.Evolves m.toggleReveal.1.held := by
  unfold toggleReveal
  split
  next =>
    split
    next => exact .refl _
    next =>
      split
      · exact m.clearRevealed_evolves
      · split
        next => exact m.clearRevealed_evolves.trans (fetchTotp_evolves _)
        next =>
          split
          · exact m.clearRevealed_evolves.trans (fetchReveal_evolves _ _ _ _ rfl)
          · exact m.clearRevealed_evolves
        next => exact m.clearRevealed_evolves
  next => exact .refl _

theorem revealFetched_evolves (key : ItemKey) (index generation : Nat)
    (result : Except PassError SecretString) :
    m.held.Evolves (m.revealFetched key index generation result).1.held := by
  have hsettled : m.held.Evolves
      (held { m with view := { m.view with revealCancel := none } }) := by
    refine .sublist ?_ rfl
    simp [held, Held.list]
  unfold revealFetched
  dsimp only
  split
  · exact .refl _
  · split
    next =>
      split
      · exact hsettled
      · exact hsettled
    next => exact hsettled
    next => exact hsettled

theorem totpFetchSettled_held : m.totpFetchSettled.held = m.held := by
  unfold totpFetchSettled
  split <;> rfl

theorem totpFetched_held (key : ItemKey) (result : Except PassError Codes) (now : Int) :
    (m.totpFetched key result now).1.held = m.held := by
  unfold totpFetched
  split
  · rfl
  · split
    next => rfl
    next => exact m.totpFetchSettled_held
    next => exact m.totpFetchSettled_held

section Update

variable [TextSupport]

theorem hide_evolves : m.held.Evolves m.hide.1.held := by
  refine (m.cancelPending_evolves.trans (clearRevealed_evolves _)).trans (.sublist ?_ rfl)
  simp [held, Held.list, hide, recomputeResults]

theorem savePrefs_held (prefs : Preferences) : (m.savePrefs prefs).1.held = m.held := by
  obtain ⟨_, _, h⟩ := m.savePrefs_cases prefs
  rw [h]
  rfl

theorem applyPrefs_held (prefs : Preferences) : (m.applyPrefs prefs).held = m.held := by
  obtain ⟨_, _, h⟩ := m.applyPrefs_cases prefs
  rw [h]
  rfl

theorem clearData_evolves : m.held.Evolves m.clearData.held := by
  exact (m.clearRevealed_evolves)

theorem replaceItems_evolves (listing : Listing) :
    m.held.Evolves (m.replaceItems listing).held :=
  evolves_after (dropStaleReveal_evolves _) rfl

theorem sessionError_evolves (error : PassError) :
    m.held.Evolves (m.sessionError error).1.held := by
  unfold sessionError
  split
  next => exact (clearData_evolves _)
  all_goals exact .refl _

theorem signedIn_evolves (account : AccountId) :
    m.held.Evolves (m.signedIn account).1.held := by
  have hdrop : ∀ {dropped : Prop} [Decidable dropped], m.held.Evolves
      (if dropped then (m.clearData, [Effect.deleteCache]) else (m, [])).1.held := by
    intro dropped _
    split
    · exact m.clearData_evolves
    · exact .refl _
  exact hdrop.trans (evolves_of_held_eq (requestRefresh_held _))

theorem sessionProbed_evolves (result : Except PassError AccountId) :
    m.held.Evolves (m.sessionProbed result).1.held := by
  unfold sessionProbed
  split
  next account => exact m.signedIn_evolves account
  next error =>
    dsimp only
    split <;> exact m.sessionError_evolves error

theorem cacheLoaded_evolves (file : Option CacheFile) :
    m.held.Evolves (m.cacheLoaded file).1.held := by
  unfold cacheLoaded
  split
  next => exact .refl _
  next =>
    split
    · exact .refl _
    · split
      · exact .refl _
      · exact evolves_after (replaceItems_evolves _ _) rfl

theorem dataLoaded_evolves (listing : Listing) (now : Int) :
    m.held.Evolves (m.dataLoaded listing now).1.held :=
  evolves_after (replaceItems_evolves _ _) rfl

theorem copySettled_evolves (key : ItemKey) (secret : Bool)
    (result : Except PassError SecretString) (now : Int) :
    m.held.Evolves (m.copySettled key secret result now).1.held := by
  unfold copySettled
  split
  next => exact .refl _
  next => exact .refl _
  next => exact evolves_of_held_eq (requestRefresh_held _)
  next => exact .refl _
  next error _ _ _ => exact sessionError_evolves (m.notify error.toText).1 error

theorem copyFetched_evolves (key : ItemKey) (result : Except PassError SecretString)
    (now : Int) : m.held.Evolves (m.copyFetched key result now).1.held := by
  unfold copyFetched
  split
  next => exact .refl _
  next =>
    split
    · have hsettled : m.held.Evolves (held { m with view := { m.view with pending := none } }) :=
        .sublist (by simp [held, Held.list]) rfl
      exact hsettled.trans (copySettled_evolves _ _ _ _ _)
    · exact .refl _

theorem escape_evolves : m.held.Evolves m.escape.1.held := by
  unfold escape
  split
  · exact m.cancelPending_evolves
  · split
    next => exact .refl _
    next => exact m.hide_evolves
    next => exact m.clearRevealed_evolves

/-- **Tokens are only handed out, cancelled and let go of.** -/
theorem update_evolves (msg : Msg) (now : Int) : m.held.Evolves (m.update msg now).1.held := by
  cases msg with
  | toggle =>
      rw [update]
      split
      · exact m.hide_evolves
      · exact evolves_of_held_eq (m.show_held now)
  | «show» => exact evolves_of_held_eq (m.show_held now)
  | hide => exact m.hide_evolves
  | selectNext | selectPrev | pageDown | pageUp => exact m.moveSelection_evolves _
  | refreshRequested => exact evolves_of_held_eq m.requestRefresh_held
  | dataLoaded listing => exact m.dataLoaded_evolves listing now
  | cacheLoaded file => exact m.cacheLoaded_evolves file
  | refreshFailed error => exact evolves_after (sessionError_evolves _ error) rfl
  | sessionProbed result => exact m.sessionProbed_evolves result
  | copyPrimary | copyUsername | copyTotp | copyUrl => exact m.copyWith_evolves _ _
  | copyFetched key result => exact m.copyFetched_evolves key result now
  | copyFinished result =>
      cases result with
      | ok _ =>
          simp only [update, copyFinished, copyConfirmed]
          split
          · exact m.hide_evolves
          · exact .refl _
      | error _ => exact .refl _
  | escape => exact m.escape_evolves
  | activateAction index =>
      simp only [update, activateAction]
      split
      next =>
        split
        · exact m.startCopy_evolves _ _
        · exact .refl _
      next => exact .refl _
  | back | openPreferences => exact m.clearRevealed_evolves
  | toggleReveal => exact m.toggleReveal_evolves
  | revealFetched key index generation result =>
      exact m.revealFetched_evolves key index generation result
  | totpFetched key result => exact evolves_of_held_eq (m.totpFetched_held key result now)
  | tick _ =>
      simp only [update, tick]
      split
      · exact m.fetchTotp_evolves
      · exact .refl _
  | adjustClipboardClear | resetShortcuts => exact evolves_of_held_eq (m.savePrefs_held _)
  | prefsLoaded => exact evolves_of_held_eq (m.applyPrefs_held _)
  | chordCaptured =>
      simp only [update, chordCaptured]
      split
      next =>
        split
        · exact .refl _
        · exact evolves_of_held_eq (savePrefs_held _ _)
      next => exact .refl _
  | queryChanged | startup | versionProbed => exact .refl _
  | loginFinished result => cases result <;> exact .refl _
  | select | noticeExpired | startLogin | loginLine | openActions | startRebind =>
      simp only [update, startLogin, loginLine, openActions]
      split <;> exact .refl _

end Update

end Model

end CosmicPass
