import CosmicPass.Core.Frame

/-!
# Which message touches which part of the state

The state falls into parts that hardly meet: the copy awaited, the field list and what it reveals, the
session, the data held, and the window. `Msg.touches` is the table of which message can change which
part; `update_untouched` is its soundness. A result about one part then only looks at the messages in
its column.
-/

namespace CosmicPass

inductive Part where
  | copy
  | reveal
  | session
  | data
  | window
deriving DecidableEq

/-- The later state has this part as the earlier one had it. -/
def Part.Same (m m' : Model) : Part → Prop
  | copy => m'.view.pending = m.view.pending ∧ m'.view.copying = m.view.copying
  | reveal => m'.view.mode = m.view.mode ∧ m'.view.revealed = m.view.revealed ∧
      m'.view.revealCancel = m.view.revealCancel ∧
      m'.view.revealTotpCancel = m.view.revealTotpCancel ∧ m'.nextReveal = m.nextReveal
  | session => m'.session = m.session ∧ m'.data.refreshing = m.data.refreshing
  | data => m'.data.vaults = m.data.vaults ∧ m'.data.items = m.data.items ∧
      m'.data.fetchedAt = m.data.fetchedAt ∧ m'.data.source = m.data.source ∧
      m'.data.cachedAt = m.data.cachedAt ∧ m'.usage = m.usage ∧ m'.dataAccount = m.dataAccount
  | window => m'.view.visible = m.view.visible ∧ m'.view.query = m.view.query

/-- The part whose waiting an effect starts or ends. -/
def Effect.part : Effect → Option Part
  | .fetchAndCopy _ _ _ _ | .fetchTotpAndCopy _ _ _ | .copy _ _ => some .copy
  | .fetchReveal _ _ _ _ _ | .fetchTotp _ _ => some .reveal
  | .refresh | .probeSession | .startLogin => some .session
  | .showWindow | .hideWindow => some .window
  | _ => none

/-- The parts a message can change, or ask for effects of. -/
def Msg.touches : Msg → List Part
  | .toggle => [.copy, .reveal, .session, .window]
  | .show => [.session, .window]
  | .hide | .escape | .copyFinished _ => [.copy, .reveal, .window]
  | .queryChanged _ => [.window]
  | .selectNext | .selectPrev | .pageDown | .pageUp | .openActions | .back | .toggleReveal
  | .revealFetched _ _ _ _ | .totpFetched _ _ | .tick _ | .openPreferences | .startRebind _
  | .chordCaptured _ => [.reveal]
  | .refreshRequested | .startup | .startLogin | .loginFinished _ => [.session]
  | .dataLoaded _ | .refreshFailed _ | .sessionProbed _ => [.reveal, .session, .data]
  | .cacheLoaded _ => [.reveal, .data]
  | .copyPrimary | .copyUsername | .copyTotp | .copyUrl | .activateAction _ => [.copy]
  | .copyFetched _ _ => [.copy, .reveal, .session, .data]
  | .select _ | .noticeExpired _ | .versionProbed _ | .loginLine _ | .adjustClipboardClear _
  | .resetShortcuts | .prefsLoaded _ => []

namespace Part.Same

theorem refl (m : Model) (part : Part) : part.Same m m := by
  cases part <;> simp [Part.Same]

theorem trans {part : Part} {a b c : Model} (hab : part.Same a b) (hbc : part.Same b c) :
    part.Same a c := by
  cases part <;> simp_all [Part.Same]

end Part.Same

namespace Model

/-- A method that leaves a part as it was, and asks for no effect of it. -/
structure Untouched (part : Part) (m : Model) (r : Model × List Effect) : Prop where
  same : part.Same m r.1
  effects : ∀ effect ∈ r.2, effect.part ≠ some part

namespace Untouched

variable {part : Part} {m : Model}

theorem quiet {m' : Model} (h : part.Same m m') : Untouched part m (m', []) :=
  ⟨h, by simp⟩

theorem cons {m' : Model} {effect : Effect} {effects : List Effect}
    (h : Untouched part m (m', effects)) (heffect : effect.part ≠ some part) :
    Untouched part m (m', effect :: effects) := by
  refine ⟨h.same, fun other hmem => ?_⟩
  rcases List.mem_cons.mp hmem with rfl | hmem
  · exact heffect
  · exact h.effects other hmem

theorem after {m' : Model} {r : Model × List Effect} (hsame : part.Same m m')
    (h : Untouched part m' r) : Untouched part m r :=
  ⟨hsame.trans h.same, h.effects⟩

end Untouched

section Methods

variable {part : Part} (m : Model)

theorem clearRevealed_same (hpart : part ≠ .reveal) : part.Same m m.clearRevealed := by
  cases part <;> simp [Part.Same, clearRevealed, dropReveal, cancelReveal] at hpart ⊢

theorem cancelPending_same (hpart : part ≠ .copy) : part.Same m m.cancelPending := by
  cases part <;> simp [Part.Same, cancelPending] at hpart ⊢

theorem leaveMode_same (hpart : part ≠ .reveal) : part.Same m m.leaveMode := by
  cases part <;> simp [Part.Same, leaveMode, clearRevealed, dropReveal, cancelReveal] at hpart ⊢

theorem dropStaleReveal_same (hpart : part ≠ .reveal) : part.Same m m.dropStaleReveal := by
  cases part <;> simp [Part.Same, dropStaleReveal_eq] at hpart ⊢

theorem requestRefresh_untouched (hpart : part ≠ .session) : Untouched part m m.requestRefresh := by
  refine ⟨?_, ?_⟩
  · rw [requestRefresh_fst]
    cases part <;> simp [Part.Same] at hpart ⊢
  · rw [requestRefresh_snd]
    split
    · simpa [Effect.part] using hpart.symm
    · simp

theorem show_untouched (hpart : part ∉ Msg.show.touches) (now : Int) :
    Untouched part m (m.show now) := by
  refine ⟨?_, ?_⟩
  · rw [show_fst]
    cases part <;> simp [Part.Same, Msg.touches] at hpart ⊢
  · rw [show_snd]
    split
    · simp
    · split <;> cases part <;> simp [Effect.part, Msg.touches] at hpart ⊢

theorem startCopy_untouched (hpart : part ≠ .copy) (key : ItemKey) (source : CopySource) :
    Untouched part m (m.startCopy key source) := by
  refine ⟨?_, ?_⟩
  · cases part <;> simp [Part.Same, startCopy, cancelPending] at hpart ⊢
  · cases source <;> simpa [startCopy, Effect.part] using hpart.symm

theorem notify_untouched (text : String) {effect : Effect} {m' : Model}
    (h : m.notify text = (m', effect)) : Untouched part m (m', [effect]) := by
  obtain ⟨rfl, rfl⟩ := Prod.mk.inj h
  cases part <;> exact ⟨by simp [Part.Same], by simp [Effect.part]⟩

theorem copyWith_untouched (hpart : part ≠ .copy) (pick : ItemSummary → Option CopySource)
    (missing : String) : Untouched part m (m.copyWith pick missing) := by
  unfold copyWith
  split
  next => exact .quiet (.refl m part)
  next item _ =>
    split
    next source _ => exact m.startCopy_untouched hpart item.key source
    next => exact m.notify_untouched missing rfl

theorem fetchTotp_untouched (hpart : part ≠ .reveal) : Untouched part m m.fetchTotp := by
  unfold fetchTotp
  split
  next =>
    refine ⟨?_, ?_⟩
    · cases part <;> simp [Part.Same] at hpart ⊢
    · simpa [Effect.part] using hpart.symm
  next => exact .quiet (.refl m part)

theorem fetchReveal_untouched (hpart : part ≠ .reveal) (key : ItemKey) (name : String)
    (index : Nat) : Untouched part m (m.fetchReveal key name index) := by
  have hcount : part.Same m { m with nextReveal := m.nextReveal + 1 } := by
    cases part <;> simp [Part.Same] at hpart ⊢
  unfold fetchReveal
  dsimp only
  split
  next => exact .quiet hcount
  next =>
    refine .after hcount ⟨?_, ?_⟩
    · cases part <;> simp [Part.Same] at hpart ⊢
    · simpa [Effect.part] using hpart.symm

theorem toggleReveal_untouched (hpart : part ≠ .reveal) : Untouched part m m.toggleReveal := by
  have hclear := m.clearRevealed_same hpart
  unfold toggleReveal
  split
  next =>
    split
    next => exact .quiet (.refl m part)
    next =>
      split
      · exact .quiet hclear
      · split
        next => exact .after hclear (fetchTotp_untouched _ hpart)
        next =>
          split
          · exact .after hclear (fetchReveal_untouched _ hpart _ _ _)
          · exact .quiet hclear
        next => exact .quiet hclear
  next => exact .quiet (.refl m part)

theorem revealFetched_untouched (hpart : part ≠ .reveal) (key : ItemKey) (index generation : Nat)
    (result : Except PassError SecretString) :
    Untouched part m (m.revealFetched key index generation result) := by
  unfold revealFetched
  dsimp only
  split
  · exact .quiet (.refl m part)
  · split
    next =>
      split <;> exact .quiet (by cases part <;> simp [Part.Same] at hpart ⊢)
    next => exact .quiet (by cases part <;> simp [Part.Same] at hpart ⊢)
    next => exact .after (by cases part <;> simp [Part.Same] at hpart ⊢) (notify_untouched _ _ rfl)

theorem totpFetchSettled_same (hpart : part ≠ .reveal) : part.Same m m.totpFetchSettled := by
  unfold totpFetchSettled
  split
  · cases part <;> simp [Part.Same] at hpart ⊢
  · exact .refl m part

theorem totpFetched_untouched (hpart : part ≠ .reveal) (key : ItemKey)
    (result : Except PassError Codes) (now : Int) :
    Untouched part m (m.totpFetched key result now) := by
  unfold totpFetched
  split
  · exact .quiet (.refl m part)
  · split
    next => exact .quiet (by cases part <;> simp [Part.Same] at hpart ⊢)
    next => exact .quiet (m.totpFetchSettled_same hpart)
    next => exact .after (m.totpFetchSettled_same hpart) (notify_untouched _ _ rfl)

theorem moveSelection_untouched (hpart : part ≠ .reveal) (delta : Int) :
    Untouched part m (m.moveSelection delta) := by
  unfold moveSelection
  split
  next =>
    refine .quiet ((m.clearRevealed_same hpart).trans ?_)
    cases part <;> simp [Part.Same] at hpart ⊢
  next =>
    dsimp only
    split <;> exact .quiet (by cases part <;> simp [Part.Same])

section Search

variable [TextSupport]

theorem hide_untouched (hpart : part ∉ Msg.hide.touches) : Untouched part m m.hide := by
  refine ⟨?_, ?_⟩
  · cases part <;> simp [Part.Same, Msg.touches, hide, leaveMode, clearRevealed, dropReveal,
      cancelReveal, cancelPending, recomputeResults] at hpart ⊢
  · cases part <;> simp [Msg.touches, hide, Effect.part] at hpart ⊢

theorem replaceItems_same (hreveal : part ≠ .reveal) (hdata : part ≠ .data) (listing : Listing) :
    part.Same m (m.replaceItems listing) := by
  refine Part.Same.trans ?_ (dropStaleReveal_same _ hreveal)
  cases part <;> simp [Part.Same, recomputeResults] at hdata ⊢

theorem clearData_same (hreveal : part ≠ .reveal) (hdata : part ≠ .data) :
    part.Same m m.clearData := by
  cases part <;> simp [Part.Same, clearData, clearRevealed, dropReveal, cancelReveal,
    recomputeResults] at hreveal hdata ⊢

theorem sessionError_untouched (hpart : part ∉ [Part.reveal, .session, .data])
    (error : PassError) : Untouched part m (m.sessionError error) := by
  simp only [List.mem_cons, List.not_mem_nil, or_false, not_or] at hpart
  obtain ⟨hreveal, hsession, hdata⟩ := hpart
  have hother : ∀ session data, part.Same m { m with session, data } := by
    intro session data
    cases part <;> simp [Part.Same] at hsession hdata ⊢
  unfold sessionError
  split
  next =>
    refine .cons (.quiet ((hother .signedOut m.data).trans (clearData_same _ hreveal hdata))) ?_
    simp [Effect.part]
  all_goals exact .quiet (hother _ _)

theorem signedIn_untouched (hpart : part ∉ [Part.reveal, .session, .data]) (account : AccountId) :
    Untouched part m (m.signedIn account) := by
  simp only [List.mem_cons, List.not_mem_nil, or_false, not_or] at hpart
  obtain ⟨hreveal, hsession, hdata⟩ := hpart
  have hname : ∀ m : Model,
      part.Same m { m with session := .signedIn account, dataAccount := some account } := by
    intro m
    cases part <;> simp [Part.Same] at hsession hdata ⊢
  unfold signedIn
  dsimp only
  split
  · exact .cons (.after ((m.clearData_same hreveal hdata).trans (hname _))
      (requestRefresh_untouched _ hsession)) (by simp [Effect.part])
  · exact .after (hname m) (requestRefresh_untouched _ hsession)

theorem sessionProbed_untouched (hpart : part ∉ [Part.reveal, .session, .data])
    (result : Except PassError AccountId) : Untouched part m (m.sessionProbed result) := by
  unfold sessionProbed
  split
  next account => exact m.signedIn_untouched hpart account
  next error =>
    have herror := m.sessionError_untouched hpart error
    have hsession : ∀ {m : Model} (session : SessionState), part.Same m { m with session } := by
      intro m session
      cases part <;> simp [Part.Same] at hpart ⊢
    dsimp only
    split
    next => exact ⟨herror.same.trans (hsession _), herror.effects⟩
    next => exact ⟨herror.same.trans (hsession _), herror.effects⟩
    next => exact herror

theorem cacheLoaded_untouched (hpart : part ∉ [Part.reveal, .data]) (file : Option CacheFile) :
    Untouched part m (m.cacheLoaded file) := by
  simp only [List.mem_cons, List.not_mem_nil, or_false, not_or] at hpart
  unfold cacheLoaded
  split
  next => exact .quiet (.refl m part)
  next =>
    split
    · exact .quiet (.refl m part)
    · split
      · exact .cons (.quiet (.refl m part)) (by simp [Effect.part])
      · refine .quiet (Part.Same.trans ?_ (replaceItems_same _ hpart.1 hpart.2 _))
        cases part <;> simp [Part.Same] at hpart ⊢

theorem dataLoaded_untouched (hpart : part ∉ [Part.reveal, .session, .data]) (listing : Listing)
    (now : Int) : Untouched part m (m.dataLoaded listing now) := by
  simp only [List.mem_cons, List.not_mem_nil, or_false, not_or] at hpart
  obtain ⟨hreveal, hsession, hdata⟩ := hpart
  refine .cons (.quiet (Part.Same.trans ?_ (replaceItems_same _ hreveal hdata _)))
    (by simp [Effect.part])
  cases part <;> simp [Part.Same] at hsession hdata ⊢

theorem copySettled_error_untouched (hpart : part ∉ [Part.reveal, .session, .data])
    (key : ItemKey) (secret : Bool) (error : PassError) (now : Int) :
    Untouched part m (m.copySettled key secret (.error error) now) := by
  have hsession : part ≠ .session := fun h => hpart (by simp [h])
  unfold copySettled
  split
  next hok => simp at hok
  next => exact .quiet (.refl m part)
  next =>
    exact .cons (.after (notify_untouched _ _ rfl).same (requestRefresh_untouched _ hsession))
      (by simp [Effect.part])
  next => exact notify_untouched _ _ rfl
  next other _ _ _ _ =>
    exact .cons (.after (notify_untouched _ other.toText rfl).same
      (sessionError_untouched _ hpart other)) (by simp [Effect.part])

theorem copyFetched_untouched (hpart : part ∉ [Part.copy, .reveal, .session, .data])
    (key : ItemKey) (result : Except PassError SecretString) (now : Int) :
    Untouched part m (m.copyFetched key result now) := by
  rw [List.mem_cons, not_or] at hpart
  obtain ⟨hcopy, hrest⟩ := hpart
  have hdata : part ≠ .data := fun h => hrest (by simp [h])
  have hsettled : part.Same m { m with view := { m.view with pending := none } } := by
    cases part <;> simp [Part.Same] at hcopy ⊢
  unfold copyFetched
  split
  next => exact .quiet (.refl m part)
  next =>
    split
    · refine .after hsettled ?_
      cases result with
      | ok value =>
          refine ⟨?_, ?_⟩
          · cases part <;> simp [Part.Same, copySettled, finishCopy] at hcopy hdata ⊢
          · simpa [copySettled, finishCopy, Effect.part] using Ne.symm hcopy
      | error error => exact copySettled_error_untouched _ hrest key _ error now
    · exact .quiet (.refl m part)

theorem savePrefs_untouched (prefs : Preferences) : Untouched part m (m.savePrefs prefs) := by
  refine ⟨?_, fun effect hmem => ?_⟩
  · obtain ⟨_, _, h⟩ := m.savePrefs_cases prefs
    rw [h]
    cases part <;> simp [Part.Same]
  · obtain ⟨_, rfl⟩ := m.mem_savePrefs hmem
    simp [Effect.part]

theorem chordCaptured_untouched (hpart : part ≠ .reveal) (chord : KeyChord) :
    Untouched part m (m.chordCaptured chord) := by
  unfold chordCaptured
  split
  next =>
    split
    next => exact m.notify_untouched _ rfl
    next =>
      refine .after ?_ (savePrefs_untouched _ _)
      cases part <;> simp [Part.Same] at hpart ⊢
  next => exact .quiet (.refl m part)

theorem escape_untouched (hpart : part ∉ Msg.escape.touches) : Untouched part m m.escape := by
  unfold escape
  split
  · exact .quiet (m.cancelPending_same fun h => hpart (by simp [h, Msg.touches]))
  · split
    next => exact .quiet (by cases part <;> simp [Part.Same, Msg.touches] at hpart ⊢)
    next => exact m.hide_untouched hpart
    next => exact .quiet (m.leaveMode_same fun h => hpart (by simp [h, Msg.touches]))

theorem copyFinished_untouched (hpart : part ∉ Msg.hide.touches) (result : Except String Unit) :
    Untouched part m (m.copyFinished result) := by
  unfold copyFinished copyConfirmed
  split
  next =>
    split
    · exact m.hide_untouched hpart
    · exact .quiet (.refl m part)
  next => exact m.notify_untouched _ rfl

/-- **The table is sound.** A message changes no part it is not listed to touch, and asks for no
effect of it. -/
theorem update_untouched (msg : Msg) (now : Int) (hpart : part ∉ msg.touches) :
    Untouched part m (m.update msg now) := by
  cases msg with
  | toggle =>
      rw [update]
      split
      · exact m.hide_untouched (by simp [Msg.touches] at hpart ⊢; tauto)
      · exact m.show_untouched (by simp [Msg.touches] at hpart ⊢; tauto) now
  | «show» => exact m.show_untouched hpart now
  | hide => exact m.hide_untouched hpart
  | selectNext | selectPrev | pageDown | pageUp =>
      exact m.moveSelection_untouched (by simpa [Msg.touches] using hpart) _
  | refreshRequested => exact m.requestRefresh_untouched (by simpa [Msg.touches] using hpart)
  | dataLoaded listing => exact m.dataLoaded_untouched hpart listing now
  | cacheLoaded file => exact m.cacheLoaded_untouched hpart file
  | refreshFailed error =>
      refine .after ?_ (sessionError_untouched _ hpart error)
      cases part <;> simp [Part.Same, Msg.touches] at hpart ⊢
  | sessionProbed result => exact m.sessionProbed_untouched hpart result
  | copyPrimary | copyUsername | copyTotp | copyUrl =>
      exact m.copyWith_untouched (by simpa [Msg.touches] using hpart) _ _
  | copyFetched key result => exact m.copyFetched_untouched hpart key result now
  | copyFinished result => exact m.copyFinished_untouched hpart result
  | escape => exact m.escape_untouched hpart
  | activateAction index =>
      simp only [update, activateAction]
      split
      next =>
        split
        · exact m.startCopy_untouched (by simpa [Msg.touches] using hpart) _ _
        · exact .quiet (.refl m part)
      next => exact .quiet (.refl m part)
  | back => exact .quiet (m.leaveMode_same (by simpa [Msg.touches] using hpart))
  | openPreferences =>
      refine .quiet ((m.leaveMode_same (by simpa [Msg.touches] using hpart)).trans ?_)
      cases part <;> simp [Part.Same, Msg.touches] at hpart ⊢
  | toggleReveal => exact m.toggleReveal_untouched (by simpa [Msg.touches] using hpart)
  | revealFetched key index generation result =>
      exact m.revealFetched_untouched (by simpa [Msg.touches] using hpart) key index generation result
  | totpFetched key result =>
      exact m.totpFetched_untouched (by simpa [Msg.touches] using hpart) key result now
  | tick _ =>
      simp only [update, tick]
      split
      · exact m.fetchTotp_untouched (by simpa [Msg.touches] using hpart)
      · exact .quiet (.refl m part)
  | adjustClipboardClear | resetShortcuts => exact m.savePrefs_untouched _
  | prefsLoaded prefs =>
      obtain ⟨_, _, h⟩ := m.applyPrefs_cases prefs.validated
      simp only [update, h]
      exact .quiet (by cases part <;> simp [Part.Same])
  | chordCaptured chord =>
      exact m.chordCaptured_untouched (by simpa [Msg.touches] using hpart) chord
  | startup | queryChanged | versionProbed =>
      refine ⟨?_, ?_⟩ <;>
        cases part <;> simp [Part.Same, Msg.touches, update, startup, versionProbed,
          recomputeResults, Effect.part] at hpart ⊢
  | loginFinished result =>
      cases result <;> refine ⟨?_, ?_⟩ <;>
        cases part <;> simp [Part.Same, Msg.touches, update, loginFinished, Effect.part] at hpart ⊢
  | select | noticeExpired | loginLine | openActions | startRebind =>
      simp only [update, loginLine, openActions]
      split <;> exact .quiet (by cases part <;> simp [Part.Same, Msg.touches] at hpart ⊢)
  | startLogin =>
      simp only [update, startLogin]
      split
      · refine ⟨?_, ?_⟩ <;>
          cases part <;> simp [Part.Same, Msg.touches, Effect.part] at hpart ⊢
      · exact .quiet (.refl m part)

end Search

end Methods

end Model

end CosmicPass
