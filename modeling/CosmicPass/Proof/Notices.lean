import CosmicPass.Proof.Flights

/-!
# Notices and their timers

A notice goes away by itself: posting one asks for a timer of its own, numbered like it. What a
message does to the notice is one of three things, and only the last asks for a timer: nothing,
taking it off with the window, or posting the next one. So the numbers on the timers under way are
all different, and the notice on screen has exactly one of them.
-/

namespace CosmicPass

/-- The notice a timer takes off the screen. -/
def Effect.expires? : Effect → Option Nat
  | .expireNotice id _ => some id
  | _ => none

namespace Model

/-- Leaves the notice as it is. -/
structure Silent (m : Model) (r : Model × List Effect) : Prop where
  notice : r.1.view.notice = m.view.notice
  count : r.1.nextNotice = m.nextNotice
  effects : ∀ effect ∈ r.2, effect.expires? = none

namespace Silent

variable {m m' : Model} {r : Model × List Effect}

theorem quiet (hnotice : m'.view.notice = m.view.notice) (hcount : m'.nextNotice = m.nextNotice) :
    Silent m (m', []) :=
  ⟨hnotice, hcount, by simp⟩

theorem cons {effect : Effect} {effects : List Effect} (h : Silent m (m', effects))
    (heffect : effect.expires? = none) : Silent m (m', effect :: effects) :=
  ⟨h.notice, h.count, List.forall_mem_cons.mpr ⟨heffect, h.effects⟩⟩

theorem after (h : Silent m' r) (hnotice : m'.view.notice = m.view.notice)
    (hcount : m'.nextNotice = m.nextNotice) : Silent m r :=
  ⟨h.notice.trans hnotice, h.count.trans hcount, h.effects⟩

end Silent

/-- What a message does to the notice. -/
inductive NoticeMove (m : Model) (r : Model × List Effect) : Prop
  | silent (h : Silent m r)
  | cleared (notice : r.1.view.notice = none) (count : r.1.nextNotice = m.nextNotice)
      (effects : ∀ effect ∈ r.2, effect.expires? = none)
  | posted (text : String) (rest : List Effect)
      (notice : r.1.view.notice = some { id := m.nextNotice + 1, text })
      (count : r.1.nextNotice = m.nextNotice + 1)
      (effects : r.2 = .expireNotice (m.nextNotice + 1) noticeDuration :: rest)
      (others : ∀ effect ∈ rest, effect.expires? = none)

namespace NoticeMove

variable {m m' : Model} {r : Model × List Effect}

theorem after (h : NoticeMove m' r) (hnotice : m'.view.notice = m.view.notice)
    (hcount : m'.nextNotice = m.nextNotice) : NoticeMove m r := by
  cases h with
  | silent h => exact .silent (h.after hnotice hcount)
  | cleared notice count effects => exact .cleared notice (count.trans hcount) effects
  | posted text rest notice count effects others =>
      rw [hcount] at notice count effects
      exact .posted text rest notice count effects others

/-- A notice, and then nothing that concerns it. -/
theorem notify {text : String} {rest : List Effect} (h : Silent (m.notify text).1 (m', rest)) :
    NoticeMove m (m', (m.notify text).2 :: rest) :=
  .posted text rest h.notice h.count rfl h.effects

end NoticeMove

section Methods

variable (m : Model)

theorem dropStaleReveal_silent : Silent m (m.dropStaleReveal, []) := by
  rw [dropStaleReveal_eq]
  exact .quiet rfl rfl

theorem requestRefresh_silent : Silent m m.requestRefresh := by
  unfold requestRefresh
  split
  · exact .quiet rfl rfl
  · exact .cons (.quiet rfl rfl) rfl

theorem show_silent (now : Int) : Silent m (m.show now) := by
  refine ⟨by rw [show_fst], by rw [show_fst], ?_⟩
  rw [show_snd]
  split
  · simp
  · split <;> simp [Effect.expires?]

theorem moveSelection_silent (delta : Int) : Silent m (m.moveSelection delta) := by
  unfold moveSelection
  split
  next => exact .quiet rfl rfl
  next =>
    dsimp only
    split <;> exact .quiet rfl rfl

theorem startCopy_silent (key : ItemKey) (source : CopySource) :
    Silent m (m.startCopy key source) := by
  cases source <;> exact .cons (.quiet rfl rfl) rfl

theorem fetchTotp_silent : Silent m m.fetchTotp := by
  unfold fetchTotp
  split
  next => exact .cons (.quiet rfl rfl) rfl
  next => exact .quiet rfl rfl

theorem fetchReveal_silent (key : ItemKey) (name : String) (index : Nat) :
    Silent m (m.fetchReveal key name index) := by
  unfold fetchReveal
  dsimp only
  split
  next => exact .quiet rfl rfl
  next => exact .cons (.quiet rfl rfl) rfl

theorem toggleReveal_silent : Silent m m.toggleReveal := by
  unfold toggleReveal
  split
  next =>
    split
    next => exact .quiet rfl rfl
    next =>
      split
      · exact .quiet rfl rfl
      · split
        next => exact .after (fetchTotp_silent _) rfl rfl
        next =>
          split
          · exact .after (fetchReveal_silent _ _ _ _) rfl rfl
          · exact .quiet rfl rfl
        next => exact .quiet rfl rfl
  next => exact .quiet rfl rfl

theorem totpFetchSettled_notice : m.totpFetchSettled.view.notice = m.view.notice ∧
    m.totpFetchSettled.nextNotice = m.nextNotice := by
  unfold totpFetchSettled
  split <;> exact ⟨rfl, rfl⟩

theorem tick_silent (now : Int) : Silent m (m.tick now) := by
  unfold tick
  dsimp only
  split
  · exact m.fetchTotp_silent
  · exact .quiet rfl rfl

theorem revealFetched_noticeMove (key : ItemKey) (index generation : Nat)
    (result : Except PassError SecretString) :
    NoticeMove m (m.revealFetched key index generation result) := by
  unfold revealFetched
  dsimp only
  split
  · exact .silent (.quiet rfl rfl)
  · split
    next =>
      split <;> exact .silent (.quiet rfl rfl)
    next => exact .silent (.quiet rfl rfl)
    next =>
      exact .after (.notify (.quiet rfl rfl)) rfl rfl

theorem totpFetched_noticeMove (key : ItemKey) (result : Except PassError Codes) (now : Int) :
    NoticeMove m (m.totpFetched key result now) := by
  obtain ⟨hnotice, hcount⟩ := m.totpFetchSettled_notice
  unfold totpFetched
  split
  · exact .silent (.quiet rfl rfl)
  · split
    next => exact .silent (.quiet rfl rfl)
    next => exact .silent (.quiet hnotice hcount)
    next => exact .after (.notify (.quiet rfl rfl)) hnotice hcount

theorem copyWith_noticeMove (pick : ItemSummary → Option CopySource) (missing : String) :
    NoticeMove m (m.copyWith pick missing) := by
  unfold copyWith
  split
  next => exact .silent (.quiet rfl rfl)
  next item _ =>
    split
    next source _ => exact .silent (m.startCopy_silent item.key source)
    next => exact .notify (.quiet rfl rfl)

theorem savePrefs_silent [TextSupport] (prefs : Preferences) : Silent m (m.savePrefs prefs) := by
  unfold savePrefs applyPrefs
  dsimp only
  split
  · exact .quiet rfl rfl
  · refine ⟨?_, ?_, by simp [Effect.expires?]⟩ <;> dsimp only <;> split <;> rfl

section Search

variable [TextSupport]

theorem replaceItems_silent (listing : Listing) : Silent m (m.replaceItems listing, []) := by
  unfold replaceItems
  exact .after (dropStaleReveal_silent _) rfl rfl

theorem hide_noticeMove : NoticeMove m m.hide :=
  .cleared rfl rfl (by simp [hide, Effect.expires?])

theorem sessionError_silent (error : PassError) : Silent m (m.sessionError error) := by
  cases error with
  | signedOut => exact .cons (.quiet rfl rfl) rfl
  | _ => exact .quiet rfl rfl

theorem signedIn_silent (account : AccountId) : Silent m (m.signedIn account) := by
  unfold signedIn
  dsimp only
  split
  · exact .cons (.after (requestRefresh_silent _) rfl rfl) rfl
  · exact .after (requestRefresh_silent _) rfl rfl

theorem sessionProbed_silent (result : Except PassError AccountId) :
    Silent m (m.sessionProbed result) := by
  unfold sessionProbed
  split
  next account => exact m.signedIn_silent account
  next error =>
    have herror := m.sessionError_silent error
    dsimp only
    split
    next => exact ⟨herror.notice, herror.count, herror.effects⟩
    next => exact ⟨herror.notice, herror.count, herror.effects⟩
    next => exact herror

theorem cacheLoaded_silent (file : Option CacheFile) : Silent m (m.cacheLoaded file) := by
  unfold cacheLoaded
  split
  next => exact .quiet rfl rfl
  next =>
    split
    · exact .quiet rfl rfl
    · split
      · exact .cons (.quiet rfl rfl) rfl
      · exact .after (replaceItems_silent _ _) rfl rfl

theorem dataLoaded_silent (listing : Listing) (now : Int) : Silent m (m.dataLoaded listing now) := by
  exact .cons (.after (replaceItems_silent _ _) rfl rfl) rfl

theorem copySettled_noticeMove (key : ItemKey) (secret : Bool)
    (result : Except PassError SecretString) (now : Int) :
    NoticeMove m (m.copySettled key secret result now) := by
  unfold copySettled
  split
  next => exact .silent (.cons (.cons (.quiet rfl rfl) rfl) rfl)
  next => exact .silent (.quiet rfl rfl)
  next => exact .notify (requestRefresh_silent _)
  next => exact .notify (.quiet rfl rfl)
  next error _ _ _ => exact .notify (sessionError_silent _ error)

theorem copyFetched_noticeMove (key : ItemKey) (result : Except PassError SecretString) (now : Int) :
    NoticeMove m (m.copyFetched key result now) := by
  unfold copyFetched
  split
  next => exact .silent (.quiet rfl rfl)
  next =>
    split
    · exact .after (copySettled_noticeMove _ key _ result now) rfl rfl
    · exact .silent (.quiet rfl rfl)

theorem copyFinished_noticeMove (result : Except String Unit) :
    NoticeMove m (m.copyFinished result) := by
  unfold copyFinished copyConfirmed
  split
  next =>
    split
    · exact m.hide_noticeMove
    · exact .silent (.quiet rfl rfl)
  next => exact .notify (.quiet rfl rfl)

theorem escape_noticeMove : NoticeMove m m.escape := by
  unfold escape
  split
  · exact .silent (.quiet rfl rfl)
  · split
    next => exact .silent (.quiet rfl rfl)
    next => exact m.hide_noticeMove
    next => exact .silent (.quiet rfl rfl)

theorem chordCaptured_noticeMove (chord : KeyChord) : NoticeMove m (m.chordCaptured chord) := by
  unfold chordCaptured
  split
  next =>
    split
    next => exact .notify (.quiet rfl rfl)
    next => exact .silent (.after (savePrefs_silent _ _) rfl rfl)
  next => exact .silent (.quiet rfl rfl)

/-- **What a message does to the notice.** It leaves it, takes it off the screen with the window, or
posts the next one and asks for its timer. -/
theorem update_noticeMove {msg : Msg} (hmsg : ∀ id, msg ≠ .noticeExpired id) (now : Int) :
    NoticeMove m (m.update msg now) := by
  cases msg with
  | toggle =>
      rw [update]
      split
      · exact m.hide_noticeMove
      · exact .silent (m.show_silent now)
  | «show» => exact .silent (m.show_silent now)
  | hide => exact m.hide_noticeMove
  | selectNext | selectPrev | pageDown | pageUp => exact .silent (m.moveSelection_silent _)
  | refreshRequested => exact .silent m.requestRefresh_silent
  | dataLoaded listing => exact .silent (m.dataLoaded_silent listing now)
  | cacheLoaded file => exact .silent (m.cacheLoaded_silent file)
  | refreshFailed error => exact .silent (.after (sessionError_silent _ error) rfl rfl)
  | sessionProbed result => exact .silent (m.sessionProbed_silent result)
  | copyPrimary | copyUsername | copyTotp | copyUrl => exact m.copyWith_noticeMove _ _
  | copyFetched key result => exact m.copyFetched_noticeMove key result now
  | copyFinished result => exact m.copyFinished_noticeMove result
  | escape => exact m.escape_noticeMove
  | activateAction index =>
      simp only [update, activateAction]
      split
      next =>
        split
        · exact .silent (m.startCopy_silent _ _)
        · exact .silent (.quiet rfl rfl)
      next => exact .silent (.quiet rfl rfl)
  | toggleReveal => exact .silent m.toggleReveal_silent
  | revealFetched key index generation result =>
      exact m.revealFetched_noticeMove key index generation result
  | totpFetched key result => exact m.totpFetched_noticeMove key result now
  | tick clock => exact .silent (m.tick_silent clock)
  | adjustClipboardClear | resetShortcuts => exact .silent (m.savePrefs_silent _)
  | prefsLoaded prefs =>
      obtain ⟨_, _, h⟩ := m.applyPrefs_cases prefs.validated
      simp only [update, h]
      exact .silent (.quiet rfl rfl)
  | chordCaptured chord => exact m.chordCaptured_noticeMove chord
  | startup => exact .silent (.cons (.cons (.cons (.quiet rfl rfl) rfl) rfl) rfl)
  | queryChanged | versionProbed | back | openPreferences => exact .silent (.quiet rfl rfl)
  | loginFinished result =>
      cases result with
      | ok => exact .silent (.cons (.quiet rfl rfl) rfl)
      | error => exact .silent (.quiet rfl rfl)
  | select | loginLine | openActions | startRebind =>
      simp only [update, loginLine, openActions]
      split <;> exact .silent (.quiet rfl rfl)
  | startLogin =>
      simp only [update, startLogin]
      split
      · exact .silent (.cons (.quiet rfl rfl) rfl)
      · exact .silent (.quiet rfl rfl)
  | noticeExpired id => exact absurd rfl (hmsg id)

theorem update_noticeExpired (id : Nat) (now : Int) :
    (m.update (.noticeExpired id) now).1.view.notice =
        m.view.notice.filter (fun shown => shown.id ≠ id) ∧
      (m.update (.noticeExpired id) now).1.nextNotice = m.nextNotice ∧
      (m.update (.noticeExpired id) now).2 = [] := by
  simp only [update]
  split
  next hshown =>
    refine ⟨?_, rfl, rfl⟩
    obtain ⟨shown, hnotice, hid⟩ := (Option.any_eq_true _ _).mp hshown
    simpa [hnotice, Option.filter] using hid
  next hother =>
    refine ⟨?_, rfl, rfl⟩
    cases hnotice : m.view.notice with
    | none => rfl
    | some shown => simpa [hnotice, Option.filter] using hother

end Search

end Methods

end Model

namespace World

/-- Every timer has a number of its own, and the notice on screen is still waiting for one. -/
structure NoticeBooks (w : World) : Prop where
  numbered : ∀ (id : Nat) (flight : Flight) number, w.flights[id]? = some flight →
    flight.effect.expires? = some number → number ≤ w.model.nextNotice
  distinct : ∀ (id id' : Nat) (flight flight' : Flight) number, w.flights[id]? = some flight →
    w.flights[id']? = some flight' → flight.effect.expires? = some number →
    flight'.effect.expires? = some number → id = id'
  shown : ∀ notice, w.model.view.notice = some notice →
    ∃ id, w.Unanswered id (.expireNotice notice.id noticeDuration)

section Runs

variable [TextSupport] {w w' : World} {source : Option Nat} {msg : Msg} {now : Int}
  {guard : World → Event → Prop}

namespace Handled

/-- A timer asked for by what the message does. -/
theorem expires?_new (h : Handled w source msg now w') {id : Nat} {flight : Flight} {number : Nat}
    (hflight : w'.flights[id]? = some flight) (hnumber : flight.effect.expires? = some number) :
    w.flights[id]? = some flight ∨
      id = w.flights.length ∧ number = w.model.nextNotice + 1 ∧
        w'.model.nextNotice = w.model.nextNotice + 1 := by
  rcases h.flight_cases hflight with hold | ⟨hge, hnew, -⟩
  · exact Or.inl hold
  · have hmem := List.mem_of_getElem? hnew
    refine Or.inr ?_
    by_cases hmsg : ∃ id, msg = .noticeExpired id
    · obtain ⟨expired, rfl⟩ := hmsg
      simp [(w.model.update_noticeExpired expired now).2.2] at hmem
    · cases w.model.update_noticeMove (not_exists.mp hmsg) now with
      | silent hsilent => simp [hsilent.effects _ hmem] at hnumber
      | cleared _ _ hquiet => simp [hquiet _ hmem] at hnumber
      | posted text rest _ hcount heffects hothers =>
          rw [heffects] at hnew
          cases hplace : id - w.flights.length with
          | zero =>
              rw [hplace, List.getElem?_cons_zero, Option.some.injEq] at hnew
              rw [← hnew, Effect.expires?, Option.some.injEq] at hnumber
              exact ⟨by omega, hnumber.symm, h.model ▸ hcount⟩
          | succ place =>
              rw [hplace, List.getElem?_cons_succ] at hnew
              simp [hothers _ (List.mem_of_getElem? hnew)] at hnumber

theorem nextNotice_mono (h : Handled w source msg now w') :
    w.model.nextNotice ≤ w'.model.nextNotice := by
  rw [h.model]
  by_cases hmsg : ∃ id, msg = .noticeExpired id
  · obtain ⟨expired, rfl⟩ := hmsg
    exact (w.model.update_noticeExpired expired now).2.1.ge
  · cases w.model.update_noticeMove (not_exists.mp hmsg) now with
    | silent hsilent => exact hsilent.count.ge
    | cleared _ hcount _ => exact hcount.ge
    | posted _ _ _ hcount _ _ => exact hcount ▸ Nat.le_succ _

/-- The timer of this number is answered by `NoticeExpired` of it, and by nothing else. -/
theorem answers_timer (h : Handled w source msg now w') {id number after : Nat}
    (hopen : w.Unanswered id (.expireNotice number after)) (hsource : source = some id) :
    msg = .noticeExpired number := by
  obtain ⟨⟨flight, hflight, heffect⟩, -⟩ := hopen
  obtain ⟨reply, hexecute⟩ := h.executes hsource hflight
  rw [heffect] at hexecute
  cases reply <;> simp [execute] at hexecute
  exact hexecute.symm

end Handled

/-- A message that takes the notice off, or leaves it, or posts the next one, keeps the books. -/
theorem noticeBooks_of_reach (h : system.Reach guard w) : w.NoticeBooks := by
  refine @invariant_of_handled _ w guard NoticeBooks ?_ ?_ ?_ h
  · intro prefs account
    refine ⟨?_, ?_, ?_⟩ <;> simp [start, Model.new]
  · intro w w' hquiet hbooks
    refine ⟨?_, ?_, ?_⟩
    · rw [hquiet.flights, hquiet.model]
      exact hbooks.numbered
    · rw [hquiet.flights]
      exact hbooks.distinct
    · rw [hquiet.model]
      intro notice hnotice
      obtain ⟨id, hopen⟩ := hbooks.shown notice hnotice
      exact ⟨id, (hquiet.unanswered_iff _ _).mpr hopen⟩
  · intro w w' source msg now _ hconsistent hhandled _ _ hbooks
    refine ⟨?_, ?_, ?_⟩
    · intro id flight number hflight hnumber
      rcases hhandled.expires?_new hflight hnumber with hold | ⟨-, rfl, hcount⟩
      · exact (hbooks.numbered _ _ _ hold hnumber).trans hhandled.nextNotice_mono
      · exact hcount.ge
    · intro id id' flight flight' number hflight hflight' hnumber hnumber'
      rcases hhandled.expires?_new hflight hnumber with hold | ⟨hid, hnew, -⟩ <;>
        rcases hhandled.expires?_new hflight' hnumber' with hold' | ⟨hid', hnew', -⟩
      · exact hbooks.distinct _ _ _ _ _ hold hold' hnumber hnumber'
      · have := hbooks.numbered _ _ _ hold hnumber
        omega
      · have := hbooks.numbered _ _ _ hold' hnumber'
        omega
      · rw [hid, hid']
    · intro notice hnotice
      rw [hhandled.model] at hnotice
      -- The timer of a notice that stays is not what this message answers.
      have hstays : w.model.view.notice = some notice → msg ≠ .noticeExpired notice.id →
          ∃ id, w'.Unanswered id (.expireNotice notice.id noticeDuration) := by
        intro hshown hmsg
        obtain ⟨id, hopen⟩ := hbooks.shown notice hshown
        refine ⟨id, (hhandled.unanswered_iff hconsistent _ _).mpr (Or.inl ⟨?_, hopen⟩)⟩
        exact fun hsource => hmsg (hhandled.answers_timer hopen hsource)
      by_cases hmsg : ∃ id, msg = .noticeExpired id
      · obtain ⟨expired, rfl⟩ := hmsg
        rw [(w.model.update_noticeExpired expired now).1, Option.filter_eq_some_iff] at hnotice
        refine hstays hnotice.1 fun heq => ?_
        simpa [Msg.noticeExpired.inj heq] using hnotice.2
      · rw [not_exists] at hmsg
        cases w.model.update_noticeMove hmsg now with
        | silent hsilent => exact hstays (hsilent.notice ▸ hnotice) (hmsg _)
        | cleared hnone _ _ => exact absurd (hnone.symm.trans hnotice) (by simp)
        | posted text rest hposted _ heffects _ =>
            obtain rfl := Option.some.inj (hposted.symm.trans hnotice)
            refine ⟨w.flights.length, (hhandled.unanswered_iff hconsistent _ _).mpr (Or.inr ?_)⟩
            simp [heffects]

/-- The timer handled takes off the notice of its own number. -/
theorem notice_of_deliver_timer (hconsistent : w.Consistent) {id number after : Nat}
    (hopen : w.Unanswered id (.expireNotice number after))
    (hstep : w.step (.deliver id now) = some w') :
    w'.model.view.notice = w.model.view.notice.filter fun shown => shown.id ≠ number := by
  obtain ⟨msg, -, hhandled⟩ := deliver_handled hconsistent hstep
  obtain rfl := hhandled.answers_timer hopen rfl
  rw [hhandled.model]
  exact (w.model.update_noticeExpired number now).1

/-- A timer under way can always run out. -/
theorem exists_deliver_timer (hconsistent : w.Consistent) {id number after : Nat}
    (hopen : w.Unanswered id (.expireNotice number after)) (now : Int) :
    ∃ ready w', (ready = w ∨ w.step (.resolve id .elapsed) = some ready) ∧
      ready.step (.deliver id now) = some w' ∧
      w'.model.view.notice = w.model.view.notice.filter fun shown => shown.id ≠ number := by
  have hdeliver : ∀ ready : World, ready.model = w.model → ready.Consistent →
      ready.Unanswered id (.expireNotice number after) → (∃ msg, (id, msg) ∈ ready.resolved) →
      ∃ w', ready.step (.deliver id now) = some w' ∧
        w'.model.view.notice = w.model.view.notice.filter fun shown => shown.id ≠ number := by
    intro ready hmodel hbooks hwaits hdone
    obtain ⟨msg, hmem⟩ := hdone
    have hstep : ready.step (.deliver id now) =
        some { ready.feed msg now with answered := (id, msg) :: ready.answered } := by
      rw [step, hbooks.find?_resolved hmem]
      dsimp only
      rw [if_neg]
      simpa using hwaits.2
    exact ⟨_, hstep, hmodel ▸ notice_of_deliver_timer hbooks hwaits hstep⟩
  by_cases hdone : ∃ msg, (id, msg) ∈ w.resolved
  · obtain ⟨w', hw'⟩ := hdeliver w rfl hconsistent hopen hdone
    exact ⟨w, w', Or.inl rfl, hw'⟩
  · rw [not_exists] at hdone
    obtain ⟨flight, hflight, heffect⟩ := hopen.1
    have hready : w.step (.resolve id .elapsed) =
        some { w with resolved := (id, .noticeExpired number) :: w.resolved } := by
      simp only [step, hflight, heffect, execute]
      rw [if_neg]
      simpa [Reply.isCancelled] using hdone
    obtain ⟨w', hw'⟩ := hdeliver { w with resolved := (id, .noticeExpired number) :: w.resolved } rfl
      (step_handled hconsistent hready).1 hopen ⟨_, List.mem_cons_self ..⟩
    exact ⟨_, w', Or.inr hready, hw'⟩

/-- **A notice goes away by itself, and in its own time.** In every run the notice on screen waits
for exactly one timer, the one asked for when it was posted. That timer can run out, and takes it
off; a timer of an earlier notice takes nothing off. -/
theorem notice_waits_for_own_timer (h : system.Reach guard w) {notice : Notice}
    (hnotice : w.model.view.notice = some notice) :
    ∃ id, w.Unanswered id (.expireNotice notice.id noticeDuration) ∧
      (∀ now, ∃ ready w', (ready = w ∨ w.step (.resolve id .elapsed) = some ready) ∧
        ready.step (.deliver id now) = some w' ∧ w'.model.view.notice = none) ∧
      ∀ other number after now w', w.Unanswered other (.expireNotice number after) →
        w.step (.deliver other now) = some w' →
        w'.model.view.notice = if other = id then none else some notice := by
  have hconsistent := consistent_of_reach h
  have hbooks := noticeBooks_of_reach h
  obtain ⟨id, hopen⟩ := hbooks.shown notice hnotice
  refine ⟨id, hopen, fun now => ?_, ?_⟩
  · obtain ⟨ready, w', hready, hstep, hgone⟩ := exists_deliver_timer hconsistent hopen now
    exact ⟨ready, w', hready, hstep, by simp [hgone, hnotice, Option.filter]⟩
  · intro other number after now w' hother hstep
    have hgone := notice_of_deliver_timer hconsistent hother hstep
    rw [hnotice] at hgone
    obtain ⟨flight, hflight, heffect⟩ := hopen.1
    obtain ⟨⟨flight', hflight', heffect'⟩, -⟩ := hother
    by_cases hsame : other = id
    · obtain rfl := hsame
      obtain rfl := Option.some.inj (hflight.symm.trans hflight')
      obtain ⟨rfl, -⟩ := Effect.expireNotice.inj (heffect.symm.trans heffect')
      simpa [Option.filter] using hgone
    · have hnumber : notice.id ≠ number := by
        rintro rfl
        exact hsame (hbooks.distinct _ _ _ _ notice.id hflight' hflight
          (by simp [heffect', Effect.expires?]) (by simp [heffect, Effect.expires?]))
      simpa [Option.filter, hnumber, hsame] using hgone

end Runs

section Examples

attribute [local instance] plainText

/-- Two notices in a row; the timer of the first one comes back. -/
theorem notice_outlives_earlier_timer : ∃ w w' : World, ∃ notice : Notice,
    w.step (.deliver 2 3) = some w' ∧ notice.text = "This item has no website" ∧
    w'.model.view.notice = some notice := by
  have hrun : ∃ w, system.Reach TransitionSystem.anyStep w ∧
      w.Unanswered 2 (.expireNotice 1 noticeDuration) ∧ (w.step (.deliver 2 3)).isSome ∧
      w.model.view.notice.any fun notice =>
        notice.id = 2 ∧ notice.text = "This item has no website" := by
    refine TransitionSystem.exists_reach_of_run (start .default none)
      (listMailLogin ++ [.send .copyUrl 0, .send .copyUrl 1, .resolve 2 .elapsed]) ⟨_, _, rfl⟩ ?_
    decide
  obtain ⟨w, hreach, hearlier, hstep, hany⟩ := hrun
  obtain ⟨w', hnext⟩ := Option.isSome_iff_exists.mp hstep
  obtain ⟨notice, hnotice, hboth⟩ := (Option.any_eq_true _ _).mp hany
  obtain ⟨hsecond, htext⟩ := of_decide_eq_true hboth
  obtain ⟨id, hopen, -, hothers⟩ := notice_waits_for_own_timer hreach hnotice
  have hother : ¬ 2 = id := by
    rintro rfl
    obtain ⟨⟨flight, hflight, heffect⟩, -⟩ := hopen
    obtain ⟨⟨flight', hflight', heffect'⟩, -⟩ := hearlier
    obtain rfl := Option.some.inj (hflight.symm.trans hflight')
    have hnumber := (Effect.expireNotice.inj (heffect.symm.trans heffect')).1
    omega
  refine ⟨w, w', notice, hnext, htext, ?_⟩
  simpa [hother] using hothers 2 1 noticeDuration 3 w' hearlier hnext

end Examples

end World

end CosmicPass
