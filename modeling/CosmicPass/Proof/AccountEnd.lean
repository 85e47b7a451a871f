import CosmicPass.Proof.Attribution
import CosmicPass.Proof.CodeOnScreen

/-!
# The end of an account's session

When nobody is signed in any more, or someone else is, what was fetched of the account before is to go
nowhere. Every fetch to reveal a field or a code is cancelled, and the late answer to a revealed field
finds its number gone. A fetch to copy runs on, and so does the copy that waits for it.
-/

namespace CosmicPass

namespace Model

/-- Nobody is signed in any more, or somebody else than the one the session or the data was of. -/
def EndsAccount (m m' : Model) : Prop :=
  m'.session = .signedOut ∧ m.session ≠ .signedOut ∨
    ∃ account, m'.session = .signedIn account ∧ m.session ≠ .signedIn account ∧
      m.heldForAnother account

section Ends

variable [TextSupport] {m : Model} {msg : Msg} {now : Int}

omit [TextSupport] in
theorem not_endsAccount {m m' : Model} (hin : ∀ account, m'.session = .signedIn account →
      m.session = .signedIn account) (hout : m'.session = .signedOut → m.session = .signedOut) :
    ¬ m.EndsAccount m' := by
  rintro (⟨hafter, hbefore⟩ | ⟨account, hafter, hbefore, -⟩)
  · exact hbefore (hout hafter)
  · exact hbefore (hin account hafter)

omit [TextSupport] in
theorem not_endsAccount_of_eq {m m' : Model} (h : m'.session = m.session) : ¬ m.EndsAccount m' :=
  not_endsAccount (fun _ => h ▸ id) (h ▸ id)

theorem sessionError_ends {m₀ m : Model} {error : PassError} (hsession : m.session = m₀.session)
    (h : m₀.EndsAccount (m.sessionError error).1) : error = .signedOut := by
  rcases m.sessionError_cases error with ⟨rfl, -⟩ | ⟨-, hcases⟩
  · rfl
  · refine absurd h (not_endsAccount ?_ ?_)
    · intro account hin
      rcases hcases with heq | heq | heq | ⟨_, heq⟩ <;> simp_all
    · intro hout
      rcases hcases with heq | heq | heq | ⟨_, heq⟩ <;> simp_all

theorem sessionError_cleared (m : Model) : m.Cleared (m.sessionError .signedOut).1 :=
  (clearData_cleared _).after (by simp [Part.Same])

theorem signedIn_cleared {account : AccountId} (h : m.heldForAnother account) :
    m.Cleared (m.signedIn account).1 := by
  rw [signedIn_fst, if_pos h]
  apply m.clearData_cleared.then_same
  · rw [requestRefresh_fst]
    simp [Part.Same]
  · rw [requestRefresh_fst]
    exact .refl _

theorem sessionProbed_ends {result : Except PassError AccountId}
    (h : m.EndsAccount (m.sessionProbed result).1) : m.Cleared (m.sessionProbed result).1 := by
  cases result with
  | ok account =>
      rcases h with ⟨hout, -⟩ | ⟨other, hin, -, hanother⟩
      · simp [sessionProbed, signedIn_fst, requestRefresh_fst] at hout
      · obtain rfl : account = other := by
          simpa [sessionProbed, signedIn_fst, requestRefresh_fst] using hin
        exact signedIn_cleared hanother
  | error error =>
      have hnamed : ∀ session : SessionState, (∀ account, session ≠ .signedIn account) →
          session ≠ .signedOut → ¬ m.EndsAccount { (m.sessionError error).1 with session } :=
        fun session hin hout => not_endsAccount (fun account h => absurd h (hin account))
          fun h => absurd h hout
      simp only [sessionProbed] at h ⊢
      split at h
      next => exact absurd h (hnamed _ (by split <;> simp) (by split <;> simp))
      next => exact absurd h (hnamed _ (by split <;> simp) (by split <;> simp))
      next hchecking hunknown =>
        obtain rfl := sessionError_ends rfl h
        exact m.sessionError_cleared

theorem copyFetched_ends {key : ItemKey} {result : Except PassError SecretString}
    (h : m.EndsAccount (m.copyFetched key result now).1) :
    m.Cleared (m.copyFetched key result now).1 := by
  unfold copyFetched at h ⊢
  split at h
  next => exact absurd h (not_endsAccount_of_eq rfl)
  next fetch hpending =>
    split at h
    next hkey =>
      rw [if_pos hkey]
      unfold copySettled at h ⊢
      split at h
      next => exact absurd h (not_endsAccount_of_eq rfl)
      next => exact absurd h (not_endsAccount_of_eq rfl)
      next => exact absurd h (not_endsAccount_of_eq (by rw [requestRefresh_fst]; rfl))
      next => exact absurd h (not_endsAccount_of_eq rfl)
      next error _ _ _ =>
        change m.EndsAccount (sessionError
          (notify { m with view := { m.view with pending := none } } error.toText).1 error).1 at h
        obtain rfl := sessionError_ends rfl h
        exact (sessionError_cleared _).after (by simp [Part.Same, notify])
    next => exact absurd h (not_endsAccount_of_eq rfl)

/-- **The end of a session masks every row**, and cancels what is fetched for one. -/
theorem endsAccount_cleared (h : m.EndsAccount (m.update msg now).1) :
    m.Cleared (m.update msg now).1 := by
  have hother : (m.update msg now).1.session = m.session → m.Cleared (m.update msg now).1 :=
    fun heq => absurd h (not_endsAccount_of_eq heq)
  by_cases htouches : Part.session ∈ msg.touches
  · cases msg with
    | toggle =>
        apply hother
        simp only [update]
        split
        · rfl
        · rw [show_fst]
    | «show» => exact hother (by rw [update, show_fst])
    | refreshRequested => exact hother (by rw [update, requestRefresh_fst])
    | dataLoaded listing => exact hother (replaceItems_data _ listing).2.2.2.1
    | startup =>
        refine absurd h (not_endsAccount ?_ ?_)
        · intro account hin
          simp only [update, startup] at hin
          split at hin <;> simp_all
        · intro hout
          simp only [update, startup] at hout
          split at hout <;> simp_all
    | startLogin =>
        simp only [update, startLogin] at h
        split at h
        · exact absurd h (not_endsAccount (by simp) (by simp))
        · exact absurd h (not_endsAccount_of_eq rfl)
    | loginFinished result =>
        refine absurd h (not_endsAccount ?_ ?_) <;> cases result <;> simp [update, loginFinished]
    | refreshFailed error =>
        change m.EndsAccount
          (sessionError { m with data := { m.data with refreshing := false, stale := true } } error).1
            at h
        obtain rfl := sessionError_ends rfl h
        exact (sessionError_cleared _).after (by simp [Part.Same])
    | sessionProbed result => exact sessionProbed_ends h
    | copyFetched key result => exact copyFetched_ends h
    | _ => simp [Msg.touches] at htouches
  · exact hother (m.update_untouched msg now htouches).same.1

end Ends

/-- A field's fetch that is no longer held has been cancelled. -/
def Releases (m m' : Model) : Prop :=
  ∀ token, m.view.revealCancel = some token →
    m'.view.revealCancel = some token ∨ m'.tokens.IsCancelled token

theorem releases_of_eq {m m' : Model} (h : m'.view.revealCancel = m.view.revealCancel) :
    m.Releases m' := fun _ hheld => Or.inl (h.trans hheld)

theorem Cleared.releases {m m' : Model} (h : m.Cleared m') : m.Releases m' :=
  fun token hheld => Or.inr (h.cancelled token (Or.inl hheld))

theorem releases_of_reveal {m m' : Model} (h : Part.reveal.Same m m' ∨ m.Cleared m') :
    m.Releases m' := by
  rcases h with hsame | hcleared
  · exact releases_of_eq hsame.2.2.1
  · exact hcleared.releases

section Releases

variable (m : Model)

theorem moveSelection_releases (delta : Int) : m.Releases (m.moveSelection delta).1 := by
  unfold moveSelection
  split
  · exact fun token hheld => Or.inr (m.clearRevealed_cleared.cancelled token (Or.inl hheld))
  · dsimp only
    split <;> exact releases_of_eq rfl

theorem toggleReveal_releases : m.Releases m.toggleReveal.1 := by
  have hcleared : ∀ {m' : Model}, m.clearRevealed.tokens.Extends m'.tokens → m.Releases m' :=
    fun hflags token hheld =>
      Or.inr (hflags.cancelled (m.clearRevealed_cleared.cancelled token (Or.inl hheld)))
  unfold toggleReveal
  split
  · split
    · exact releases_of_eq rfl
    · split
      · exact hcleared (.refl _)
      · split
        · exact hcleared m.clearRevealed.fetchTotp_evolves.extends_tokens
        · split
          · exact hcleared (m.clearRevealed.fetchReveal_evolves _ _ _ rfl).extends_tokens
          · exact hcleared (.refl _)
        · exact hcleared (.refl _)
  · exact releases_of_eq rfl

theorem fetchTotp_releases : m.Releases m.fetchTotp.1 := by
  unfold fetchTotp
  split <;> exact releases_of_eq rfl

theorem totpFetched_releases (key : ItemKey) (result : Except PassError Codes) (now : Int) :
    m.Releases (m.totpFetched key result now).1 := by
  cases hawaits : m.awaitsTotp key with
  | false =>
      rw [totpFetched_ignored hawaits]
      exact releases_of_eq rfl
  | true =>
      obtain ⟨-, code, hbefore⟩ := awaitsTotp_iff.mp hawaits
      exact releases_of_eq (totpFetched_answered hawaits hbefore result now).2.2.1

variable [TextSupport]

theorem replaceItems_releases (listing : Listing) : m.Releases (m.replaceItems listing) := by
  intro token hheld
  simp only [replaceItems, dropStaleReveal_eq, recomputeResults]
  split
  · exact Or.inr (by simp [hheld, Tokens.cancel, Tokens.IsCancelled])
  · exact Or.inl hheld

theorem escape_releases : m.Releases m.escape.1 := by
  unfold escape
  split
  · exact releases_of_eq rfl
  · split
    · exact releases_of_eq rfl
    · exact m.hide_cleared.releases
    · exact fun token hheld => Or.inr (m.clearRevealed_cleared.cancelled token (Or.inl hheld))

/-- **No message lets go of a field's fetch that runs on**, but the answer to it. -/
theorem update_releases (msg : Msg) (now : Int)
    (hother : ∀ key index generation result, msg = .revealFetched key index generation result →
      m.awaitsReveal key index generation = false) : m.Releases (m.update msg now).1 := by
  by_cases htouches : Part.reveal ∈ msg.touches
  · cases msg with
    | toggle =>
        simp only [update]
        split
        · exact m.hide_cleared.releases
        · exact releases_of_eq (by rw [show_fst])
    | hide => exact m.hide_cleared.releases
    | selectNext | selectPrev | pageDown | pageUp => exact m.moveSelection_releases _
    | dataLoaded listing =>
        exact fun token hheld => replaceItems_releases _ listing token hheld
    | cacheLoaded file =>
        simp only [update, cacheLoaded]
        split
        next => exact releases_of_eq rfl
        next =>
          split
          · exact releases_of_eq rfl
          · split
            · exact releases_of_eq rfl
            · exact fun token hheld => replaceItems_releases _ _ token hheld
    | refreshFailed error =>
        have hreveal := sessionError_reveal
          { m with data := { m.data with refreshing := false, stale := true } } error
        exact fun token hheld => releases_of_reveal hreveal token hheld
    | sessionProbed result => exact releases_of_reveal (m.sessionProbed_reveal result)
    | copyFetched key result => exact releases_of_reveal (m.copyFetched_reveal key result now)
    | copyFinished result =>
        simp only [update, copyFinished, copyConfirmed]
        split
        next =>
          split
          · exact m.hide_cleared.releases
          · exact releases_of_eq rfl
        next => exact releases_of_eq rfl
    | escape => exact m.escape_releases
    | openActions | startRebind =>
        simp only [update, openActions]
        split <;> exact releases_of_eq rfl
    | back | openPreferences =>
        exact fun token hheld => Or.inr (m.clearRevealed_cleared.cancelled token (Or.inl hheld))
    | toggleReveal => exact m.toggleReveal_releases
    | revealFetched key index generation result =>
        rw [update, revealFetched_ignored (hother _ _ _ _ rfl)]
        exact releases_of_eq rfl
    | totpFetched key result => exact m.totpFetched_releases key result now
    | tick =>
        simp only [update, tick]
        split
        · exact m.fetchTotp_releases
        · exact releases_of_eq rfl
    | chordCaptured chord =>
        simp only [update, chordCaptured]
        split
        next =>
          split
          next => exact releases_of_eq rfl
          next =>
            obtain ⟨_, _, hsaved⟩ := savePrefs_cases
              { m with view := { m.view with mode := .preferences none } } _
            exact releases_of_eq (by rw [hsaved])
        next => exact releases_of_eq rfl
    | _ => simp [Msg.touches] at htouches
  · exact releases_of_eq (m.update_untouched msg now htouches).same.2.2.1

end Releases

/-- Whether the state would take an answer for the one it waits for, and put its value on the clipboard,
show its code, or end its own session. -/
def takes (m : Model) (msg : Msg) : Bool :=
  match msg with
  | .copyFetched key (.ok _) | .copyFetched key (.error .signedOut) =>
      m.view.pending.any fun fetch => fetch.key = key
  | _ => (m.incomingCode msg).isSome

/-- Nothing is put on the clipboard, used or shown, and the data held is as it was. -/
structure LandsOnNothing (m : Model) (r : Model × List Effect) : Prop where
  copies : ∀ value secret, Effect.copy value secret ∉ r.2
  data : Part.data.Same m r.1
  value : ∀ value, r.1.view.revealed.value = some value → m.view.revealed.value = some value
  code : ∀ shown, r.1.revealedTotp = some shown → m.revealedTotp = some shown

section Answers

variable {m : Model}

theorem LandsOnNothing.ignored (m : Model) : m.LandsOnNothing (m, []) :=
  ⟨by simp, .refl m _, fun _ => id, fun _ => id⟩

theorem LandsOnNothing.of_same {r : Model × List Effect}
    (hcopies : ∀ value secret, Effect.copy value secret ∉ r.2) (hdata : Part.data.Same m r.1)
    (hreveal : Part.reveal.Same m r.1) : m.LandsOnNothing r := by
  refine ⟨hcopies, hdata, ?_, ?_⟩
  · simp [hreveal.2.1]
  · simp [revealedTotp, hreveal.2.1]

variable [TextSupport]

theorem copySettled_error_same {part : Part} (hpart : part ≠ .session) (key : ItemKey) (secret : Bool)
    {error : PassError} (herror : error ≠ .signedOut) (now : Int) :
    part.Same m (m.copySettled key secret (.error error) now).1 := by
  have hnotice : ∀ text, part.Same m (m.notify text).1 := fun text =>
    (m.notify_untouched text rfl).same
  unfold copySettled
  split
  next hok => simp at hok
  next => exact .refl m part
  next => exact (hnotice _).trans (requestRefresh_untouched _ hpart).same
  next => exact hnotice _
  next other _ _ _ heq =>
    obtain rfl : error = other := by simpa using heq
    refine (hnotice error.toText).trans ?_
    change part.Same _ (sessionError (m.notify error.toText).1 error).1
    unfold sessionError
    split
    next => exact absurd rfl herror
    all_goals cases part <;> simp [Part.Same] at hpart ⊢

theorem copyFetched_stray {key : ItemKey} {result : Except PassError SecretString}
    (h : m.takes (.copyFetched key result) = false) (now : Int) :
    m.LandsOnNothing (m.copyFetched key result now) := by
  unfold copyFetched
  split
  next => exact .ignored m
  next fetch hpending =>
    split
    next hkey =>
      have hempty : ∀ {part : Part}, part ≠ .copy →
          part.Same m { m with view := { m.view with pending := none } } := by
        intro part hpart
        cases part <;> simp [Part.Same] at hpart ⊢
      cases result with
      | ok value => simp [takes, hpending, hkey] at h
      | error error =>
          have herror : error ≠ .signedOut := by
            rintro rfl
            simp [takes, hpending, hkey] at h
          refine .of_same (fun value secret hmem => ?_) ?_ ?_
          · simpa using ((copySettled_spec _ _ _ _ _).2.2 value secret).mp hmem
          · exact (hempty (by simp)).trans (copySettled_error_same (by simp) key _ herror now)
          · exact (hempty (by simp)).trans (copySettled_error_same (by simp) key _ herror now)
    next => exact .ignored m

theorem totpFetched_stray {key : ItemKey} {result : Except PassError Codes}
    (h : m.takes (.totpFetched key result) = false) (now : Int) :
    m.LandsOnNothing (m.totpFetched key result now) := by
  have hcopy : Untouched .copy m (m.totpFetched key result now) :=
    m.totpFetched_untouched (by simp) key result now
  have hdata : Untouched .data m (m.totpFetched key result now) :=
    m.totpFetched_untouched (by simp) key result now
  refine ⟨fun value secret hmem => hcopy.effects _ hmem rfl, hdata.same, ?_, ?_⟩
  · intro value hvalue
    cases hawaits : m.awaitsTotp key with
    | false => rwa [totpFetched_ignored hawaits] at hvalue
    | true =>
        obtain ⟨-, code, hbefore⟩ := awaitsTotp_iff.mp hawaits
        rw [(totpFetched_answered hawaits hbefore result now).2.1] at hvalue
        simp [Revealed.value] at hvalue
  · intro shown hshown
    have hafter : (m.update (.totpFetched key result) now).1.revealedTotp = some shown := hshown
    rcases revealedTotp_update hafter with ⟨hbefore, -⟩ | ⟨key', hincoming, -⟩
    · exact hbefore
    · simp [takes, hincoming] at h

end Answers

end Model

namespace World

/-- A fetch that has been asked for and not answered yet, and its token. -/
def UnderWay (w : World) (id : Nat) (token : CancellationToken) : Prop :=
  ∃ effect, w.Unanswered id effect ∧ effect.token = some token

theorem underWay_iff {w : World} {id : Nat} {token : CancellationToken} : w.UnderWay id token ↔
    (w.flights[id]?.bind fun flight => flight.effect.token) = some token ∧
      ∀ done ∈ w.answered, done.1 ≠ id := by
  rw [Option.bind_eq_some_iff]
  constructor
  · rintro ⟨effect, ⟨⟨flight, hflight, rfl⟩, hopen⟩, htoken⟩
    exact ⟨⟨flight, hflight, htoken⟩, fun done hmem hid => hopen done.2 (hid ▸ hmem)⟩
  · rintro ⟨⟨flight, hflight, htoken⟩, hopen⟩
    exact ⟨_, ⟨⟨flight, hflight, rfl⟩, fun msg hmem => hopen _ hmem rfl⟩, htoken⟩

instance (w : World) (id : Nat) (token : CancellationToken) : Decidable (w.UnderWay id token) :=
  decidable_of_iff' _ underWay_iff

/-- A fetch for the field list is the one it waits for, or shows the code of, or it is cancelled. -/
structure FetchesHeld (w : World) : Prop where
  field : ∀ id key name index generation cancel,
    w.Unanswered id (.fetchReveal key name index generation cancel) →
      w.model.tokens.IsCancelled cancel ∨ w.model.view.revealCancel = some cancel ∧
        ∃ target, w.model.view.revealed = .field target none ∧ target.generation = generation
  code : ∀ id key cancel, w.Unanswered id (.fetchTotp key cancel) →
    w.model.tokens.IsCancelled cancel ∨ w.model.view.revealTotpCancel = some cancel

theorem generationOf_of_unanswered {w : World} {id : Nat} {key : ItemKey} {name : String}
    {index generation : Nat} {cancel : CancellationToken}
    (h : w.Unanswered id (.fetchReveal key name index generation cancel)) :
    w.generationOf id = some generation := by
  obtain ⟨⟨flight, hflight, heffect⟩, -⟩ := h
  simp [generationOf, hflight, heffect, Effect.revealGeneration]

/-- The answer to a field's fetch that was cancelled finds its number gone. -/
theorem RevealBooks.awaitsReveal_eq_false {w : World} (hbooks : w.RevealBooks)
    (howned : w.HeldOwned) {id : Nat} {key : ItemKey} {name : String} {index generation : Nat}
    {cancel : CancellationToken}
    (hopen : w.Unanswered id (.fetchReveal key name index generation cancel))
    (hcancelled : w.model.tokens.IsCancelled cancel) :
    w.model.awaitsReveal key index generation = false := by
  by_contra hawaits
  rw [Bool.not_eq_false] at hawaits
  obtain ⟨-, target, value, hrevealed, hnumber, -⟩ := Model.awaitsReveal_iff.mp hawaits
  obtain ⟨-, other, token, hasks, hwaiting, hvalue⟩ := hbooks.field target value hrevealed
  obtain rfl := hbooks.distinct id other generation (generationOf_of_unanswered hopen)
    (hnumber ▸ hasks.generationOf_eq)
  obtain ⟨⟨flight, hflight, heffect⟩, hunanswered⟩ := hopen
  obtain ⟨flight', -, hflight', heffect', -⟩ := hasks
  obtain rfl := Option.some.inj (hflight.symm.trans hflight')
  obtain ⟨-, -, -, -, rfl⟩ := Effect.fetchReveal.inj (heffect.symm.trans heffect')
  cases value with
  | none =>
      have hheld : cancel ∈ w.model.held.list := by
        simp [Model.held, Held.list, (hwaiting rfl).1]
      exact (howned.live cancel hheld).2 hcancelled
  | some v => exact hunanswered _ (hvalue v rfl).2

/-- Every effect asked for, every answer and every token spent is still there later. -/
structure Later (w w' : World) : Prop where
  tokens : w.model.tokens.Extends w'.model.tokens
  flights : ∀ (id : Nat) (flight : Flight), w.flights[id]? = some flight → w'.flights[id]? = some flight
  answered : ∀ id msg, (id, msg) ∈ w.answered → (id, msg) ∈ w'.answered

theorem Later.trans {a b c : World} (hab : Later a b) (hbc : Later b c) : Later a c :=
  ⟨hab.tokens.trans hbc.tokens, fun id flight => hbc.flights id flight ∘ hab.flights id flight,
    fun id msg => hbc.answered id msg ∘ hab.answered id msg⟩

section Runs

variable [TextSupport] {w w' : World} {source : Option Nat} {msg : Msg} {now : Int}

/-- The answer the field list waits for is the answer to no other fetch. -/
theorem Handled.awaitsReveal_eq_false (h : Handled w source msg now w') (hbooks : w.RevealBooks)
    {id : Nat} {key : ItemKey} {name : String} {index generation : Nat} {cancel : CancellationToken}
    (hopen : w.Unanswered id (.fetchReveal key name index generation cancel))
    (hsource : source ≠ some id) {target : RevealTarget}
    (hrevealed : w.model.view.revealed = .field target none)
    (htarget : target.generation = generation) :
    ∀ key index generation result, msg = .revealFetched key index generation result →
      w.model.awaitsReveal key index generation = false := by
  rintro key' index' generation' result rfl
  by_contra hawaits
  rw [Bool.not_eq_false] at hawaits
  obtain ⟨-, awaited, value, hbefore, hgeneration, -⟩ := Model.awaitsReveal_iff.mp hawaits
  obtain ⟨rfl, -⟩ := Revealed.field.inj (hrevealed.symm.trans hbefore)
  obtain ⟨other, hother⟩ := h.answers_of_isAnswer rfl
  obtain ⟨-, ⟨flight, reply, hflight, hexecute, -⟩, -⟩ := h.answer other hother
  obtain ⟨-, name', cancel', heffect⟩ := fetchReveal_of_execute hexecute
  have hnumber : w.generationOf other = some generation' := by
    simp [generationOf, hflight, heffect, Effect.revealGeneration]
  have hid := hbooks.distinct id other generation (generationOf_of_unanswered hopen)
    (by rw [hnumber, ← hgeneration, htarget])
  exact hsource (hother.trans (congrArg some hid.symm))

theorem FetchesHeld.field_handled (hheld : w.FetchesHeld) (hbooks : w.RevealBooks)
    (hconsistent : w.Consistent) (h : Handled w source msg now w') (id : Nat) (key : ItemKey)
    (name : String) (index generation : Nat) (cancel : CancellationToken)
    (hopen : w'.Unanswered id (.fetchReveal key name index generation cancel)) :
    w'.model.tokens.IsCancelled cancel ∨ w'.model.view.revealCancel = some cancel ∧
      ∃ target, w'.model.view.revealed = .field target none ∧ target.generation = generation := by
  rcases (h.unanswered_iff hconsistent _ _).mp hopen with ⟨hsource, hold⟩ | ⟨-, hnew⟩
  · rcases hheld.field id key name index generation cancel hold with
      hcancelled | ⟨hcancel, target, hrevealed, htarget⟩
    · exact Or.inl (h.extends_tokens.cancelled hcancelled)
    have hother := h.awaitsReveal_eq_false hbooks hold hsource hrevealed htarget
    have hreleases := w.model.update_releases msg now hother cancel hcancel
    rw [h.model]
    rcases hreleases with hkept | hcancelled
    swap
    · exact Or.inl hcancelled
    cases w.model.update_revealMove msg now with
    | keep hsame _ _ _ => exact Or.inr ⟨hkept, target, hsame.2.1.trans hrevealed, htarget⟩
    | turn hsame _ _ _ _ _ _ => exact Or.inr ⟨hkept, target, hsame.trans hrevealed, htarget⟩
    | clear hcleared _ => exact Or.inl (hcleared.cancelled cancel (Or.inl hcancel))
    | drop _ _ _ _ hreveal _ _ _ _ => simp [hreveal] at hkept
    | askField _ _ _ _ _ _ _ _ hcleared _ _ _ => exact Or.inl (hcleared cancel (Or.inl hcancel))
    | askTotp _ _ _ _ _ hbefore _ _ _ =>
        rcases hbefore with ⟨hbefore, -⟩ | ⟨-, -, -, hcleared⟩
        · simp [hbefore] at hrevealed
        · exact Or.inl (hcleared cancel (Or.inl hcancel))
    | fieldAnswered key target value selected result hmsg hmode hbefore _ _ =>
        have hawaits : w.model.awaitsReveal key target.index target.generation :=
          Model.awaitsReveal_iff.mpr ⟨⟨selected, hmode⟩, target, value, hbefore, rfl, rfl⟩
        simp [hother _ _ _ _ hmsg] at hawaits
    | totpAnswered _ _ _ _ _ _ hbefore _ _ => simp [hbefore] at hrevealed
  · rw [h.model]
    exact Or.inr (field_of_mem_update (List.mem_of_getElem? hnew))

theorem FetchesHeld.code_handled (hheld : w.FetchesHeld) (hconsistent : w.Consistent)
    (h : Handled w source msg now w') (id : Nat) (key : ItemKey) (cancel : CancellationToken)
    (hopen : w'.Unanswered id (.fetchTotp key cancel)) :
    w'.model.tokens.IsCancelled cancel ∨ w'.model.view.revealTotpCancel = some cancel := by
  rcases (h.unanswered_iff hconsistent _ _).mp hopen with ⟨-, hold⟩ | ⟨-, hnew⟩
  · rcases hheld.code id key cancel hold with hcancelled | hcancel
    · exact Or.inl (h.extends_tokens.cancelled hcancelled)
    rw [h.model]
    cases w.model.update_revealMove msg now with
    | keep hsame _ _ _ => exact Or.inr (hsame.2.2.2.1.trans hcancel)
    | turn _ _ htotp _ _ _ _ => exact Or.inr (htotp.trans hcancel)
    | clear hcleared _ => exact Or.inl (hcleared.cancelled cancel (Or.inr hcancel))
    | drop _ _ _ _ _ htotp _ _ _ => exact Or.inr (htotp.trans hcancel)
    | askField _ _ _ _ _ _ _ _ hcleared _ _ _ => exact Or.inl (hcleared cancel (Or.inr hcancel))
    | askTotp _ _ _ asked _ hbefore hafter _ _ =>
        rcases hbefore with ⟨-, -, -, hasked⟩ | ⟨-, -, -, hcleared⟩
        · rw [hcancel, Option.getD_some] at hasked
          exact Or.inr (hasked ▸ hafter.2.2.1)
        · exact Or.inl (hcleared cancel (Or.inr hcancel))
    | fieldAnswered _ _ _ _ _ _ _ _ hafter _ => exact Or.inr (hafter.2.2.2.1.trans hcancel)
    | totpAnswered _ _ _ _ _ _ _ hafter _ => exact Or.inr (hafter.2.2.2.1.trans hcancel)
  · rw [h.model]
    exact Or.inr (code_of_mem_update (List.mem_of_getElem? hnew)).2

theorem fetchesHeld_of_reach (h : system.Reach (fun w e => fromList w e) w) : w.FetchesHeld := by
  refine invariant_of_handled ?_ ?_ ?_ h
  · intro prefs account
    refine ⟨?_, ?_⟩ <;> simp [World.start, Unanswered]
  · intro w w' hquiet hheld
    refine ⟨?_, ?_⟩ <;> simp only [hquiet.unanswered_iff, hquiet.model]
    · exact hheld.field
    · exact hheld.code
  · intro w w' source msg now hreach hconsistent hhandled _ _ hheld
    have hbooks := revealBooks_of_reach (fun _ _ => id) hreach
    exact ⟨hheld.field_handled hbooks hconsistent hhandled,
      hheld.code_handled hconsistent hhandled⟩

theorem FetchesHeld.cancelled (hheld : w.FetchesHeld) (h : Handled w source msg now w')
    (hends : w.model.EndsAccount w'.model) {id : Nat} {effect : Effect} {token : CancellationToken}
    (hopen : w.Unanswered id effect) (htoken : effect.token = some token) :
    w'.model.tokens.IsCancelled token ∨
      ∃ fetch, effect.pendingFetch = some fetch ∧ fetch.cancel = token := by
  have hcleared : w.model.Cleared w'.model := by
    rw [h.model] at hends ⊢
    exact Model.endsAccount_cleared hends
  cases effect with
  | fetchAndCopy key field secret cancel =>
      exact Or.inr ⟨_, rfl, Option.some.inj htoken⟩
  | fetchTotpAndCopy key field cancel => exact Or.inr ⟨_, rfl, Option.some.inj htoken⟩
  | fetchReveal key name index generation cancel =>
      obtain rfl := Option.some.inj htoken
      rcases hheld.field id key name index generation cancel hopen with hcancelled | ⟨hcancel, -⟩
      · exact Or.inl (h.extends_tokens.cancelled hcancelled)
      · exact Or.inl (hcleared.cancelled cancel (Or.inl hcancel))
  | fetchTotp key cancel =>
      obtain rfl := Option.some.inj htoken
      rcases hheld.code id key cancel hopen with hcancelled | hcancel
      · exact Or.inl (h.extends_tokens.cancelled hcancelled)
      · exact Or.inl (hcleared.cancelled cancel (Or.inr hcancel))
  | _ => simp [Effect.token] at htoken

theorem Later.of_step {e : Event} (hconsistent : w.Consistent) (h : w.step e = some w') :
    Later w w' := by
  rcases (step_handled hconsistent h).2 with hquiet | ⟨source, msg, now, hhandled, -⟩
  · exact ⟨by rw [hquiet.model]; exact .refl _, by simp [hquiet.flights], by simp [hquiet.answered]⟩
  · exact ⟨hhandled.extends_tokens, fun _ _ => hhandled.flights_mono,
      fun _ _ => hhandled.still_answered⟩

theorem Later.of_reach {guard : World → Event → Prop} (h : system.Reach guard w)
    (hlater : (system.startingAt w).Reach guard w') : Later w w' := by
  induction hlater with
  | start hinit =>
      obtain rfl := hinit
      exact ⟨.refl _, fun _ _ hflight => hflight, fun _ _ hanswered => hanswered⟩
  | next hreach _ hstep ih =>
      exact ih.trans (.of_step (consistent_of_reach (h.append hreach)) hstep)

theorem Handled.landsOnNothing {id : Nat} (h : Handled w (some id) msg now w')
    (hbooks : w.RevealBooks) (howned : w.HeldOwned) {effect : Effect} {token : CancellationToken}
    (hopen : w.Unanswered id effect) (htoken : effect.token = some token)
    (hspent : w.model.tokens.IsCancelled token ∨
      ∃ fetch, effect.pendingFetch = some fetch ∧ fetch.cancel = token)
    (htakes : w.model.takes msg = false) : w.model.LandsOnNothing (w.model.update msg now) := by
  have ⟨⟨flight, hflight, heffect⟩, _⟩ := hopen
  obtain ⟨reply, hexecute⟩ := h.executes rfl hflight
  rw [heffect] at hexecute
  cases hfetch : effect.pendingFetch with
  | some fetch =>
      obtain ⟨result, rfl⟩ := execute_of_pendingFetch hfetch hexecute
      exact Model.copyFetched_stray htakes now
  | none =>
      have hcancelled := hspent.resolve_right (by simp [hfetch])
      cases effect with
      | fetchReveal key name index generation cancel =>
          obtain rfl := Option.some.inj htoken
          obtain ⟨result, rfl⟩ := execute_fetchReveal hexecute
          rw [Model.update,
            Model.revealFetched_ignored (hbooks.awaitsReveal_eq_false howned hopen hcancelled)]
          exact .ignored _
      | fetchTotp key cancel =>
          obtain ⟨result, rfl⟩ := execute_fetchTotp hexecute
          exact Model.totpFetched_stray htakes now
      | fetchAndCopy | fetchTotpAndCopy => simp [Effect.pendingFetch] at hfetch
      | _ => simp [Effect.token] at htoken

/-- **The end of an account's session stops what was being fetched of it, unless it is to be copied.**
When an event signs the account out or puts another in its place, every fetch still unanswered is
cancelled, if no fetch to copy was running on; and whatever happens next, an answer that comes after all
lands on nothing, unless the state takes it for one it waits for by then. -/
theorem account_end_stops_fetches {e : Event} (h : system.Reach (fun w e => fromList w e) w)
    (hguard : fromList w e) (hstep : w.step e = some w') (hends : w.model.EndsAccount w'.model) :
    ((∀ id fetch, w.copyFetch id = some fetch → w.UnderWay id fetch.cancel →
        (∀ now, e ≠ .deliver id now) → w.model.tokens.IsCancelled fetch.cancel) →
      ∀ id token, w.UnderWay id token → w'.UnderWay id token → w'.model.tokens.IsCancelled token) ∧
    ∀ later, (system.startingAt w').Reach (fun w e => fromList w e) later →
      ∀ id token now after, w.UnderWay id token → later.step (.deliver id now) = some after →
        (∀ msg, (id, msg) ∈ later.resolved → later.model.takes msg = false) →
        later.model.LandsOnNothing (after.model, later.issued after) := by
  have hconsistent := consistent_of_reach h
  have hheld := fetchesHeld_of_reach h
  obtain ⟨source, msg, time, hhandled, hevent⟩ : ∃ source msg time, Handled w source msg time w' ∧
      (e = .send msg time ∧ source = none ∨ ∃ id, e = .deliver id time ∧ source = some id) := by
    rcases (step_handled hconsistent hstep).2 with hquiet | hhandled
    · exact absurd hends (Model.not_endsAccount_of_eq (by rw [hquiet.model]))
    · exact hhandled
  refine ⟨fun hcopies id token hbefore hafter => ?_, ?_⟩
  · have ⟨effect, hopen, htoken⟩ := hbefore
    rcases hheld.cancelled hhandled hends hopen htoken with hcancelled | ⟨fetch, hfetch, rfl⟩
    · exact hcancelled
    · have ⟨⟨flight, hflight, heffect⟩, _⟩ := hopen
      refine hhandled.extends_tokens.cancelled (hcopies id fetch ?_ hbefore ?_)
      · exact copyFetch_eq_some.mpr ⟨flight, hflight, heffect ▸ hfetch⟩
      · rintro now rfl
        obtain ⟨_, ⟨-, hunanswered⟩, -⟩ := hafter
        rcases hevent with ⟨hsend, -⟩ | ⟨id', hdeliver, rfl⟩
        · cases hsend
        · cases hdeliver
          exact hunanswered msg (hhandled.now_answered rfl)
  · intro later hlater id token now after hbefore hdeliver htakes
    have hreach : system.Reach (fun w e => fromList w e) w' := .next h hguard hstep
    have hrun := Later.of_reach hreach hlater
    have hsince := (Later.of_step hconsistent hstep).trans hrun
    have hreach' := hreach.append hlater
    obtain ⟨answer, hresolved, hlate⟩ := deliver_handled (consistent_of_reach hreach') hdeliver
    obtain ⟨effect, hopen, htoken⟩ := hbefore
    have ⟨⟨flight, hflight, heffect⟩, _⟩ := hopen
    rw [hlate.model, hlate.issued_eq]
    refine hlate.landsOnNothing (revealBooks_of_reach (fun _ _ hfrom => hfrom) hreach')
      (owned_of_reach hreach') ⟨⟨flight, hsince.flights id flight hflight, heffect⟩, ?_⟩ htoken ?_
      (htakes answer hresolved)
    · exact (hlate.answer id rfl).2.2
    · exact (hheld.cancelled hhandled hends hopen htoken).imp_left fun hgone =>
        hrun.tokens.cancelled hgone

end Runs

section Examples

attribute [local instance] plainText

theorem account_end_stops_fetches_reveal : ∃ w w' after : World,
    w.UnderWay 5 0 ∧ w'.model.session = .signedOut ∧ w'.model.tokens.IsCancelled 0 ∧
      w'.step (.deliver 5 0) = some after ∧
      w'.model.LandsOnNothing (after.model, w'.issued after) := by
  have hrun : ∃ w, system.Reach (fun w e => fromList w e) w ∧ w.UnderWay 5 0 ∧
      w.model.session ≠ .signedOut ∧ (∀ flight ∈ w.flights, flight.effect.pendingFetch = none) ∧
      (w.step (.deliver 6 0)).any fun w' => w'.UnderWay 5 0 ∧ w'.model.session = .signedOut ∧
        (w'.step (.deliver 5 0)).isSome ∧
        ∀ done ∈ w'.resolved, done.1 = 5 → w'.model.takes done.2 = false := by
    refine TransitionSystem.exists_reach_of_run (start .default (some ada))
      (signInAda ++ [.resolve 3 (.listing (.ok { vaults := [], items := [mailLogin] })),
        .deliver 3 0, .send .openActions 0, .send .toggleReveal 0,
        .resolve 5 (.field (.ok ⟨"hunter2"⟩)), .send .refreshRequested 0,
        .resolve 6 (.listing (.error .signedOut))]) ⟨_, _, rfl⟩ ?_
    decide
  obtain ⟨w, hreach, hbefore, hin, hnone, hlater⟩ := hrun
  obtain ⟨w', hstep, hdecided⟩ := (Option.any_eq_true _ _).mp hlater
  obtain ⟨hafter, hout, hdeliver, htakes⟩ := of_decide_eq_true hdecided
  obtain ⟨after, hlate⟩ := Option.isSome_iff_exists.mp hdeliver
  obtain ⟨hcancelled, hlands⟩ :=
    account_end_stops_fetches hreach rfl hstep (Or.inl ⟨hout, hin⟩)
  refine ⟨w, w', after, hbefore, hout, hcancelled ?_ 5 0 hbefore hafter, hlate,
    hlands w' (.start rfl) 5 0 0 after hbefore hlate fun msg hmem => htakes _ hmem rfl⟩
  intro id fetch hfetch
  obtain ⟨flight, hflight, hpending⟩ := copyFetch_eq_some.mp hfetch
  simp [hnone flight (List.mem_of_getElem? hflight)] at hpending

/-- Ada's password, asked for before the probe finds Bob signed in, is put on the clipboard once it
arrives, and counts as used by Bob. -/
theorem account_end_leaves_copy : ∃ w w' after : World,
    system.Reach (fun w e => fromList w e && prompt w e && truthful w e) w ∧
      w.step (.deliver 8 0) = some w' ∧ w.model.EndsAccount w'.model ∧
      w.UnderWay 5 0 ∧ w'.UnderWay 5 0 ∧ ¬ w'.model.tokens.IsCancelled 0 ∧
      w'.step (.deliver 5 0) = some after ∧ .copy ⟨"hunter2"⟩ true ∈ w'.issued after ∧
      after.model.usage ≠ w'.model.usage := by
  have hrun : ∃ w, system.Reach (fun w e => fromList w e && prompt w e && truthful w e) w ∧
      w.UnderWay 5 0 ∧ w.model.session = .signedIn ada ∧
      (w.step (.deliver 8 0)).any fun w' => w'.UnderWay 5 0 ∧ w'.model.session = .signedIn bob ∧
        ¬ w'.model.tokens.IsCancelled 0 ∧
        (w'.step (.deliver 5 0)).any fun after =>
          .copy ⟨"hunter2"⟩ true ∈ w'.issued after ∧ after.model.usage ≠ w'.model.usage := by
    refine TransitionSystem.exists_reach_of_run (start .default (some ada))
      (signInAda ++ [.resolve 3 (.listing (.ok { vaults := [], items := [mailLogin] })),
        .deliver 3 0, .send .copyPrimary 0, .resolve 5 (.field (.ok ⟨"hunter2"⟩)),
        .switchAccount (some bob), .send .startup 0, .resolve 8 (.account (.ok bob))])
      ⟨_, _, rfl⟩ ?_
    decide
  obtain ⟨w, hreach, hbefore, hin, hlater⟩ := hrun
  obtain ⟨w', hstep, hdecided⟩ := (Option.any_eq_true _ _).mp hlater
  obtain ⟨hafter, hbob, hlive, hdeliver⟩ := of_decide_eq_true hdecided
  obtain ⟨after, hlate, hcopied⟩ := (Option.any_eq_true _ _).mp hdeliver
  obtain ⟨hcopy, husage⟩ := of_decide_eq_true hcopied
  have hends : w.model.EndsAccount w'.model :=
    Or.inr ⟨bob, hbob, by simp [hin, ada, bob],
      by simp [Model.heldForAnother, Model.signedInAccount, hin, ada, bob]⟩
  exact ⟨w, w', after, hreach, hstep, hends, hbefore, hafter, hlive, hlate, hcopy, husage⟩

end Examples

end World

end CosmicPass
