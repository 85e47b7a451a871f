import CosmicPass.Proof.Attribution
import CosmicPass.Proof.CodeSlot

/-!
# Answers that are errors

An error that does not say the account is signed out leaves the account's data, the list and the
preferences as they were. One that says so has to end the session and wipe what is held; of the six
answers that can bring it, three are asked what the error was, and three only report it.
-/

namespace CosmicPass

/-- Carries an error, and not the one that says nobody is signed in. -/
def Msg.failed : Msg → Bool
  | .refreshFailed error | .sessionProbed (.error error) | .versionProbed (.error error)
  | .loginFinished (.error error) | .copyFetched _ (.error error)
  | .revealFetched _ _ _ (.error error) | .totpFetched _ (.error error) => error ≠ .signedOut
  | .copyFinished (.error _) => true
  | _ => false

/-- Reaches the clipboard or a file. -/
def Effect.writes : Effect → Bool
  | .copy _ _ | .persist | .deleteCache | .savePreferences _ => true
  | _ => false

namespace Model

/-- The account's data, the list and the preferences are as they were, and no plaintext is new. -/
structure Undisturbed (m m' : Model) : Prop where
  vaults : m'.data.vaults = m.data.vaults
  items : m'.data.items = m.data.items
  usage : m'.usage = m.usage
  dataAccount : m'.dataAccount = m.dataAccount
  query : m'.view.query = m.view.query
  results : m'.view.results = m.view.results
  selected : m'.view.selected = m.view.selected
  mode : m'.view.mode = m.view.mode
  prefs : m'.prefs = m.prefs
  value : ∀ value, m'.view.revealed.value = some value → m.view.revealed.value = some value
  code : ∀ code, m'.view.revealed.totpCode = some code → m.view.revealed.totpCode = some code

namespace Undisturbed

theorem refl (m : Model) : m.Undisturbed m := by
  constructor <;> simp

theorem trans {a b c : Model} (hab : a.Undisturbed b) (hbc : b.Undisturbed c) : a.Undisturbed c where
  vaults := hbc.vaults.trans hab.vaults
  items := hbc.items.trans hab.items
  usage := hbc.usage.trans hab.usage
  dataAccount := hbc.dataAccount.trans hab.dataAccount
  query := hbc.query.trans hab.query
  results := hbc.results.trans hab.results
  selected := hbc.selected.trans hab.selected
  mode := hbc.mode.trans hab.mode
  prefs := hbc.prefs.trans hab.prefs
  value := fun value h => hab.value value (hbc.value value h)
  code := fun code h => hab.code code (hbc.code code h)

end Undisturbed

section Frames

variable (m : Model)

theorem notify_undisturbed (text : String) : m.Undisturbed (m.notify text).1 := by
  constructor <;> simp [notify]

theorem requestRefresh_undisturbed : m.Undisturbed m.requestRefresh.1 := by
  rw [requestRefresh_fst]
  constructor <;> simp

theorem totpFetchSettled_undisturbed : m.Undisturbed m.totpFetchSettled := by
  unfold totpFetchSettled
  split
  next code fetching hrevealed =>
    constructor <;> simp [hrevealed, Revealed.value, Revealed.totpCode]
  next => exact .refl m

variable [TextSupport] {m : Model} {error : PassError}

theorem sessionError_eq (herror : error ≠ .signedOut) : ∃ session stale lastError,
    m.sessionError error = ({ m with session, data := { m.data with stale, lastError } }, []) := by
  unfold sessionError
  split
  next => exact absurd rfl herror
  all_goals exact ⟨_, _, _, rfl⟩

theorem sessionError_undisturbed (herror : error ≠ .signedOut) :
    m.Undisturbed (m.sessionError error).1 := by
  obtain ⟨session, stale, lastError, h⟩ := m.sessionError_eq herror
  rw [h]
  constructor <;> simp

theorem sessionError_effects (herror : error ≠ .signedOut) : (m.sessionError error).2 = [] := by
  obtain ⟨session, stale, lastError, h⟩ := m.sessionError_eq herror
  rw [h]

theorem sessionProbed_undisturbed (herror : error ≠ .signedOut) :
    m.Undisturbed (m.sessionProbed (.error error)).1 ∧ (m.sessionProbed (.error error)).2 = [] := by
  have hsession : ∀ session, m.Undisturbed { (m.sessionError error).1 with session } := by
    intro session
    refine (sessionError_undisturbed herror).trans ?_
    constructor <;> simp
  simp only [sessionProbed]
  split
  next => exact ⟨hsession _, sessionError_effects herror⟩
  next => exact ⟨hsession _, sessionError_effects herror⟩
  next => exact ⟨sessionError_undisturbed herror, sessionError_effects herror⟩

theorem copySettled_undisturbed (herror : error ≠ .signedOut) (key : ItemKey) (secret : Bool)
    (now : Int) :
    m.Undisturbed (m.copySettled key secret (.error error) now).1 ∧
      ∀ effect ∈ (m.copySettled key secret (.error error) now).2, effect.writes = false := by
  cases error with
  | signedOut => exact absurd rfl herror
  | cancelled => exact ⟨.refl m, by simp [copySettled]⟩
  | notFound =>
      refine ⟨(m.notify_undisturbed _).trans (requestRefresh_undisturbed _), ?_⟩
      intro effect hmem
      rcases List.mem_cons.mp hmem with rfl | hrefresh
      · rfl
      · rw [mem_requestRefresh _ hrefresh]
        rfl
  | fieldMissing => exact ⟨m.notify_undisturbed _, by simp [copySettled, notify, Effect.writes]⟩
  | _ =>
      refine ⟨(m.notify_undisturbed _).trans (sessionError_undisturbed herror), ?_⟩
      simp [copySettled, notify, sessionError_effects, Effect.writes]

theorem copyFetched_undisturbed (herror : error ≠ .signedOut) (key : ItemKey) (now : Int) :
    m.Undisturbed (m.copyFetched key (.error error) now).1 ∧
      ∀ effect ∈ (m.copyFetched key (.error error) now).2, effect.writes = false := by
  unfold copyFetched
  split
  next => exact ⟨.refl m, by simp⟩
  next fetch hpending =>
    split
    next =>
      have hsettled := copySettled_undisturbed (m := { m with view := { m.view with pending := none } })
        herror key fetch.secret now
      refine ⟨.trans ?_ hsettled.1, hsettled.2⟩
      constructor <;> simp
    next => exact ⟨.refl m, by simp⟩

omit [TextSupport] in
theorem revealFetched_undisturbed (key : ItemKey) (index generation : Nat) :
    m.Undisturbed (m.revealFetched key index generation (.error error)).1 ∧
      ∀ effect ∈ (m.revealFetched key index generation (.error error)).2, effect.writes = false := by
  simp only [revealFetched]
  split
  next => exact ⟨.refl m, by simp⟩
  next =>
    split
    next h => simp at h
    next =>
      refine ⟨?_, by simp⟩
      constructor <;> simp
    next =>
      refine ⟨.trans ?_ (notify_undisturbed _ _), by simp [notify, Effect.writes]⟩
      constructor <;> simp [Revealed.value, Revealed.totpCode]

omit [TextSupport] in
theorem totpFetched_undisturbed (key : ItemKey) (now : Int) :
    m.Undisturbed (m.totpFetched key (.error error) now).1 ∧
      ∀ effect ∈ (m.totpFetched key (.error error) now).2, effect.writes = false := by
  simp only [totpFetched]
  split
  next => exact ⟨.refl m, by simp⟩
  next =>
    split
    next h => simp at h
    next => exact ⟨m.totpFetchSettled_undisturbed, by simp⟩
    next =>
      exact ⟨m.totpFetchSettled_undisturbed.trans (notify_undisturbed _ _),
        by simp [notify, Effect.writes]⟩

/-- **Failures leave the account's data alone.** Whatever fails, short of the account having signed
out, no data, row or preference changes, nothing is copied, saved or deleted, and no plaintext comes
in. -/
theorem failure_undisturbed {msg : Msg} (h : msg.failed) (now : Int) :
    m.Undisturbed (m.update msg now).1 ∧ ∀ effect ∈ (m.update msg now).2, effect.writes = false := by
  have hquiet : ∀ {effects : List Effect}, effects = [] →
      ∀ effect ∈ effects, effect.writes = false := by
    rintro effects rfl
    simp
  cases msg with
  | refreshFailed error =>
      have herror : error ≠ .signedOut := by simpa [Msg.failed] using h
      refine ⟨.trans ?_ (sessionError_undisturbed herror), hquiet (sessionError_effects herror)⟩
      constructor <;> simp
  | sessionProbed result =>
      cases result with
      | ok account => simp [Msg.failed] at h
      | error error =>
          have herror : error ≠ .signedOut := by simpa [Msg.failed] using h
          exact ⟨(m.sessionProbed_undisturbed herror).1, hquiet (m.sessionProbed_undisturbed herror).2⟩
  | versionProbed result =>
      refine ⟨?_, hquiet rfl⟩
      constructor <;> simp [update, versionProbed]
  | loginFinished result =>
      cases result with
      | ok done => simp [Msg.failed] at h
      | error error =>
          refine ⟨?_, hquiet rfl⟩
          constructor <;> simp [update, loginFinished]
  | copyFetched key result =>
      cases result with
      | ok value => simp [Msg.failed] at h
      | error error => exact copyFetched_undisturbed (by simpa [Msg.failed] using h) key now
  | revealFetched key index generation result =>
      cases result with
      | ok value => simp [Msg.failed] at h
      | error error => exact revealFetched_undisturbed key index generation
  | totpFetched key result =>
      cases result with
      | ok codes => simp [Msg.failed] at h
      | error error => exact totpFetched_undisturbed key now
  | copyFinished result =>
      cases result with
      | ok done => simp [Msg.failed] at h
      | error text =>
          refine ⟨m.notify_undisturbed _, ?_⟩
          simp [update, copyFinished, notify, Effect.writes]
  | _ => simp [Msg.failed] at h

end Frames

/-!
### Signed out
-/

/-- A fetch the state still waits for is answered: nobody is signed in. -/
def awaitsSignedOut (m : Model) : Msg → Bool
  | .refreshFailed .signedOut | .sessionProbed (.error .signedOut)
  | .loginFinished (.error .signedOut) => true
  | .copyFetched key (.error .signedOut) => m.view.pending.any fun fetch => fetch.key = key
  | .revealFetched key index generation (.error .signedOut) => m.awaitsReveal key index generation
  | .totpFetched key (.error .signedOut) => m.awaitsTotp key
  | _ => false

/-- The session is over, nothing of the account is held, and its cache file is to go. -/
structure SignsOut (r : Model × List Effect) : Prop where
  session : r.1.session = .signedOut
  items : r.1.data.items = []
  vaults : r.1.data.vaults = []
  usage : r.1.usage = .empty
  revealed : r.1.view.revealed = .nothing
  cache : .deleteCache ∈ r.2

section SignedOut

variable [TextSupport] (m : Model)

theorem sessionError_signsOut : SignsOut (m.sessionError .signedOut) :=
  ⟨rfl, rfl, rfl, rfl, rfl, List.mem_singleton_self _⟩

omit [TextSupport] in
theorem SignsOut.cons {r : Model × List Effect} (h : SignsOut r) (effect : Effect) :
    SignsOut (r.1, effect :: r.2) :=
  ⟨h.session, h.items, h.vaults, h.usage, h.revealed, List.mem_cons_of_mem _ h.cache⟩

theorem sessionProbed_signsOut : SignsOut (m.sessionProbed (.error .signedOut)) := by
  have hsession : (m.sessionError .signedOut).1.session = .signedOut := rfl
  simp only [sessionProbed, hsession]
  exact m.sessionError_signsOut

theorem copyFetched_signsOut {key : ItemKey} (h : m.view.pending.any fun fetch => fetch.key = key)
    (now : Int) : SignsOut (m.copyFetched key (.error .signedOut) now) := by
  obtain ⟨fetch, hpending, hkey⟩ := (Option.any_eq_true _ _).mp h
  simp only [copyFetched, hpending, of_decide_eq_true hkey, if_true]
  exact (sessionError_signsOut _).cons _

omit [TextSupport] in
theorem deleteCache_notMem_revealFetched (key : ItemKey) (index generation : Nat)
    (result : Except PassError SecretString) :
    .deleteCache ∉ (m.revealFetched key index generation result).2 := by
  unfold revealFetched
  dsimp only
  split
  · simp
  · split
    · split <;> simp
    · simp
    · simp [notify]

omit [TextSupport] in
theorem deleteCache_notMem_totpFetched (key : ItemKey) (result : Except PassError Codes) (now : Int) :
    .deleteCache ∉ (m.totpFetched key result now).2 := by
  unfold totpFetched
  split
  · simp
  · split <;> simp [notify]

variable {m}

/-- **Who is asked what the error was.** A signed-out answer that was waited for ends the session just
when it answers a refresh, a probe or a copy; one that answers a revealed field, a code or a login does
not. -/
theorem signsOut_iff {msg : Msg} (h : m.awaitsSignedOut msg) (now : Int) :
    SignsOut (m.update msg now) ↔ Part.data ∈ msg.touches := by
  unfold awaitsSignedOut at h
  split at h
  next => exact iff_of_true (sessionError_signsOut _) (by simp [Msg.touches])
  next => exact iff_of_true (sessionProbed_signsOut _) (by simp [Msg.touches])
  next =>
    refine iff_of_false (fun hout => ?_) (by simp [Msg.touches])
    have hcache := hout.cache
    simp [update, loginFinished] at hcache
  next => exact iff_of_true (copyFetched_signsOut _ h now) (by simp [Msg.touches])
  next =>
    exact iff_of_false (fun hout => deleteCache_notMem_revealFetched _ _ _ _ _ hout.cache)
      (by simp [Msg.touches])
  next =>
    exact iff_of_false (fun hout => deleteCache_notMem_totpFetched _ _ _ _ hout.cache)
      (by simp [Msg.touches])
  next => simp at h

end SignedOut

end Model

namespace World

open Model

section Runs

variable [TextSupport] {w w' : World} {guard : World → Event → Prop}

/-- **A signed-out answer ends the session just when it answers a refresh, a probe or a copy.** In any
run, the answer to a fetch that was waited for, brought back by the fetch itself. -/
theorem signed_out_heeded_iff (h : system.Reach guard w) {id : Nat} {now : Int}
    (hstep : w.step (.deliver id now) = some w') {msg : Msg} (hmsg : (id, msg) ∈ w.resolved)
    (hawaited : w.model.awaitsSignedOut msg) :
    SignsOut (w'.model, w.issued w') ↔
      (∃ error, msg = .refreshFailed error) ∨ (∃ result, msg = .sessionProbed result) ∨
        ∃ key result, msg = .copyFetched key result := by
  obtain ⟨msg', hmem, hhandled⟩ := deliver_handled (consistent_of_reach h) hstep
  obtain rfl := (consistent_of_reach h).once id msg msg' hmsg hmem
  rw [hhandled.model, hhandled.issued_eq, signsOut_iff hawaited now]
  unfold awaitsSignedOut at hawaited
  split at hawaited <;> simp_all [Msg.touches]

end Runs

section Examples

attribute [local instance] plainText

/-- Signed in, with the login listed and its password asked for: effect 5 fetches it. -/
def revealPassword : List Event :=
  signInAda ++ [.resolve 3 (.listing (.ok { vaults := [], items := [mailLogin] })), .deliver 3 0,
    .send .openActions 0, .send .toggleReveal 0]

theorem signed_out_heeded_refresh : ∃ w w' : World, w.model.data.items = [mailLogin] ∧
    w.step (.deliver 6 0) = some w' ∧ SignsOut (w'.model, w.issued w') := by
  have hrun : ∃ w, system.Reach TransitionSystem.anyStep w ∧ w.model.data.items = [mailLogin] ∧
      (6, .refreshFailed .signedOut) ∈ w.resolved ∧ (w.step (.deliver 6 0)).isSome := by
    refine TransitionSystem.exists_reach_of_run (start .default (some ada))
      (revealPassword ++ [.send .refreshRequested 0, .resolve 6 (.listing (.error .signedOut))])
      ⟨_, _, rfl⟩ ?_
    decide
  obtain ⟨w, hreach, hitems, hmem, hstep⟩ := hrun
  obtain ⟨w', hnext⟩ := Option.isSome_iff_exists.mp hstep
  exact ⟨w, w', hitems, hnext, (signed_out_heeded_iff hreach hnext hmem rfl).mpr (Or.inl ⟨_, rfl⟩)⟩

/-- The password the field list waits for is answered signed out: a notice, and the account's items stay
on screen and in the cache. -/
theorem signed_out_overlooked : ∃ w w' : World, system.Reach TransitionSystem.anyStep w ∧
    (5, .revealFetched mailLogin.key 1 1 (.error .signedOut)) ∈ w.resolved ∧
    w.model.awaitsSignedOut (.revealFetched mailLogin.key 1 1 (.error .signedOut)) ∧
    w.step (.deliver 5 0) = some w' ∧ w'.model.session = .signedIn ada ∧
    w'.model.data.items = [mailLogin] ∧ .deleteCache ∉ w.issued w' ∧
    ¬ SignsOut (w'.model, w.issued w') := by
  have hrun : ∃ w, system.Reach TransitionSystem.anyStep w ∧
      (5, .revealFetched mailLogin.key 1 1 (.error .signedOut)) ∈ w.resolved ∧
      w.model.awaitsSignedOut (.revealFetched mailLogin.key 1 1 (.error .signedOut)) ∧
      (w.step (.deliver 5 0)).any fun w' => w'.model.session = .signedIn ada ∧
        w'.model.data.items = [mailLogin] ∧ .deleteCache ∉ w.issued w' := by
    refine TransitionSystem.exists_reach_of_run (start .default (some ada))
      (revealPassword ++ [.resolve 5 (.field (.error .signedOut))]) ⟨_, _, rfl⟩ ?_
    decide
  obtain ⟨w, hreach, hmem, hawaited, hlater⟩ := hrun
  obtain ⟨w', hstep, hdecided⟩ := (Option.any_eq_true _ _).mp hlater
  obtain ⟨hsession, hitems, hcache⟩ := of_decide_eq_true hdecided
  exact ⟨w, w', hreach, hmem, hawaited, hstep, hsession, hitems, hcache,
    fun hout => hcache hout.cache⟩

theorem failure_undisturbed_offline : ∃ m : Model, m.data.items = [mailLogin] ∧
    m.view.revealed.fieldTarget.isSome ∧
    m.Undisturbed (m.update (.revealFetched mailLogin.key 1 1 (.error .network)) 0).1 := by
  have hrun : ∃ w, system.Reach TransitionSystem.anyStep w ∧ w.model.data.items = [mailLogin] ∧
      w.model.view.revealed.fieldTarget.isSome := by
    refine TransitionSystem.exists_reach_of_run (start .default (some ada)) revealPassword
      ⟨_, _, rfl⟩ ?_
    decide
  obtain ⟨w, -, hitems, htarget⟩ := hrun
  exact ⟨w.model, hitems, htarget, (failure_undisturbed rfl 0).1⟩

end Examples

end World

end CosmicPass
