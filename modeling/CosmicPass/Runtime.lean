import CosmicPass.Core.Update
import CosmicPass.Library.TransitionSystem

/-!
# The reducer among its effects

`execute` of `src/runtime.rs` says which message answers an effect, given what the backend, the
clipboard or the cache replied. `World` puts the reducer beside the effects it asked for: each runs on
its own, resolves once, and its message is handled once, in any order.
-/

namespace CosmicPass

inductive Reply where
  | listing (result : Except PassError Listing)
  | field (result : Except PassError SecretString)
  | codes (result : Except PassError Codes)
  | account (result : Except PassError AccountId)
  | version (result : Except PassError CliVersion)
  | login (result : Except PassError Unit)
  | clipboard (result : Except String Unit)
  | cache (file : Option CacheFile)
  | elapsed
deriving DecidableEq

def Reply.isCancelled : Reply → Bool
  | .field result => result = .error .cancelled
  | .codes result => result = .error .cancelled
  | _ => false

def pickTotp (codes : Codes) (field : String) : Except PassError SecretString :=
  let «alias» := if field = "totp_uri" then "totp" else field
  match (codes.get? field).or (codes.get? «alias») with
  | some code => .ok code
  | none => .error .fieldMissing

/-- The message an effect sends back into the reducer; `none` where the reply is not one the effect's
call returns, or the effect sends nothing. -/
def execute : Effect → Reply → Option Msg
  | .refresh, .listing (.ok listing) => some (.dataLoaded listing)
  | .refresh, .listing (.error error) => some (.refreshFailed error)
  | .fetchAndCopy key _ _ _, .field result => some (.copyFetched key result)
  | .fetchTotpAndCopy key field _, .codes result =>
      some (.copyFetched key (result.bind fun codes => pickTotp codes field))
  | .copy _ _, .clipboard result => some (.copyFinished result)
  | .probeSession, .account result => some (.sessionProbed result)
  | .probeVersion, .version result => some (.versionProbed result)
  | .startLogin, .login result => some (.loginFinished result)
  | .fetchReveal key _ index generation _, .field result =>
      some (.revealFetched key index generation result)
  | .fetchTotp key _, .codes result => some (.totpFetched key result)
  | .loadCache, .cache file => some (.cacheLoaded file)
  | .expireNotice id _, .elapsed => some (.noticeExpired id)
  | _, _ => none

/-- Whether a message only ever answers an effect. The others come from the user, the clock, D-Bus,
the preferences watcher, or the output of a login still running. -/
def Msg.isAnswer : Msg → Bool
  | .dataLoaded _ | .refreshFailed _ | .noticeExpired _ | .copyFetched _ _ | .copyFinished _
  | .sessionProbed _ | .versionProbed _ | .loginFinished _ | .revealFetched _ _ _ _
  | .totpFetched _ _ | .cacheLoaded _ => true
  | _ => false

structure Flight where
  effect : Effect
  /-- The reducer's state when it asked. -/
  asked : Model
  account : Option AccountId
deriving DecidableEq

/-- The reducer, the effects it has asked for so far, and what became of them. -/
structure World where
  model : Model
  account : Option AccountId
  /-- In the order they were asked for; an effect's number is its position. -/
  flights : List Flight
  resolved : List (Nat × Msg)
  answered : List (Nat × Msg)
deriving DecidableEq

inductive Event where
  | send (msg : Msg) (now : Int)
  | resolve (id : Nat) (reply : Reply)
  | deliver (id : Nat) (now : Int)
  | switchAccount (account : Option AccountId)
deriving DecidableEq

namespace World

def start (prefs : Preferences) (account : Option AccountId) : World :=
  { model := .new prefs, account, flights := [], resolved := [], answered := [] }

def fetchCancelled (w : World) (effect : Effect) : Bool :=
  effect.token.any fun token => w.model.tokens.IsCancelled token

/-- The effect of this number has been asked for, and its message has not been handled. -/
def Unanswered (w : World) (id : Nat) (effect : Effect) : Prop :=
  (∃ flight, w.flights[id]? = some flight ∧ flight.effect = effect) ∧
    ∀ msg, (id, msg) ∉ w.answered

section Steps

variable [TextSupport]

def feed (w : World) (msg : Msg) (now : Int) : World :=
  let (model, effects) := w.model.update msg now
  { w with
    model
    flights := w.flights ++ effects.map fun effect =>
      { effect, asked := w.model, account := w.account } }

def step (w : World) : Event → Option World
  | .send msg now => if msg.isAnswer then none else some (w.feed msg now)
  | .resolve id reply =>
      match w.flights[id]? with
      | none => none
      | some flight =>
          match execute flight.effect reply with
          | none => none
          | some msg =>
              -- `run_inner` reports `Cancelled` only once the token fires.
              if (w.resolved.any fun done => done.1 = id) ∨
                  reply.isCancelled ∧ ¬ w.fetchCancelled flight.effect then none
              else some { w with resolved := (id, msg) :: w.resolved }
  | .deliver id now =>
      match w.resolved.find? fun done => done.1 = id with
      | none => none
      | some (_, msg) =>
          if w.answered.any fun done => done.1 = id then none
          else some { w.feed msg now with answered := (id, msg) :: w.answered }
  | .switchAccount account => some { w with account }

def system : TransitionSystem World Event :=
  { init := fun w => ∃ prefs account, w = start prefs account
    step := step }

/-- **What one event does.** A message is handled, an effect resolves, or `pass-cli` changes hands. -/
theorem step_cases {w w' : World} {e : Event} (h : w.step e = some w') :
    (∃ msg now, e = .send msg now ∧ msg.isAnswer = false ∧ w' = w.feed msg now) ∨
    (∃ id reply flight msg, e = .resolve id reply ∧ w.flights[id]? = some flight ∧
      execute flight.effect reply = some msg ∧ (∀ msg, (id, msg) ∉ w.resolved) ∧
      (reply.isCancelled → w.fetchCancelled flight.effect) ∧
      w' = { w with resolved := (id, msg) :: w.resolved }) ∨
    (∃ id now msg, e = .deliver id now ∧ (id, msg) ∈ w.resolved ∧
      (∀ msg, (id, msg) ∉ w.answered) ∧
      w' = { w.feed msg now with answered := (id, msg) :: w.answered }) ∨
    (∃ account, e = .switchAccount account ∧ w' = { w with account }) := by
  cases e with
  | send msg now =>
      cases hanswer : msg.isAnswer with
      | true => simp [step, hanswer] at h
      | false =>
          refine Or.inl ⟨msg, now, rfl, hanswer, ?_⟩
          simpa [step, hanswer] using h.symm
  | resolve id reply =>
      cases hflight : w.flights[id]? with
      | none => simp [step, hflight] at h
      | some flight =>
          cases hmsg : execute flight.effect reply with
          | none => simp [step, hflight, hmsg] at h
          | some msg =>
              simp only [step, hflight, hmsg] at h
              split at h
              next => simp at h
              next hguard =>
                rw [not_or, not_and, not_not] at hguard
                refine Or.inr (Or.inl ⟨id, reply, flight, msg, rfl, hflight, hmsg, ?_, hguard.2, ?_⟩)
                · simpa using hguard.1
                · simpa using h.symm
  | deliver id now =>
      cases hdone : w.resolved.find? fun done => done.1 = id with
      | none => simp [step, hdone] at h
      | some done =>
          obtain ⟨found, msg⟩ := done
          have hmem := List.mem_of_find?_eq_some hdone
          have hid : found = id := by simpa using List.find?_some hdone
          subst hid
          simp only [step, hdone] at h
          split at h
          next => simp at h
          next hguard =>
            refine Or.inr (Or.inr (Or.inl ⟨found, now, msg, rfl, hmem, ?_, ?_⟩))
            · simpa using hguard
            · simpa using h.symm
  | switchAccount account =>
      exact Or.inr (Or.inr (Or.inr ⟨account, rfl, by simpa [step] using h.symm⟩))

end Steps

end World

end CosmicPass
