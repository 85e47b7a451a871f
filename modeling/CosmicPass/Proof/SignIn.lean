import CosmicPass.Proof.Attribution
import CosmicPass.Proof.Waiting

/-!
# One sign-in at a time

Signing in is offered when the account is signed out or its session is broken, and `LoggingIn` is what
keeps it from being offered twice. An answer asked for before the login, or while it runs, can name
another session state over it. As long as none does, at most one login is under way; one that does is
enough for a second.
-/

namespace CosmicPass

theorem startLogin_of_execute {effect : Effect} {reply : Reply} {result : Except PassError Unit}
    (h : execute effect reply = some (.loginFinished result)) : effect = .startLogin := by
  unfold execute at h
  split at h <;> simp_all

namespace Model

/-- The answer leaves signing in as the thing to do: it says that the account is signed out or that
the local data cannot be opened, or it fails to settle a session in question. -/
def asksToSignIn (m : Model) : Msg → Bool
  | .refreshFailed error => error = .signedOut ∨ error = .localData
  | .copyFetched key (.error error) =>
      (error = .signedOut ∨ error = .localData) ∧ m.view.pending.any fun fetch => fetch.key = key
  | .sessionProbed (.error error) =>
      match error with
      | .signedOut | .localData => true
      | .locked | .cliMissing | .network | .timeout | .cancelled => false
      | _ => m.session = .checking ∨ m.session = .unknown
  | _ => false

theorem canStartLogin_iff {m : Model} :
    m.canStartLogin ↔ m.session = .signedOut ∨ ∃ text, m.session = .error text := by
  unfold canStartLogin
  split <;> simp_all

theorem canStartLogin_of_session {m m' : Model} (h : m'.session = m.session) :
    m'.canStartLogin = m.canStartLogin := by
  rw [canStartLogin, canStartLogin, h]

section Moves

variable [TextSupport] (m : Model)

theorem sessionError_canStartLogin (error : PassError) :
    (m.sessionError error).1.canStartLogin ↔ error = .signedOut ∨ error = .localData ∨
      m.canStartLogin ∧ error ≠ .locked ∧ error ≠ .cliMissing := by
  cases error with
  | signedOut | locked | cliMissing | localData => simp [canStartLogin_iff, sessionError, clearData,
      clearRevealed, dropReveal, cancelReveal, recomputeResults]
  | _ => simp [canStartLogin_iff, sessionError]

theorem sessionProbed_canStartLogin (error : PassError) (h : m.canStartLogin = false) :
    (m.sessionProbed (.error error)).1.canStartLogin ↔
      m.asksToSignIn (.sessionProbed (.error error)) := by
  have hsession : ¬ (m.session = .signedOut ∨ ∃ text, m.session = .error text) := by
    rw [← canStartLogin_iff, h]
    simp
  cases error with
  | signedOut | locked | cliMissing | localData => simp [canStartLogin_iff, sessionProbed, sessionError,
      clearData, clearRevealed, dropReveal, cancelReveal, recomputeResults, asksToSignIn]
  | _ =>
    simp only [sessionProbed, sessionError, asksToSignIn]
    split <;> simp_all [canStartLogin_iff]

theorem copyFetched_canStartLogin (key : ItemKey) (result : Except PassError SecretString)
    (now : Int) (h : m.canStartLogin = false) :
    (m.copyFetched key result now).1.canStartLogin ↔ m.asksToSignIn (.copyFetched key result) := by
  unfold copyFetched
  split
  next hnone => cases result <;> simp [h, asksToSignIn, hnone]
  next fetch hpending =>
    split
    next hkey =>
      have hkept : ∀ m' : Model, m'.session = m.session → m'.canStartLogin = false := fun _ hsame =>
        (canStartLogin_of_session hsame).trans h
      unfold copySettled
      split
      next => simp [hkept, finishCopy, asksToSignIn]
      next => simp [hkept, asksToSignIn]
      next =>
        rw [requestRefresh_fst]
        simp [hkept, notify, asksToSignIn]
      next => simp [hkept, notify, asksToSignIn]
      next error _ _ _ =>
        rw [sessionError_canStartLogin]
        simp [hkept, notify, asksToSignIn, hpending, hkey]
    next hkey => cases result <;> simp [h, asksToSignIn, hpending, hkey]

/-- **What makes signing in possible.** Where it is not offered, one of the answers that ask for it is
what offers it, or a login that failed. -/
theorem update_canStartLogin (msg : Msg) (now : Int) (h : m.canStartLogin = false) :
    (m.update msg now).1.canStartLogin ↔
      m.asksToSignIn msg ∨ ∃ error, msg = .loginFinished (.error error) := by
  have hkept : ∀ {m' : Model}, m'.session = m.session → m.asksToSignIn msg = false →
      (∀ error, msg ≠ .loginFinished (.error error)) →
      (m'.canStartLogin ↔ m.asksToSignIn msg ∨ ∃ error, msg = .loginFinished (.error error)) := by
    intro m' hsame hasks hlogin
    simp [canStartLogin_of_session hsame, h, hasks, hlogin]
  by_cases htouches : Part.session ∈ msg.touches
  · cases msg with
    | toggle =>
        refine hkept ?_ rfl (by simp)
        simp only [update]
        split
        · rfl
        · rw [show_fst]
    | «show» => exact hkept (by rw [update, show_fst]) rfl (by simp)
    | refreshRequested => exact hkept (by rw [update, requestRefresh_fst]) rfl (by simp)
    | dataLoaded listing => exact hkept (replaceItems_data _ listing).2.2.2.1 rfl (by simp)
    | startup =>
        simp only [update, startup, canStartLogin_iff, asksToSignIn]
        split <;> simp
    | startLogin => simp [update, startLogin, h, asksToSignIn]
    | loginFinished result =>
        cases result <;> simp [update, loginFinished, canStartLogin_iff, asksToSignIn]
    | refreshFailed error =>
        have hflagged : Model.canStartLogin
            { m with data := { m.data with refreshing := false, stale := true } } = false := h
        simp [update, refreshFailed, sessionError_canStartLogin, hflagged, asksToSignIn]
    | sessionProbed result =>
        cases result with
        | ok account =>
            simp [update, sessionProbed, canStartLogin_iff, signedIn_fst, requestRefresh_fst,
              asksToSignIn]
        | error error => simpa [update] using m.sessionProbed_canStartLogin error h
    | copyFetched key result => simpa [update] using m.copyFetched_canStartLogin key result now h
    | _ => simp [Msg.touches] at htouches
  · refine hkept (m.update_untouched msg now htouches).same.1 ?_ ?_
    · cases msg <;> simp [Msg.touches] at htouches <;> rfl
    · rintro error rfl
      simp [Msg.touches] at htouches

/-- A login is asked for by the user alone, and only where it is offered. -/
theorem startLogin_mem_update {msg : Msg} {now : Int} (h : .startLogin ∈ (m.update msg now).2) :
    msg = .startLogin ∧ m.canStartLogin := by
  by_cases htouches : Part.session ∈ msg.touches
  · cases msg with
    | startLogin =>
        refine ⟨rfl, ?_⟩
        simp only [update, startLogin] at h
        split at h
        next hoffered => exact hoffered
        next => simp at h
    | toggle =>
        simp only [update] at h
        split at h
        · simp [hide] at h
        · rw [show_snd] at h
          split at h <;> simp at h
    | «show» =>
        rw [update, show_snd] at h
        split at h <;> simp at h
    | refreshRequested => simpa using m.mem_requestRefresh h
    | startup => simp [update, startup] at h
    | loginFinished result => cases result <;> simp [update, loginFinished] at h
    | dataLoaded listing => simp [update, dataLoaded] at h
    | refreshFailed error => simpa using mem_sessionError _ h
    | sessionProbed result => simpa using m.mem_sessionProbed h
    | copyFetched key result =>
        simp only [update, copyFetched] at h
        split at h
        · simp at h
        · split at h
          · simpa using mem_copySettled _ h
          · simp at h
    | _ => simp [Msg.touches] at htouches
  · exact absurd rfl ((m.update_untouched msg now htouches).effects _ h)

end Moves

end Model

namespace World

def SigningIn (w : World) : Prop := ∃ id, w.Unanswered id .startLogin

instance (w : World) : Decidable w.SigningIn :=
  decidable_of_iff (∃ id < w.flights.length, w.Unanswered id .startLogin)
    ⟨fun ⟨id, _, hopen⟩ => ⟨id, hopen⟩, fun ⟨id, hopen⟩ => ⟨id, hopen.lt, hopen⟩⟩

/-- While a login is under way, no answer is handled that asks to sign in. -/
def leavesSignIn (w : World) : Event → Bool
  | .deliver id _ => w.SigningIn →
      (w.resolved.find? fun done => done.1 = id).all fun done => !w.model.asksToSignIn done.2
  | _ => true

/-- At most one login is under way, and while one is, none is offered. -/
structure OneSignIn (w : World) : Prop where
  once : ∀ id id', w.Unanswered id .startLogin → w.Unanswered id' .startLogin → id = id'
  closed : w.SigningIn → w.model.canStartLogin = false

section Runs

variable [TextSupport] {w w' : World} {source : Option Nat} {msg : Msg} {now : Int}

omit [TextSupport] in
theorem leavesSignIn_deliver (hconsistent : w.Consistent) {id : Nat} (hmsg : (id, msg) ∈ w.resolved) :
    leavesSignIn w (.deliver id now) ↔ (w.SigningIn → w.model.asksToSignIn msg = false) := by
  simp [leavesSignIn, hconsistent.find?_resolved hmsg, imp_iff_not_or]

theorem Handled.startLogin_of_loginFinished {result : Except PassError Unit}
    (h : Handled w source (.loginFinished result) now w') :
    ∃ id, source = some id ∧ w.Unanswered id .startLogin := by
  obtain ⟨id, hsource⟩ := h.answers_of_isAnswer rfl
  obtain ⟨-, ⟨flight, reply, hflight, hexecute, -⟩, hopen⟩ := h.answer id hsource
  exact ⟨id, hsource, ⟨flight, hflight, startLogin_of_execute hexecute⟩, hopen⟩

theorem OneSignIn.handled (hone : w.OneSignIn) (hconsistent : w.Consistent)
    (h : Handled w source msg now w')
    (hguard : ∀ id, source = some id → leavesSignIn w (.deliver id now)) : w'.OneSignIn := by
  by_cases hstarts : .startLogin ∈ (w.model.update msg now).2
  · -- A login is asked for, so none was under way.
    obtain ⟨rfl, hoffered⟩ := w.model.startLogin_mem_update hstarts
    have hnone : ∀ id, ¬ w.Unanswered id .startLogin := by
      intro id hopen
      simp [hone.closed ⟨id, hopen⟩] at hoffered
    have honly : ∀ id, w'.Unanswered id .startLogin → id = w.flights.length := by
      intro id hopen
      rcases (h.unanswered_iff hconsistent _ _).mp hopen with ⟨-, hold⟩ | ⟨hge, hnew⟩
      · exact absurd hold (hnone id)
      · have hzero := (List.getElem?_eq_some_iff.mp hnew).1
        simp only [Model.update, Model.startLogin, hoffered, if_true, List.length_singleton,
          Nat.lt_one_iff] at hzero
        omega
    refine ⟨fun id id' hid hid' => (honly id hid).trans (honly id' hid').symm, fun _ => ?_⟩
    rw [h.model, Model.update, Model.startLogin, if_pos hoffered]
    rfl
  · have hold : ∀ {id}, w'.Unanswered id .startLogin →
        source ≠ some id ∧ w.Unanswered id .startLogin := by
      intro id hopen
      rcases (h.unanswered_iff hconsistent _ _).mp hopen with hbefore | ⟨-, hnew⟩
      · exact hbefore
      · exact absurd (List.mem_of_getElem? hnew) hstarts
    refine ⟨fun id id' hid hid' => hone.once id id' (hold hid).2 (hold hid').2, ?_⟩
    rintro ⟨id, hopen⟩
    obtain ⟨hother, hbefore⟩ := hold hopen
    by_contra hoffered
    rw [Bool.not_eq_false, h.model,
      w.model.update_canStartLogin msg now (hone.closed ⟨id, hbefore⟩)] at hoffered
    rcases hoffered with hasks | ⟨error, rfl⟩
    · have hanswer : msg.isAnswer := by
        cases msg <;> simp [Model.asksToSignIn, Msg.isAnswer] at hasks ⊢
      obtain ⟨answering, hsource⟩ := h.answers_of_isAnswer hanswer
      have hleaves := (leavesSignIn_deliver hconsistent (h.answer answering hsource).1).mp
        (hguard answering hsource) ⟨id, hbefore⟩
      simp [hasks] at hleaves
    · obtain ⟨answering, hsource, hanswering⟩ := h.startLogin_of_loginFinished
      exact hother (hsource.trans (congrArg some (hone.once _ _ hanswering hbefore)))

theorem oneSignIn_of_reach (h : system.Reach (fun w e => leavesSignIn w e) w) : w.OneSignIn := by
  refine invariant_of_handled ?_ ?_ ?_ h
  · intro prefs account
    refine ⟨?_, ?_⟩ <;> simp [World.start, SigningIn, Unanswered]
  · rintro w w' hquiet ⟨honce, hclosed⟩
    refine ⟨?_, ?_⟩ <;> simpa only [SigningIn, hquiet.unanswered_iff, hquiet.model]
  · intro w w' source msg now _ hconsistent hhandled _ hdeliver hone
    exact hone.handled hconsistent hhandled hdeliver

/-- **At most one sign-in runs at a time**, in every run in which no answer that asks to sign in is
handled while a login is under way. -/
theorem one_sign_in (h : system.Reach (fun w e => leavesSignIn w e) w) {id id' : Nat}
    (hid : w.Unanswered id .startLogin) (hid' : w.Unanswered id' .startLogin) : id = id' :=
  (oneSignIn_of_reach h).once id id' hid hid'

/-- The condition leaves out nothing that does no harm: after a step that does not meet it, asking to
sign in once more puts a second login under way. -/
theorem second_sign_in (h : system.Reach (fun w e => leavesSignIn w e) w) {e : Event}
    (hstep : w.step e = some w') (hbreaks : ¬ leavesSignIn w e) (now : Int) :
    ∃ after id id', w'.step (.send .startLogin now) = some after ∧ id ≠ id' ∧
      after.Unanswered id .startLogin ∧ after.Unanswered id' .startLogin := by
  have hconsistent := consistent_of_reach h
  cases e with
  | deliver answering arrival =>
      obtain ⟨msg, hmem, hhandled⟩ := deliver_handled hconsistent hstep
      rw [leavesSignIn_deliver hconsistent hmem, Classical.not_imp, Bool.not_eq_false] at hbreaks
      obtain ⟨⟨id, hopen⟩, hasks⟩ := hbreaks
      have hoffered : w'.model.canStartLogin := by
        rw [hhandled.model, w.model.update_canStartLogin msg arrival
          ((oneSignIn_of_reach h).closed ⟨id, hopen⟩)]
        exact Or.inl hasks
      have hstill : w'.Unanswered id .startLogin := by
        refine hhandled.unanswered_mono hconsistent hopen fun reply hexecute => ?_
        obtain ⟨result, rfl⟩ := execute_startLogin hexecute
        simp [Model.asksToSignIn] at hasks
      obtain ⟨⟨flight, hflight, heffect⟩, hnever⟩ := hstill
      have hasked : Handled w' none .startLogin now (w'.feed .startLogin now) := feed_handled rfl
      have heffects : (w'.model.update .startLogin now).2[0]? = some .startLogin := by
        simp [Model.update, Model.startLogin, hoffered]
      have hconsistent' := hhandled.consistent hconsistent
      refine ⟨w'.feed .startLogin now, id, w'.flights.length, rfl, ?_, ?_, ?_⟩
      · exact (List.getElem?_eq_some_iff.mp hflight).1.ne
      · exact (hasked.unanswered_iff hconsistent' _ _).mpr
          (Or.inl ⟨by simp, ⟨flight, hflight, heffect⟩, hnever⟩)
      · exact (hasked.unanswered_iff hconsistent' _ _).mpr
          (Or.inr ⟨le_rfl, by simpa using heffects⟩)
  | _ => simp [leavesSignIn] at hbreaks

end Runs

section Examples

attribute [local instance] plainText

theorem one_sign_in_started : ∃ w : World, w.Unanswered 4 .startLogin ∧
    ∀ id, w.Unanswered id .startLogin → id = 4 := by
  have hrun : ∃ w, system.Reach (fun w e => leavesSignIn w e) w ∧ w.Unanswered 4 .startLogin := by
    refine TransitionSystem.exists_reach_of_run (start .default none)
      [.send .startup 0, .resolve 2 (.account (.error .signedOut)), .deliver 2 0,
        .send .startLogin 0, .send .startLogin 0] ⟨_, _, rfl⟩ ?_
    decide
  obtain ⟨w, hreach, hfirst⟩ := hrun
  exact ⟨w, hfirst, fun id hid => one_sign_in hreach hid hfirst⟩

/-- Signing in, then retrying: the probe answers that nobody is signed in, which offers the login that
is under way again. -/
theorem signed_in_twice : ∃ w : World, system.Reach TransitionSystem.anyStep w ∧
    w.Unanswered 4 .startLogin ∧ w.Unanswered 9 .startLogin := by
  refine TransitionSystem.exists_reach_of_run (start .default none)
    [.send .startup 0, .resolve 2 (.account (.error .signedOut)), .deliver 2 0,
      .send .startLogin 0, .send .startup 0, .resolve 7 (.account (.error .signedOut)),
      .deliver 7 0, .send .startLogin 0] ⟨_, _, rfl⟩ ?_
  decide

end Examples

end World

end CosmicPass
