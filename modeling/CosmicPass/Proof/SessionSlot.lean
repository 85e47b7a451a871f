import CosmicPass.Proof.DataSlot

/-!
# The session and the refresh under way

A session that is being checked, or signed in to, waits for the probe or the login asked for; the
refresh flag is up exactly while one refresh is under way. `update_sessionMove` and
`update_refreshMove` say what one message does to them.
-/

namespace CosmicPass

def Msg.endsRefresh : Msg → Bool
  | .dataLoaded _ | .refreshFailed _ => true
  | _ => false

namespace Model

/-- What one message does to a session that is being checked or signed in to. -/
structure SessionMove (m : Model) (msg : Msg) (r : Model × List Effect) : Prop where
  checking : r.1.session = .checking → .probeSession ∈ r.2 ∨
    m.session = .checking ∧ ∀ result, msg ≠ .sessionProbed result
  loggingIn : r.1.session = .loggingIn → .startLogin ∈ r.2 ∨
    m.session = .loggingIn ∧ ∀ result, msg ≠ .loginFinished result

/-- What one message does to the refresh flag. -/
inductive RefreshMove (m : Model) (msg : Msg) (r : Model × List Effect) : Prop
  | keep (hflag : r.1.data.refreshing = m.data.refreshing) (heffects : .refresh ∉ r.2)
      (hmsg : msg.endsRefresh = false)
  | ask (hbefore : m.data.refreshing = false) (hafter : r.1.data.refreshing = true) (k : Nat)
      (heffects : ∀ i, r.2[i]? = some .refresh ↔ i = k) (hmsg : msg.endsRefresh = false)
  | settle (hafter : r.1.data.refreshing = false) (heffects : .refresh ∉ r.2)
      (hmsg : msg.endsRefresh = true)

variable (m : Model)

theorem SessionMove.of_same {m : Model} {msg : Msg} {r : Model × List Effect}
    (hsession : r.1.session = m.session) (hprobe : ∀ result, msg ≠ .sessionProbed result)
    (hlogin : ∀ result, msg ≠ .loginFinished result) : SessionMove m msg r :=
  ⟨fun h => Or.inr ⟨hsession ▸ h, hprobe⟩, fun h => Or.inr ⟨hsession ▸ h, hlogin⟩⟩

theorem refresh_position {before : List Effect} (hbefore : .refresh ∉ before) (i : Nat) :
    (before ++ [.refresh])[i]? = some Effect.refresh ↔ i = before.length := by
  rcases lt_trichotomy i before.length with hlt | heq | hgt
  · rw [List.getElem?_append_left hlt]
    constructor
    · intro hget
      exact absurd (List.mem_of_getElem? hget) hbefore
    · intro heq
      omega
  · simp [heq]
  · have hnone : (before ++ [Effect.refresh])[i]? = none := by
      rw [List.getElem?_eq_none_iff, List.length_append, List.length_singleton]
      omega
    simp only [hnone, reduceCtorEq, false_iff]
    omega

theorem requestRefresh_refreshMove {m : Model} (m₁ : Model) {msg : Msg} (before : List Effect)
    (hflag : m₁.data.refreshing = m.data.refreshing) (hbefore : .refresh ∉ before)
    (hmsg : msg.endsRefresh = false) :
    RefreshMove m msg (m₁.requestRefresh.1, before ++ m₁.requestRefresh.2) := by
  rw [requestRefresh_fst, requestRefresh_snd]
  by_cases hasks : m₁.data.refreshing = false ∧ m₁.mayRefresh
  · rw [if_pos hasks]
    exact .ask (hflag.symm.trans hasks.1) (by simp [hasks.2]) before.length
      (refresh_position hbefore) hmsg
  · rw [if_neg hasks]
    refine .keep ?_ (by simpa using hbefore) hmsg
    cases hrefreshing : m₁.data.refreshing with
    | true => simp [← hflag, hrefreshing]
    | false =>
        have hmay : m₁.mayRefresh = false := by simpa [hrefreshing] using hasks
        simp [← hflag, hrefreshing, hmay]

theorem show_refreshMove (now : Int) {msg : Msg} (hmsg : msg.endsRefresh = false) :
    RefreshMove m msg (m.show now) := by
  unfold Model.show
  split
  · exact .keep rfl (by simp) hmsg
  · dsimp only
    split
    · exact requestRefresh_refreshMove _ [.showWindow] rfl (by simp) hmsg
    · exact .keep rfl (by simp) hmsg

section Moves

variable [TextSupport]

theorem sessionError_refreshing (error : PassError) :
    (m.sessionError error).1.data.refreshing = m.data.refreshing := by
  unfold sessionError
  split <;> rfl

theorem refresh_notMem_sessionError (error : PassError) :
    .refresh ∉ (m.sessionError error).2 := by
  intro hmem
  simpa using m.mem_sessionError hmem

theorem copySettled_refreshMove {m m₁ : Model} (hflag : m₁.data.refreshing = m.data.refreshing)
    (key : ItemKey) (secret : Bool) (result : Except PassError SecretString) (now : Int) :
    RefreshMove m (.copyFetched key result) (m₁.copySettled key secret result now) := by
  unfold copySettled
  split
  next => exact .keep hflag (by simp [finishCopy]) rfl
  next => exact .keep hflag (by simp) rfl
  next =>
    exact requestRefresh_refreshMove (m₁.notify "Item no longer exists").1
      [(m₁.notify "Item no longer exists").2] hflag (by simp [notify]) rfl
  next => exact .keep hflag (by simp [notify]) rfl
  next error _ _ _ =>
    refine .keep ((sessionError_refreshing (m₁.notify error.toText).1 error).trans hflag) ?_ rfl
    intro hmem
    rcases List.mem_cons.mp hmem with hexpire | hrest
    · simp [notify] at hexpire
    · exact refresh_notMem_sessionError _ error hrest

theorem copyFetched_refreshMove (key : ItemKey) (result : Except PassError SecretString)
    (now : Int) : RefreshMove m (.copyFetched key result) (m.copyFetched key result now) := by
  unfold copyFetched
  split
  next => exact .keep rfl (by simp) rfl
  next =>
    split
    · refine copySettled_refreshMove ?_ key _ result now
      rfl
    · exact .keep rfl (by simp) rfl

theorem sessionError_session (error : PassError) :
    (m.sessionError error).1.session = m.session ∨
      (m.sessionError error).1.session ≠ .checking ∧
        (m.sessionError error).1.session ≠ .loggingIn := by
  rcases m.sessionError_cases error with ⟨-, -, -, h⟩ | ⟨-, h | h | h | ⟨_, h⟩⟩
  · exact Or.inr (by simp [h])
  · exact Or.inl h
  · exact Or.inr (by simp [h])
  · exact Or.inr (by simp [h])
  · exact Or.inr (by simp [h])

theorem SessionMove.of_error {m m₁ : Model} {msg : Msg} {effects : List Effect} (error : PassError)
    (hsession : m₁.session = m.session) (hprobe : ∀ result, msg ≠ .sessionProbed result)
    (hlogin : ∀ result, msg ≠ .loginFinished result) :
    SessionMove m msg ((m₁.sessionError error).1, effects) := by
  rcases m₁.sessionError_session error with hsame | ⟨hchecking, hlogging⟩
  · exact .of_same (hsame.trans hsession) hprobe hlogin
  · exact ⟨fun h => absurd h hchecking, fun h => absurd h hlogging⟩

theorem sessionProbed_sessionMove (result : Except PassError AccountId) :
    SessionMove m (.sessionProbed result) (m.sessionProbed result) := by
  cases result with
  | ok account =>
      have hsession : (m.signedIn account).1.session = .signedIn account := by
        rw [signedIn_fst, requestRefresh_fst]
      exact ⟨by simp [sessionProbed, hsession], by simp [sessionProbed, hsession]⟩
  | error error =>
      simp only [sessionProbed]
      -- A session in question is answered; any other keeps waiting for its login.
      split
      next => constructor <;> intro h <;> cases error <;> simp at h
      next => constructor <;> intro h <;> cases error <;> simp at h
      next hchecking _ =>
        refine ⟨fun h => absurd h hchecking, fun h => Or.inr ⟨?_, by simp⟩⟩
        rcases m.sessionError_session error with hsame | ⟨-, hlogging⟩
        · exact hsame ▸ h
        · exact absurd h hlogging

theorem copyFetched_sessionMove (key : ItemKey) (result : Except PassError SecretString)
    (now : Int) : SessionMove m (.copyFetched key result) (m.copyFetched key result now) := by
  unfold copyFetched
  split
  next => exact .of_same rfl (by simp) (by simp)
  next =>
    split
    · unfold copySettled
      split
      next => exact .of_same rfl (by simp) (by simp)
      next => exact .of_same rfl (by simp) (by simp)
      next => exact .of_same (by rw [requestRefresh_fst]; rfl) (by simp) (by simp)
      next => exact .of_same rfl (by simp) (by simp)
      next error _ _ _ => exact .of_error error rfl (by simp) (by simp)
    · exact .of_same rfl (by simp) (by simp)

/-- **What a message does to a session in the making.** -/
theorem update_sessionMove (msg : Msg) (now : Int) : SessionMove m msg (m.update msg now) := by
  by_cases htouches : Part.session ∈ msg.touches
  · cases msg with
    | toggle =>
        rw [update]
        split
        · exact .of_same rfl (by simp) (by simp)
        · exact .of_same (by rw [show_fst]) (by simp) (by simp)
    | «show» => exact .of_same (by rw [update, show_fst]) (by simp) (by simp)
    | refreshRequested => exact .of_same (by rw [update, requestRefresh_fst]) (by simp) (by simp)
    | startup =>
        refine ⟨fun _ => Or.inl (by simp [update, startup]), fun h => Or.inr ⟨?_, by simp⟩⟩
        simp only [update, startup] at h
        split at h <;> simp_all
    | startLogin =>
        simp only [update, startLogin]
        split
        · exact ⟨by simp, by simp⟩
        · exact .of_same rfl (by simp) (by simp)
    | loginFinished result =>
        cases result <;> exact ⟨by simp [update, loginFinished], by simp [update, loginFinished]⟩
    | dataLoaded listing =>
        refine .of_same ?_ (by simp) (by simp)
        simp [update, dataLoaded, replaceItems, dropStaleReveal_eq, recomputeResults]
    | refreshFailed error => exact .of_error error rfl (by simp) (by simp)
    | sessionProbed result => exact m.sessionProbed_sessionMove result
    | copyFetched key result => exact m.copyFetched_sessionMove key result now
    | _ => simp [Msg.touches] at htouches
  · refine .of_same (m.update_untouched msg now htouches).same.1 ?_ ?_
    · rintro result rfl
      simp [Msg.touches] at htouches
    · rintro result rfl
      simp [Msg.touches] at htouches

/-- **What a message does to the refresh under way.** -/
theorem update_refreshMove (msg : Msg) (now : Int) : RefreshMove m msg (m.update msg now) := by
  by_cases htouches : Part.session ∈ msg.touches
  · cases msg with
    | toggle =>
        rw [update]
        split
        · exact .keep rfl (by simp [hide]) rfl
        · exact m.show_refreshMove now rfl
    | «show» => exact m.show_refreshMove now rfl
    | refreshRequested => exact requestRefresh_refreshMove _ [] rfl List.not_mem_nil rfl
    | startup => exact .keep rfl (by simp [update, startup]) rfl
    | startLogin =>
        simp only [update, startLogin]
        split <;> exact .keep rfl (by simp) rfl
    | loginFinished result => cases result <;> exact .keep rfl (by simp [update, loginFinished]) rfl
    | dataLoaded listing =>
        refine .settle ?_ (by simp [update, dataLoaded]) rfl
        simp [update, dataLoaded, replaceItems, dropStaleReveal_eq, recomputeResults]
    | refreshFailed error =>
        refine .settle ?_ (refresh_notMem_sessionError _ error) rfl
        exact sessionError_refreshing _ error
    | sessionProbed result =>
        cases result with
        | ok account =>
            simp only [update, sessionProbed]
            unfold signedIn
            dsimp only
            split
            · exact requestRefresh_refreshMove _ [.deleteCache] rfl (by simp) rfl
            · exact requestRefresh_refreshMove _ [] rfl List.not_mem_nil rfl
        | error error =>
            simp only [update, sessionProbed]
            split <;> exact .keep (m.sessionError_refreshing error)
              (m.refresh_notMem_sessionError error) rfl
    | copyFetched key result => exact m.copyFetched_refreshMove key result now
    | _ => simp [Msg.touches] at htouches
  · have huntouched := m.update_untouched msg now htouches
    refine .keep huntouched.same.2 (fun hmem => huntouched.effects _ hmem rfl) ?_
    cases msg <;> simp [Msg.touches, Msg.endsRefresh] at htouches ⊢

end Moves

end Model

end CosmicPass
