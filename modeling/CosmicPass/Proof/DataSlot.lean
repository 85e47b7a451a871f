import CosmicPass.Proof.CopySlot

/-!
# The data held and the account it is held for

Items, vaults and usage records enter the state from a listing or a cache file, and leave it when the
account they belong to signs out or another one signs in. `update_dataMove` lists what one message can
do to them, and to the session as far as it says whose data they are.
-/

namespace CosmicPass

namespace Model

/-- Nothing of any account is held or shown. -/
structure Wiped (m : Model) : Prop where
  vaults : m.data.vaults = []
  items : m.data.items = []
  usage : m.usage = .empty
  fetchedAt : m.data.fetchedAt = none
  cachedAt : m.data.cachedAt = none
  revealed : m.view.revealed = .nothing

/-- Someone else is signed in, or the data held is someone else's. -/
def heldForAnother (m : Model) (account : AccountId) : Prop :=
  m.signedInAccount.any (fun previous => previous ≠ account) ∨
    m.dataAccount.any fun owner => owner ≠ account

instance (m : Model) (account : AccountId) : Decidable (m.heldForAnother account) :=
  inferInstanceAs (Decidable (_ ∨ _))

def awaitsCopy (m : Model) (key : ItemKey) : Bool :=
  m.view.pending.any fun fetch => fetch.key = key

/-- The message puts an end to what is held: nobody is signed in, or someone else is. -/
def forgets (m : Model) : Msg → Bool
  | .refreshFailed .signedOut | .sessionProbed (.error .signedOut) => true
  | .copyFetched key (.error .signedOut) => m.awaitsCopy key
  | .sessionProbed (.ok account) => m.heldForAnother account
  | _ => false

/-- The same data, held for whoever it is. -/
structure SameData (m m' : Model) : Prop where
  vaults : m'.data.vaults = m.data.vaults
  items : m'.data.items = m.data.items
  usage : m'.usage = m.usage

/-- What one message does to the data held. -/
inductive DataMove (m : Model) (msg : Msg) (now : Int) (m' : Model) : Prop
  | keep (hsame : Part.data.Same m m')
      (hsignedIn : ∀ account, m'.session = .signedIn account → m.session = .signedIn account)
      (hsignedOut : m'.session = .signedOut → m.session = .signedOut)
  | wipe (hwiped : m'.Wiped) (haccount : m'.dataAccount = none) (hsession : m'.session = .signedOut)
  | name (account : AccountId) (hmsg : msg = .sessionProbed (.ok account))
      (hsession : m'.session = .signedIn account) (haccount : m'.dataAccount = some account)
      (hdata : if m.heldForAnother account then m'.Wiped else SameData m m')
  | list (listing : Listing) (hmsg : msg = .dataLoaded listing) (hsession : m'.session = m.session)
      (hvaults : m'.data.vaults = listing.vaults) (hitems : m'.data.items = listing.items)
      (husage : m'.usage = m.usage.prune listing.items)
      (haccount : m'.dataAccount = m.signedInAccount.or m.dataAccount)
  | cache (file : CacheFile) (hmsg : msg = .cacheLoaded (some file))
      (hsession : m'.session = m.session) (hfirst : m.data.fetchedAt = none)
      (hsigned : ∀ account, m.session = .signedIn account → file.account = account)
      (hvaults : m'.data.vaults = file.vaults) (hitems : m'.data.items = file.items)
      (husage : m'.usage = (UsageTable.fromRecords file.usage).prune file.items)
      (haccount : m'.dataAccount = some file.account)
  | use (fetch : PendingFetch) (value : SecretString)
      (hmsg : msg = .copyFetched fetch.key (.ok value)) (hpending : m.view.pending = some fetch)
      (hsession : m'.session = m.session)
      (hdata : m'.data.vaults = m.data.vaults ∧ m'.data.items = m.data.items ∧
        m'.dataAccount = m.dataAccount)
      (husage : m'.usage = m.usage.record fetch.key now)

variable (m : Model)

theorem DataMove.of_same {m m' : Model} {msg : Msg} {now : Int} (hdata : Part.data.Same m m')
    (hsession : m'.session = m.session) : DataMove m msg now m' :=
  .keep hdata (fun _ h => hsession ▸ h) fun h => hsession ▸ h

section Moves

variable [TextSupport]

theorem clearData_wiped : m.clearData.Wiped := ⟨rfl, rfl, rfl, rfl, rfl, rfl⟩

theorem sessionError_cases (error : PassError) :
    (error = .signedOut ∧ (m.sessionError error).1.Wiped ∧
        (m.sessionError error).1.dataAccount = none ∧
        (m.sessionError error).1.session = .signedOut) ∨
      Part.data.Same m (m.sessionError error).1 ∧
        ((m.sessionError error).1.session = m.session ∨
          (m.sessionError error).1.session = .locked ∨
          (m.sessionError error).1.session = .cliMissing ∨
          ∃ text, (m.sessionError error).1.session = .error text) := by
  unfold sessionError
  split
  next => exact Or.inl ⟨rfl, clearData_wiped _, rfl, rfl⟩
  next => exact Or.inr ⟨by simp [Part.Same], Or.inr (Or.inl rfl)⟩
  next => exact Or.inr ⟨by simp [Part.Same], Or.inr (Or.inr (Or.inl rfl))⟩
  next => exact Or.inr ⟨by simp [Part.Same], Or.inr (Or.inr (Or.inr ⟨_, rfl⟩))⟩
  next => exact Or.inr ⟨by simp [Part.Same], Or.inl rfl⟩

theorem sessionError_dataMove {m₀ : Model} {msg : Msg} {now : Int} (error : PassError)
    (hdata : Part.data.Same m₀ m) (hsession : m.session = m₀.session) :
    DataMove m₀ msg now (m.sessionError error).1 := by
  rcases m.sessionError_cases error with ⟨-, hwiped, haccount, hout⟩ | ⟨hsame, hcases⟩
  · exact .wipe hwiped haccount hout
  · refine .keep (hdata.trans hsame) (fun account hin => ?_) fun hout => ?_
    · rcases hcases with h | h | h | ⟨_, h⟩ <;> simp_all
    · rcases hcases with h | h | h | ⟨_, h⟩ <;> simp_all

theorem replaceItems_data (listing : Listing) :
    (m.replaceItems listing).data.vaults = listing.vaults ∧
      (m.replaceItems listing).data.items = listing.items ∧
      (m.replaceItems listing).usage = m.usage.prune listing.items ∧
      (m.replaceItems listing).session = m.session ∧
      (m.replaceItems listing).dataAccount = m.dataAccount := by
  simp [replaceItems, dropStaleReveal_eq, recomputeResults]

theorem signedIn_fst (account : AccountId) :
    (m.signedIn account).1 =
      (requestRefresh { (if m.heldForAnother account then m.clearData else m) with
        session := .signedIn account
        dataAccount := some account }).1 := by
  by_cases hanother : m.heldForAnother account
  · have hguard := hanother
    unfold heldForAnother at hguard
    simp only [signedIn, if_pos hguard, if_pos hanother]
  · have hguard := hanother
    unfold heldForAnother at hguard
    simp only [signedIn, if_neg hguard, if_neg hanother]

theorem signedIn_dataMove (account : AccountId) (now : Int) :
    DataMove m (.sessionProbed (.ok account)) now (m.signedIn account).1 := by
  refine .name account rfl ?_ ?_ ?_
  · rw [signedIn_fst, requestRefresh_fst]
  · rw [signedIn_fst, requestRefresh_fst]
  · rw [signedIn_fst, requestRefresh_fst]
    split
    · exact ⟨rfl, rfl, rfl, rfl, rfl, rfl⟩
    · exact ⟨rfl, rfl, rfl⟩

theorem sessionProbed_error_dataMove (error : PassError) (now : Int) :
    DataMove m (.sessionProbed (.error error)) now (m.sessionProbed (.error error)).1 := by
  have hmove : DataMove m (.sessionProbed (.error error)) now (m.sessionError error).1 :=
    sessionError_dataMove m error (.refl m _) rfl
  -- A session still in question gets an answer that names nobody.
  have hanswered : ∀ session : SessionState, (∀ account, session ≠ .signedIn account) →
      session ≠ .signedOut → (m.sessionError error).1.session ≠ .signedOut →
      DataMove m (.sessionProbed (.error error)) now { (m.sessionError error).1 with session } := by
    intro session hin hout hkept
    rcases m.sessionError_cases error with ⟨-, -, -, hsession⟩ | ⟨hsame, -⟩
    · exact absurd hsession hkept
    · exact .keep (hsame.trans (by simp [Part.Same])) (fun account h => absurd h (hin account))
        fun h => absurd h hout
  simp only [sessionProbed]
  split
  next hchecking => refine hanswered _ ?_ ?_ (by simp [hchecking]) <;> split <;> simp
  next hunknown => refine hanswered _ ?_ ?_ (by simp [hunknown]) <;> split <;> simp
  next => exact hmove

theorem copyFetched_dataMove (key : ItemKey) (result : Except PassError SecretString) (now : Int) :
    DataMove m (.copyFetched key result) now (m.copyFetched key result now).1 := by
  unfold copyFetched
  split
  next => exact .of_same (.refl m _) rfl
  next fetch hpending =>
    split
    next hkey =>
      subst hkey
      unfold copySettled
      split
      next value =>
        refine .use fetch value rfl hpending ?_ ⟨?_, ?_, ?_⟩ ?_ <;> simp only [finishCopy]
      next => exact .of_same (by simp [Part.Same]) rfl
      next =>
        refine .of_same ?_ ?_
        · rw [requestRefresh_fst]
          simp [Part.Same, notify]
        · rw [requestRefresh_fst]
          rfl
      next => exact .of_same (by simp [Part.Same, notify]) rfl
      next error _ _ _ =>
        exact sessionError_dataMove _ error (by simp [Part.Same, notify]) rfl
    next => exact .of_same (.refl m _) rfl

theorem update_dataLoaded (listing : Listing) (now : Int) :
    (m.update (.dataLoaded listing) now).1.data.vaults = listing.vaults ∧
      (m.update (.dataLoaded listing) now).1.data.items = listing.items ∧
      (m.update (.dataLoaded listing) now).1.usage = m.usage.prune listing.items ∧
      (m.update (.dataLoaded listing) now).1.session = m.session ∧
      (m.update (.dataLoaded listing) now).1.dataAccount = m.signedInAccount.or m.dataAccount :=
  replaceItems_data _ listing

/-- **What a message does to the data held.** -/
theorem update_dataMove (msg : Msg) (now : Int) : DataMove m msg now (m.update msg now).1 := by
  by_cases htouches : Part.data ∈ msg.touches
  · cases msg with
    | dataLoaded listing =>
        obtain ⟨hvaults, hitems, husage, hsession, haccount⟩ := m.update_dataLoaded listing now
        exact .list listing rfl hsession hvaults hitems husage haccount
    | cacheLoaded file =>
        simp only [update, cacheLoaded]
        split
        next => exact .of_same (.refl m _) rfl
        next file =>
          split
          next => exact .of_same (.refl m _) rfl
          next hfirst =>
            split
            next => exact .of_same (.refl m _) rfl
            next hsigned =>
              refine .cache file rfl ?_ (by simpa using hfirst) ?_ ?_ ?_ ?_ ?_
              · rw [(replaceItems_data _ _).2.2.2.1]
              · intro account hin
                simp only [signedInAccount, hin, Option.any_some, decide_eq_true_eq, ne_eq,
                  not_not] at hsigned
                exact hsigned.symm
              · rw [(replaceItems_data _ _).1]
              · rw [(replaceItems_data _ _).2.1]
              · rw [(replaceItems_data _ _).2.2.1]
              · rw [(replaceItems_data _ _).2.2.2.2]
    | refreshFailed error =>
        exact sessionError_dataMove _ error (by simp [Part.Same]) rfl
    | sessionProbed result =>
        cases result with
        | ok account => exact m.signedIn_dataMove account now
        | error error => exact m.sessionProbed_error_dataMove error now
    | copyFetched key result => exact m.copyFetched_dataMove key result now
    | _ => simp [Msg.touches] at htouches
  · have hsame := (m.update_untouched msg now htouches).same
    by_cases hsession : Part.session ∈ msg.touches
    · cases msg with
      | toggle =>
          refine .of_same hsame ?_
          simp only [update]
          split
          · rfl
          · rw [show_fst]
      | «show» =>
          refine .of_same hsame ?_
          simp only [update, show_fst]
      | refreshRequested =>
          refine .of_same hsame ?_
          simp only [update, requestRefresh_fst]
      | startup =>
          refine .keep hsame ?_ ?_ <;> simp only [update, startup]
          · intro account hin
            split at hin <;> simp_all
          · intro hout
            split at hout <;> simp_all
      | startLogin =>
          simp only [update, startLogin] at hsame ⊢
          split
          · refine .keep ?_ (by simp) (by simp)
            simp [Part.Same]
          · exact .of_same (.refl m _) rfl
      | loginFinished result =>
          refine .keep hsame ?_ ?_ <;> cases result <;> simp [update, loginFinished]
      | _ => simp [Msg.touches] at htouches hsession
    · exact .of_same hsame (m.update_untouched msg now hsession).same.1

theorem wiped_of_forgets {m : Model} {msg : Msg} (h : m.forgets msg) (now : Int) :
    (m.update msg now).1.Wiped := by
  unfold forgets at h
  split at h
  next => exact clearData_wiped _
  next =>
    have hsession : (m.sessionError .signedOut).1.session = .signedOut := rfl
    simp only [update, sessionProbed, hsession]
    exact clearData_wiped _
  next =>
    obtain ⟨fetch, hpending, hkey⟩ := (Option.any_eq_true _ _).mp h
    simp only [update, copyFetched, hpending, of_decide_eq_true hkey, if_true]
    exact clearData_wiped _
  next account =>
    simp only [update, sessionProbed]
    rw [signedIn_fst, requestRefresh_fst, if_pos (of_decide_eq_true h)]
    exact ⟨rfl, rfl, rfl, rfl, rfl, rfl⟩
  next => simp at h

/-- What is held is held for whoever is signed in. -/
theorem update_dataAccount {m : Model} (msg : Msg) (now : Int)
    (h : ∀ account, m.session = .signedIn account → m.dataAccount = some account) {account : AccountId}
    (hsession : (m.update msg now).1.session = .signedIn account) :
    (m.update msg now).1.dataAccount = some account := by
  cases m.update_dataMove msg now with
  | keep hsame hsignedIn _ =>
      obtain ⟨-, -, -, -, -, -, haccount⟩ := hsame
      exact haccount.trans (h account (hsignedIn account hsession))
  | wipe _ _ hout => simp [hout] at hsession
  | name named _ hnamed haccount _ =>
      rw [haccount, SessionState.signedIn.inj (hnamed.symm.trans hsession)]
  | list listing _ hsame _ _ _ haccount =>
      rw [haccount, signedInAccount, ← hsame, hsession]
      rfl
  | cache file _ hsame _ hsigned _ _ _ haccount =>
      rw [haccount, hsigned account (hsame ▸ hsession)]
  | use fetch _ _ _ hsame hdata _ => exact hdata.2.2.trans (h account (hsame ▸ hsession))

end Moves

end Model

end CosmicPass
