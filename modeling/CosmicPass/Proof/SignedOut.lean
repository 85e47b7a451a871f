import CosmicPass.Proof.DataSlot
import CosmicPass.Proof.RevealSlot

/-!
# Signed out

Signing out forgets everything held of the account. A listing, a cache file or a copied value that was
asked for before and arrives afterwards is still taken in; `signed_out_holds_nothing` says that
nothing else brings data back, and that each of the three does.
-/

namespace CosmicPass

namespace Model

/-- Nothing of any account is held, shown, or would be cached. -/
structure Forgotten (m : Model) : Prop where
  vaults : m.data.vaults = []
  items : m.data.items = []
  usage : m.usage = .empty
  dataAccount : m.dataAccount = none
  revealed : m.view.revealed = .nothing
  snapshot : m.cacheSnapshot = none

/-- The message brings data of an account, and would be heard. -/
def repopulates (m : Model) : Msg → Bool
  | .dataLoaded listing => listing.vaults ≠ [] ∨ listing.items ≠ []
  | .cacheLoaded (some _) => m.data.fetchedAt = none
  | .copyFetched key (.ok _) => m.view.pending.any fun fetch => fetch.key = key
  | _ => false

variable (m : Model)

theorem cacheSnapshot_of_signedOut {m : Model} (h : m.session = .signedOut) :
    m.cacheSnapshot = none := by
  simp [cacheSnapshot, h]

section Methods

variable [TextSupport]

theorem revealed_update (hitems : m.data.items = []) (hrevealed : m.view.revealed = .nothing)
    (msg : Msg) (now : Int) : (m.update msg now).1.view.revealed = .nothing := by
  have hnone : ∀ key, m.item key = none := by simp [Model.item, hitems]
  cases m.update_revealMove msg now with
  | keep hsame _ _ _ => exact hsame.2.1.trans hrevealed
  | turn hkept _ _ _ _ _ _ => exact hkept.trans hrevealed
  | clear hcleared _ => exact hcleared.revealed
  | drop _ _ _ hdropped _ _ _ _ _ => exact hdropped
  | askField target _ _ item _ hitem _ _ _ _ _ _ => simp [hnone] at hitem
  | askTotp key _ code _ _ hbefore _ _ hitem =>
      rcases hbefore with ⟨hbefore, -⟩ | ⟨hcode, -⟩
      · simp [hrevealed] at hbefore
      · obtain ⟨item, hitem⟩ := hitem hcode
        simp [hnone] at hitem
  | fieldAnswered _ _ _ _ _ _ _ hbefore _ _ => simp [hrevealed] at hbefore
  | totpAnswered _ _ _ _ _ _ hbefore _ _ => simp [hrevealed] at hbefore

theorem forgotten_update (hforgotten : m.session = .signedOut → m.Forgotten) {msg : Msg} {now : Int}
    (hmsg : m.session = .signedOut → m.repopulates msg = false)
    (hout : (m.update msg now).1.session = .signedOut) : (m.update msg now).1.Forgotten := by
  have hsnapshot := cacheSnapshot_of_signedOut hout
  have hrevealed : m.session = .signedOut → (m.update msg now).1.view.revealed = .nothing :=
    fun hbefore => m.revealed_update (hforgotten hbefore).items (hforgotten hbefore).revealed msg now
  cases m.update_dataMove msg now with
  | keep hsame _ hsignedOut =>
      have hbefore := hsignedOut hout
      obtain ⟨hvaults, hitems, -, -, -, husage, haccount⟩ := hsame
      have hold := hforgotten hbefore
      exact ⟨hvaults.trans hold.vaults, hitems.trans hold.items, husage.trans hold.usage,
        haccount.trans hold.dataAccount, hrevealed hbefore, hsnapshot⟩
  | wipe hwiped haccount _ =>
      exact ⟨hwiped.vaults, hwiped.items, hwiped.usage, haccount, hwiped.revealed, hsnapshot⟩
  | name account _ hnamed _ _ => simp [hnamed] at hout
  | list listing hlisting hsame hvaults hitems husage haccount =>
      have hbefore := hsame.symm.trans hout
      have hold := hforgotten hbefore
      have hempty := hmsg hbefore
      simp only [hlisting, repopulates, decide_eq_false_iff_not, not_or, not_not] at hempty
      refine ⟨hvaults.trans hempty.1, hitems.trans hempty.2, ?_, ?_, hrevealed hbefore, hsnapshot⟩
      · rw [husage, hold.usage]
        rfl
      · rw [haccount, hold.dataAccount, signedInAccount, hbefore]
        rfl
  | cache file hfile hsame hfirst _ _ _ _ _ =>
      have hlate := hmsg (hsame.symm.trans hout)
      simp [hfile, repopulates, hfirst] at hlate
  | use fetch value hvalue hpending hsame _ _ =>
      have hlate := hmsg (hsame.symm.trans hout)
      simp [hvalue, repopulates, hpending] at hlate

theorem not_forgotten_update (hforgotten : m.Forgotten) (hout : m.session = .signedOut) {msg : Msg}
    (now : Int) (hmsg : m.repopulates msg = true) :
    (m.update msg now).1.session = .signedOut ∧ ¬ (m.update msg now).1.Forgotten := by
  cases msg with
  | dataLoaded listing =>
      have hbrings : listing.vaults ≠ [] ∨ listing.items ≠ [] := by simpa [repopulates] using hmsg
      obtain ⟨hvaults, hitems, -, hsession, -⟩ := replaceItems_data
        { m with
          data := { m.data with
            refreshing := false
            stale := false
            lastError := none
            source := .memory
            fetchedAt := some now
            cachedAt := none }
          dataAccount := m.signedInAccount.or m.dataAccount } listing
      refine ⟨hsession.trans hout, fun hafter => ?_⟩
      rcases hbrings with hsome | hsome
      · exact hsome (hvaults.symm.trans hafter.vaults)
      · exact hsome (hitems.symm.trans hafter.items)
  | cacheLoaded file =>
      cases file with
      | none => simp [repopulates] at hmsg
      | some file =>
          have hfirst : m.data.fetchedAt = none := by simpa [repopulates] using hmsg
          have hnobody : m.signedInAccount = none := by simp [signedInAccount, hout]
          simp only [update, cacheLoaded, hfirst, hnobody, Option.isSome_none, Option.any_none,
            Bool.false_eq_true, if_false]
          refine ⟨?_, fun hafter => ?_⟩
          · rw [(replaceItems_data _ _).2.2.2.1]
            simpa using hout
          · have haccount := hafter.dataAccount
            rw [(replaceItems_data _ _).2.2.2.2] at haccount
            exact absurd haccount (by simp)
  | copyFetched key result =>
      cases result with
      | error error => simp [repopulates] at hmsg
      | ok value =>
          obtain ⟨fetch, hpending, hkey⟩ := (Option.any_eq_true _ _).mp hmsg
          have hsettled : (m.update (.copyFetched key (.ok value)) now).1 =
              { m with
                usage := m.usage.record key now
                view := { m.view with pending := none, copying := true } } := by
            simp [update, copyFetched, hpending, of_decide_eq_true hkey, copySettled, finishCopy]
          rw [hsettled]
          refine ⟨hout, fun hafter => UsageTable.record_empty_ne_empty key now ?_⟩
          have husage := hafter.usage
          dsimp only at husage
          rwa [hforgotten.usage] at husage
  | _ => simp [repopulates] at hmsg

end Methods

end Model

namespace World

/-- Signed out, no answer arrives that brings data of an account. -/
def forgets (w : World) : Event → Bool
  | .deliver id _ => w.model.session = .signedOut →
      w.resolved.all fun done => done.1 = id → w.model.repopulates done.2 = false
  | _ => true

def ForgottenOut (w : World) : Prop := w.model.session = .signedOut → w.model.Forgotten

theorem forgets_iff {w : World} (hconsistent : w.Consistent) {id : Nat} {msg : Msg} {now : Int}
    (hmem : (id, msg) ∈ w.resolved) :
    forgets w (.deliver id now) = true ↔
      (w.model.session = .signedOut → w.model.repopulates msg = false) := by
  simp only [forgets, decide_eq_true_eq, List.all_eq_true]
  refine imp_congr_right fun _ => ⟨fun hall => hall (id, msg) hmem rfl, ?_⟩
  rintro hmsg ⟨id', msg'⟩ hmem' heq
  obtain rfl : id' = id := heq
  rwa [hconsistent.once id' msg' msg hmem' hmem]

section Runs

variable [TextSupport] {w w' : World} {source : Option Nat} {msg : Msg} {now : Int}

theorem forgottenOut_of_reach (h : system.Reach (fun w e => forgets w e) w) : w.ForgottenOut := by
  refine invariant_of_handled ?_ ?_ ?_ h
  · intro prefs account hout
    simp [World.start, Model.new] at hout
  · intro w w' hquiet hforgotten
    rwa [ForgottenOut, hquiet.model]
  · intro w w' source msg now _ hconsistent hhandled _ hguard hforgotten hout
    rw [hhandled.model] at hout ⊢
    refine w.model.forgotten_update hforgotten ?_ hout
    cases hsource : source with
    | some id =>
        exact (forgets_iff hconsistent (hhandled.answer id hsource).1).mp (hguard id hsource)
    | none =>
        have huser := hhandled.user hsource
        intro _
        cases msg <;> simp [Msg.isAnswer, Model.repopulates] at huser ⊢

/-- **Signed out means nothing of the account stays, unless it is brought back.** In a run in which,
once signed out, no listing with anything in it, no first cache file and no value for a copy still
awaited arrives, nothing is held, revealed or to be cached while the session is signed out; and those
are exactly the answers that break it. -/
theorem signed_out_holds_nothing (h : system.Reach (fun w e => forgets w e) w)
    (hout : w.model.session = .signedOut) :
    w.model.Forgotten ∧ ∀ id now w', w.step (.deliver id now) = some w' →
      (w'.ForgottenOut ↔ forgets w (.deliver id now) = true) := by
  have hconsistent := consistent_of_reach h
  have hforgotten := forgottenOut_of_reach h
  refine ⟨hforgotten hout, fun id now w' hstep => ?_⟩
  obtain ⟨msg, hmem, hhandled⟩ := deliver_handled hconsistent hstep
  rw [forgets_iff hconsistent hmem, ForgottenOut, hhandled.model]
  constructor
  · intro hafter _
    cases hmsg : w.model.repopulates msg with
    | false => rfl
    | true =>
        obtain ⟨hstays, hheld⟩ := w.model.not_forgotten_update (hforgotten hout) hout now hmsg
        exact absurd (hafter hstays) hheld
  · intro hmsg hafter
    exact w.model.forgotten_update hforgotten hmsg hafter

end Runs

section Examples

attribute [local instance] plainText

def signIn : List Event :=
  [.send .startup 0, .resolve 2 (.account (.ok ⟨"ada"⟩)), .deliver 2 0,
    .resolve 3 (.listing (.ok { vaults := [], items := [mailLogin] }))]

theorem signed_out_holds_nothing_refresh : ∃ w : World, w.model.session = .signedOut ∧
    (3, .dataLoaded { vaults := [], items := [mailLogin] }) ∈ w.answered ∧ w.model.Forgotten := by
  have hrun : ∃ w, system.Reach (fun w e => forgets w e) w ∧ w.model.session = .signedOut ∧
      (3, .dataLoaded { vaults := [], items := [mailLogin] }) ∈ w.answered := by
    refine TransitionSystem.exists_reach_of_run (start .default (some ⟨"ada"⟩))
      (signIn ++ [.deliver 3 0, .send .refreshRequested 0,
        .resolve 5 (.listing (.error .signedOut)), .deliver 5 0]) ⟨_, _, rfl⟩ ?_
    decide
  obtain ⟨w, hreach, hout, hlisted⟩ := hrun
  exact ⟨w, hout, hlisted, (signed_out_holds_nothing hreach hout).1⟩

/-- A probe finds nobody signed in while the listing is on its way: it is taken in all the same. -/
theorem signed_out_repopulated : ∃ w : World, system.Reach (fun _ _ => True) w ∧
    w.model.session = .signedOut ∧ w.model.data.items = [mailLogin] ∧ ¬ w.model.Forgotten := by
  have hrun : ∃ w, system.Reach (fun _ _ => True) w ∧ w.model.session = .signedOut ∧
      w.model.data.items = [mailLogin] := by
    refine TransitionSystem.exists_reach_of_run (start .default (some ⟨"ada"⟩))
      (signIn ++ [.send .startup 0, .resolve 6 (.account (.error .signedOut)), .deliver 6 0,
        .deliver 3 0]) ⟨_, _, rfl⟩ ?_
    decide
  obtain ⟨w, hreach, hout, hitems⟩ := hrun
  refine ⟨w, hreach, hout, hitems, fun hforgotten => ?_⟩
  have hnone := hforgotten.items
  simp [hitems] at hnone

end Examples

end World

end CosmicPass
