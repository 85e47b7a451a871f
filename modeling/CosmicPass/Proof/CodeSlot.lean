import CosmicPass.Proof.RevealBooks

/-!
# The one-time code awaited

Every fetch of a code shares the flag of the row that shows it, and its answer carries only the item.
So the answer to a fetch that was cancelled, because the row was masked in between, is taken for the
answer to the one asked for since. `codes_settle_own_reveal` says that this is the only way the two
are confused, and what holds as long as it does not happen.
-/

namespace CosmicPass

namespace World

/-- The answer to a cancelled fetch of codes would be taken for the one the row waits for. -/
def codeOverlap (w : World) (id : Nat) : Bool :=
  match w.flights[id]? with
  | some { effect := .fetchTotp key cancel, .. } =>
      decide (w.model.tokens.IsCancelled cancel) && w.model.awaitsTotp key
  | _ => false

/-- No answer arrives that would be taken for the answer to another fetch of codes. -/
def separateCodes (w : World) : Event → Bool
  | .deliver id _ => !w.codeOverlap id
  | _ => true

theorem AsksTotp.codeOverlap_eq {w : World} {id : Nat} {key : ItemKey} {cancel : CancellationToken}
    (h : w.AsksTotp id key cancel) :
    w.codeOverlap id = (decide (w.model.tokens.IsCancelled cancel) && w.model.awaitsTotp key) := by
  obtain ⟨⟨effect, asked, account⟩, hflight, heffect⟩ := h
  obtain rfl : effect = .fetchTotp key cancel := heffect
  simp [codeOverlap, hflight]

/-- The fetch of codes has not been answered, and nobody has cancelled it. -/
def AwaitsCode (w : World) (id : Nat) (cancel : CancellationToken) : Prop :=
  (∃ key, w.AsksTotp id key cancel) ∧ (∀ msg, (id, msg) ∉ w.answered) ∧
    ¬ w.model.tokens.IsCancelled cancel

/-- While answers are not mistaken for each other, the row waits for the one fetch of codes still
wanted. -/
structure CodesAwaited (w : World) : Prop where
  held : ∀ id cancel, w.AwaitsCode id cancel →
    (∃ code, w.model.view.revealed = .totp code true) ∧
      w.model.view.revealTotpCancel = some cancel
  unique : ∀ id id' cancel cancel', w.AwaitsCode id cancel → w.AwaitsCode id' cancel' → id = id'

section Runs

variable [TextSupport] {w w' : World} {source : Option Nat} {msg : Msg} {now : Int}

theorem Handled.awaitsCode_cases (h : Handled w source msg now w') {id : Nat}
    {cancel : CancellationToken} (hawaits : w'.AwaitsCode id cancel) :
    source ≠ some id ∧ w.AwaitsCode id cancel ∨
      id = w.flights.length ∧ ∃ key, (w.model.update msg now).2 = [.fetchTotp key cancel] := by
  obtain ⟨⟨key, flight, hflight, heffect⟩, hopen, hlive⟩ := hawaits
  rcases h.flight_cases hflight with hold | ⟨hge, hnew, -⟩
  · refine Or.inl ⟨?_, ⟨key, flight, hold, heffect⟩, ?_, ?_⟩
    · intro hsource
      exact hopen msg (h.now_answered hsource)
    · exact fun msg' hmem => hopen msg' (h.still_answered hmem)
    · exact fun hspent => hlive (h.extends_tokens.cancelled hspent)
  · rw [heffect] at hnew
    obtain ⟨hsingle, -⟩ := reveal_of_mem_update (List.mem_of_getElem? hnew) rfl
    have hzero := (List.getElem?_eq_some_iff.mp hnew).1
    rw [hsingle] at hzero
    simp only [List.length_singleton, Nat.lt_one_iff] at hzero
    exact Or.inr ⟨by omega, key, hsingle⟩

theorem CodesAwaited.survives (hawaited : w.CodesAwaited) (h : Handled w source msg now w')
    (hguard : ∀ id, source = some id → w.codeOverlap id = false) {id : Nat}
    {cancel : CancellationToken} (hsource : source ≠ some id) (hold : w.AwaitsCode id cancel)
    (hlive : ¬ w'.model.tokens.IsCancelled cancel) :
    (∃ code, w'.model.view.revealed = .totp code true) ∧
      w'.model.view.revealTotpCancel = some cancel ∧
      ∀ key cancel', (w.model.update msg now).2 ≠ [.fetchTotp key cancel'] := by
  obtain ⟨⟨code, hrevealed⟩, hheld⟩ := hawaited.held id cancel hold
  rw [h.model] at hlive ⊢
  have hnone : ∀ {effects : List Effect} {key : ItemKey} {cancel' : CancellationToken},
      (∀ effect ∈ effects, effect.part ≠ some .reveal) → effects ≠ [.fetchTotp key cancel'] := by
    rintro _ key cancel' heffects rfl
    exact heffects _ (List.mem_singleton_self _) rfl
  cases w.model.update_revealMove msg now with
  | keep hsame heffects _ _ =>
      exact ⟨⟨code, hsame.2.1.trans hrevealed⟩, hsame.2.2.2.1.trans hheld, fun _ _ => hnone heffects⟩
  | turn hkept _ htotp _ _ heffects _ =>
      exact ⟨⟨code, hkept.trans hrevealed⟩, htotp.trans hheld, fun _ _ => hnone heffects⟩
  | clear hcleared _ => exact absurd (hcleared.cancelled cancel (Or.inr hheld)) hlive
  | drop _ _ hbefore _ _ _ _ _ _ => simp [hbefore] at hrevealed
  | askField _ _ _ _ _ _ _ _ hcleared _ _ _ =>
      exact absurd (hcleared cancel (Or.inr hheld)) hlive
  | askTotp _ _ _ _ _ hbefore _ _ _ =>
      rcases hbefore with ⟨hbefore, -⟩ | ⟨-, -, -, hcleared⟩
      · simp [hbefore] at hrevealed
      · exact absurd (hcleared cancel (Or.inr hheld)) hlive
  | fieldAnswered _ _ _ _ _ _ _ hbefore _ _ => simp [hbefore] at hrevealed
  | totpAnswered key selected code' result hmsg hmode hbefore _ _ =>
      -- Another fetch answers: were it still wanted it would be this one, and the guard excludes it
      -- being cancelled.
      obtain ⟨other, hother⟩ := h.answers_of_isAnswer (by rw [hmsg]; rfl)
      obtain ⟨-, ⟨flight, reply, hflight, hexecute, -⟩, hopen⟩ := h.answer other hother
      rw [hmsg] at hexecute
      obtain ⟨cancel', heffect⟩ := fetchTotp_of_execute hexecute
      have hasks : w.AsksTotp other key cancel' := ⟨flight, hflight, heffect⟩
      have hawaits : w.model.awaitsTotp key :=
        Model.awaitsTotp_iff.mpr ⟨⟨selected, hmode⟩, code', hbefore⟩
      have hwanted : ¬ w.model.tokens.IsCancelled cancel' := by
        have hoverlap := hguard other hother
        rw [hasks.codeOverlap_eq, hawaits] at hoverlap
        simpa using hoverlap
      have hid := hawaited.unique other id cancel' cancel ⟨⟨key, hasks⟩, hopen, hwanted⟩ hold
      exact absurd (hid ▸ hother) hsource

theorem CodesAwaited.handled (hawaited : w.CodesAwaited) (h : Handled w source msg now w')
    (hguard : ∀ id, source = some id → w.codeOverlap id = false) : w'.CodesAwaited := by
  refine ⟨?_, ?_⟩
  · intro id cancel hawaits
    rcases h.awaitsCode_cases hawaits with ⟨hsource, hold⟩ | ⟨-, key, hnew⟩
    · obtain ⟨hrevealed, hheld, -⟩ := hawaited.survives h hguard hsource hold hawaits.2.2
      exact ⟨hrevealed, hheld⟩
    · have hmem : Effect.fetchTotp key cancel ∈ (w.model.update msg now).2 := by simp [hnew]
      rw [h.model]
      exact code_of_mem_update hmem
  · intro id id' cancel cancel' hawaits hawaits'
    rcases h.awaitsCode_cases hawaits with ⟨hsource, hold⟩ | ⟨hid, key, hnew⟩ <;>
      rcases h.awaitsCode_cases hawaits' with ⟨hsource', hold'⟩ | ⟨hid', key', hnew'⟩
    · exact hawaited.unique id id' cancel cancel' hold hold'
    · exact absurd hnew' ((hawaited.survives h hguard hsource hold hawaits.2.2).2.2 _ _)
    · exact absurd hnew ((hawaited.survives h hguard hsource' hold' hawaits'.2.2).2.2 _ _)
    · rw [hid, hid']

theorem codesAwaited_of_reach (h : system.Reach (fun w e => separateCodes w e) w) :
    w.CodesAwaited := by
  refine invariant_of_handled ?_ ?_ ?_ h
  · intro prefs account
    refine ⟨?_, ?_⟩ <;> simp [World.start, AwaitsCode, AsksTotp]
  · rintro w w' hquiet ⟨hheld, hunique⟩
    refine ⟨?_, ?_⟩ <;>
      simpa only [AwaitsCode, AsksTotp, hquiet.model, hquiet.flights, hquiet.answered]
  · intro w w' source msg now _ _ hhandled _ hdeliver hawaited
    refine hawaited.handled hhandled fun id hsource => ?_
    simpa [separateCodes] using hdeliver id hsource

/-- **A one-time-code answer only settles the reveal that asked for it, while answers are not mistaken
for each other.** In a run in which no answer to a cancelled fetch arrives while the list waits for
another code of that item, such an answer leaves what is revealed as it was, and it does so in exactly
the steps that continue such a run; and a fetch still wanted, which nobody has cancelled and whose item
the list still shows, has its code shown as soon as it arrives. -/
theorem codes_settle_own_reveal (h : system.Reach (fun w e => separateCodes w e) w) {id : Nat}
    {key : ItemKey} {cancel : CancellationToken} (hasks : w.AsksTotp id key cancel)
    (hstep : w.step (.deliver id now) = some w') :
    (w.model.tokens.IsCancelled cancel →
      (w'.model.view.revealed = w.model.view.revealed ↔ separateCodes w (.deliver id now))) ∧
    (¬ w.model.tokens.IsCancelled cancel → w.model.inActions key → ∀ codes field code,
      (id, .totpFetched key (.ok codes)) ∈ w.resolved →
      w.model.highlightedTotpField = some field → Model.shownCode codes field = some code →
      w'.model.revealedTotp = some (TotpDisplay.new field code now)) := by
  have hconsistent := consistent_of_reach h
  obtain ⟨msg, hmem, hhandled⟩ := deliver_handled hconsistent hstep
  have hopen := (hhandled.answer id rfl).2.2
  have ⟨flight, hflight, heffect⟩ := hasks
  obtain ⟨reply, hexecute⟩ := hhandled.executes rfl hflight
  rw [heffect] at hexecute
  obtain ⟨result, rfl⟩ := execute_fetchTotp hexecute
  have hafter : w'.model = (w.model.totpFetched key result now).1 := hhandled.model
  refine ⟨fun hspent => ?_, fun hlive hshows codes field code hcodes hfield hcode => ?_⟩
  · have hguard : separateCodes w (.deliver id now) = !w.model.awaitsTotp key := by
      simp [separateCodes, hasks.codeOverlap_eq, hspent]
    rw [hguard, hafter]
    cases hawaits : w.model.awaitsTotp key with
    | false => simp [Model.totpFetched_ignored hawaits]
    | true =>
        obtain ⟨-, code, hbefore⟩ := Model.awaitsTotp_iff.mp hawaits
        obtain ⟨-, hrevealed, -⟩ := Model.totpFetched_answered hawaits hbefore result now
        simp [hrevealed, hbefore]
  · have hmsg := hconsistent.once _ _ _ hmem hcodes
    obtain rfl : result = .ok codes := by simpa using hmsg
    obtain ⟨⟨before, hbefore⟩, -⟩ :=
      (codesAwaited_of_reach h).held id cancel ⟨⟨key, hasks⟩, hopen, hlive⟩
    have hawaits : w.model.awaitsTotp key :=
      Model.awaitsTotp_iff.mpr ⟨Model.inActions_iff.mp hshows, before, hbefore⟩
    obtain ⟨-, hrevealed, -⟩ := Model.totpFetched_answered hawaits hbefore (.ok codes) now
    rw [hafter, Model.revealedTotp, hrevealed]
    simp [Model.answeredTotp, hfield, hcode, Revealed.totpCode]

end Runs

section Examples

attribute [local instance] plainText

def highlightCode : List Event :=
  listMailLogin ++ [.send .openActions 0, .send .selectNext 0, .send .selectNext 0]

def mailCodes : Codes := OrderedMap.ofList [("totp_uri", ⟨"123456"⟩)]

theorem codes_settle_own_reveal_again : ∃ w w' : World,
    w.step (.deliver 3 5) = some w' ∧
      w'.model.revealedTotp = some (TotpDisplay.new "totp_uri" ⟨"123456"⟩ 5) := by
  have hrun : ∃ w, system.Reach (fun w e => separateCodes w e) w ∧
      w.flights[3]?.map (·.effect) = some (.fetchTotp mailLogin.key 1) ∧
      ¬ w.model.tokens.IsCancelled 1 ∧ w.model.inActions mailLogin.key ∧
      (3, .totpFetched mailLogin.key (.ok mailCodes)) ∈ w.resolved ∧
      w.model.highlightedTotpField = some "totp_uri" ∧ (w.step (.deliver 3 5)).isSome := by
    refine TransitionSystem.exists_reach_of_run (start .default none)
      (highlightCode ++ [.send .toggleReveal 0, .send .toggleReveal 0,
        .resolve 2 (.codes (.error .cancelled)), .deliver 2 0, .send .toggleReveal 0,
        .resolve 3 (.codes (.ok mailCodes))]) ⟨_, _, rfl⟩ ?_
    decide
  obtain ⟨w, hreach, hasks, hlive, hshows, hmem, hfield, hstep⟩ := hrun
  obtain ⟨w', hnext⟩ := Option.isSome_iff_exists.mp hstep
  have hcode : Model.shownCode mailCodes "totp_uri" = some ⟨"123456"⟩ := by decide
  exact ⟨w, w', hnext, (codes_settle_own_reveal hreach (Option.map_eq_some_iff.mp hasks) hnext).2
    hlive hshows mailCodes _ _ hmem hfield hcode⟩

/-- A code revealed, masked, and revealed again at once: the answer to the first fetch settles the
second, whose code is then never shown. -/
theorem codes_mistaken : ∃ w : World, system.Reach (fun w e => fromList w e && prompt w e) w ∧
    w.AsksTotp 2 mailLogin.key 0 ∧ w.AsksTotp 3 mailLogin.key 1 ∧
    w.answered = [(3, .totpFetched mailLogin.key (.ok mailCodes)),
      (2, .totpFetched mailLogin.key (.error .cancelled)),
      (0, .dataLoaded { vaults := [], items := [mailLogin] })] ∧
    ¬ w.model.tokens.IsCancelled 1 ∧ w.model.inActions mailLogin.key ∧
    w.model.highlightedTotpField = some "totp_uri" ∧ w.model.revealedTotp = none := by
  have hrun : ∃ w, system.Reach (fun w e => fromList w e && prompt w e) w ∧
      w.flights[2]?.map (·.effect) = some (.fetchTotp mailLogin.key 0) ∧
      w.flights[3]?.map (·.effect) = some (.fetchTotp mailLogin.key 1) ∧
      w.answered = [(3, .totpFetched mailLogin.key (.ok mailCodes)),
        (2, .totpFetched mailLogin.key (.error .cancelled)),
        (0, .dataLoaded { vaults := [], items := [mailLogin] })] ∧
      ¬ w.model.tokens.IsCancelled 1 ∧ w.model.inActions mailLogin.key ∧
      w.model.highlightedTotpField = some "totp_uri" ∧ w.model.revealedTotp = none := by
    refine TransitionSystem.exists_reach_of_run (start .default none)
      (highlightCode ++ [.send .toggleReveal 0, .send .toggleReveal 0, .send .toggleReveal 0,
        .resolve 2 (.codes (.error .cancelled)), .deliver 2 0,
        .resolve 3 (.codes (.ok mailCodes)), .deliver 3 0]) ⟨_, _, rfl⟩ ?_
    decide
  obtain ⟨w, hreach, hfirst, hsecond, hrest⟩ := hrun
  exact ⟨w, hreach, Option.map_eq_some_iff.mp hfirst, Option.map_eq_some_iff.mp hsecond, hrest⟩

end Examples

end World

end CosmicPass
