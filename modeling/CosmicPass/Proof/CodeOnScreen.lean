import CosmicPass.Proof.CodeSlot
import CosmicPass.Proof.CopyReveal

/-!
# The one-time code on screen

An answer carries the codes of an item; the reducer takes the one of the row under the highlight when
it arrives, and takes the moment of its arrival for the moment it was computed. So the row is the one
the user asked for, and the period the one shown, as long as neither has changed in between.
-/

namespace CosmicPass

namespace Model

section Codes

variable {m : Model} {msg : Msg} {now : Int} {shown : TotpDisplay} {key : ItemKey}
  {field : String} {code : SecretString}

/-- The code an answer has for the row under the highlight, if the field list waits for it. -/
def incomingCode (m : Model) : Msg → Option (ItemKey × String × SecretString)
  | .totpFetched key (.ok codes) =>
      if m.awaitsTotp key then
        m.highlightedTotpField.bind fun field =>
          (shownCode codes field).map fun code => (key, field, code)
      else none
  | _ => none

theorem incomingCode_eq_some (h : m.incomingCode msg = some (key, field, code)) :
    ∃ codes, msg = .totpFetched key (.ok codes) ∧ m.awaitsTotp key ∧
      m.highlightedTotpField = some field ∧ shownCode codes field = some code := by
  unfold incomingCode at h
  split at h
  next asked codes =>
    split at h
    next hawaits =>
      obtain ⟨field', hfield, hcode⟩ := Option.bind_eq_some_iff.mp h
      obtain ⟨code', hshown, heq⟩ := Option.map_eq_some_iff.mp hcode
      obtain ⟨rfl, rfl, rfl⟩ : asked = key ∧ field' = field ∧ code' = code := by simpa using heq
      exact ⟨codes, rfl, hawaits, hfield, hshown⟩
    next => simp at h
  next => simp at h

variable [TextSupport]

theorem update_incomingCode (h : m.incomingCode msg = some (key, field, code)) (now : Int) :
    (m.update msg now).1.revealedTotp = some (.new field code now) ∧
      (m.update msg now).1.view.mode = m.view.mode ∧ m.inActions key := by
  obtain ⟨codes, rfl, hawaits, hfield, hcode⟩ := incomingCode_eq_some h
  obtain ⟨hactions, hfetching⟩ := of_decide_eq_true hawaits
  have hupdate : m.update (.totpFetched key (.ok codes)) now =
      ({ m with view := { m.view with
          revealed := .totp (some (.new field code now)) false } }, []) := by
    simp [update, totpFetched, hactions, hfetching, hfield, hcode]
  rw [hupdate]
  exact ⟨rfl, rfl, hactions⟩

/-- **A code on screen after a message** was there before, or the answer awaited has just brought
it. -/
theorem revealedTotp_update (h : (m.update msg now).1.revealedTotp = some shown) :
    m.revealedTotp = some shown ∧ m.incomingCode msg = none ∨
      ∃ key, m.incomingCode msg = some (key, shown.field, shown.code) ∧
        shown = .new shown.field shown.code now := by
  cases hincoming : m.incomingCode msg with
  | some incoming =>
      obtain ⟨key, field, code⟩ := incoming
      obtain rfl := Option.some.inj ((update_incomingCode hincoming now).1.symm.trans h)
      exact Or.inr ⟨key, rfl, rfl⟩
  | none =>
      refine Or.inl ⟨?_, rfl⟩
      unfold revealedTotp at h ⊢
      cases m.update_revealMove msg now with
      | keep hsame _ _ _ => rwa [hsame.2.1] at h
      | turn hrevealed _ _ _ _ _ _ => rwa [hrevealed] at h
      | clear hcleared _ => simp [hcleared.revealed, Revealed.totpCode] at h
      | drop _ _ _ hrevealed _ _ _ _ _ => simp [hrevealed, Revealed.totpCode] at h
      | askField _ _ _ _ _ _ _ _ _ hafter _ _ => simp [hafter.2.1, Revealed.totpCode] at h
      | askTotp _ _ code _ _ hbefore hafter _ _ =>
          rw [hafter.2.1] at h
          rcases hbefore with ⟨hbefore, -⟩ | ⟨rfl, -⟩
          · rwa [hbefore]
          · simp [Revealed.totpCode] at h
      | fieldAnswered _ target value _ result _ _ _ hafter _ =>
          rw [hafter.2.1] at h
          unfold answeredField at h
          split at h <;> simp [Revealed.totpCode] at h
      | totpAnswered key selected code result hmsg hmode hbefore hafter _ =>
          rw [hafter.2.1] at h
          rw [hbefore]
          cases result with
          | error => exact h
          | ok codes =>
              -- the answer would have brought a code
              have hawaits : m.awaitsTotp key := awaitsTotp_iff.mpr ⟨⟨selected, hmode⟩, code, hbefore⟩
              simp only [hmsg, incomingCode, hawaits, if_true] at hincoming
              obtain ⟨field, hfield, hcode⟩ := Option.bind_eq_some_iff.mp h
              obtain ⟨code, hshown, -⟩ := Option.map_eq_some_iff.mp hcode
              simp [hfield, hshown] at hincoming

end Codes

section Rows

variable [TextSupport]

/-- The row of a press that starts the reveal of a code. One that masks starts nothing. -/
def startedCode (m : Model) : Msg → Option String
  | .toggleReveal =>
      if m.revealedTotp.isSome ∨ m.revealingTotp then none else m.highlightedTotpField
  | _ => none

/-- Runs that remember the code row whose reveal was started last. -/
def asking : TransitionSystem (Model × Option String) (Msg × Int) :=
  system.annotated (fun asked => asked = none) fun m asked e => some ((m.startedCode e.1).or asked)

/-- An answer that brings a code finds the highlight on the row it was asked for. -/
def rowKept (s : Model × Option String) (e : Msg × Int) : Prop :=
  ∀ incoming ∈ s.1.incomingCode e.1, s.2 = some incoming.2.1

instance (s : Model × Option String) (e : Msg × Int) : Decidable (rowKept s e) :=
  inferInstanceAs (Decidable (∀ incoming ∈ s.1.incomingCode e.1, s.2 = some incoming.2.1))

def ShownAsAsked (s : Model × Option String) : Prop :=
  ∀ shown, s.1.revealedTotp = some shown → s.2 = some shown.field

theorem shownAsAsked_step {s s' : Model × Option String} {e : Msg × Int} (h : ShownAsAsked s)
    (hstep : asking.step s e = some s') : ShownAsAsked s' ↔ rowKept s e := by
  obtain ⟨hmodel, hasked⟩ := TransitionSystem.annotated_step_eq_some.mp hstep
  replace hmodel := Option.some.inj hmodel
  replace hasked := Option.some.inj hasked
  cases hincoming : s.1.incomingCode e.1 with
  | some incoming =>
      obtain ⟨key, field, code⟩ := incoming
      have hstarted : s.1.startedCode e.1 = none := by
        obtain ⟨codes, hmsg, -⟩ := incomingCode_eq_some hincoming
        simp [hmsg, startedCode]
      have hshown : s'.1.revealedTotp = some (.new field code e.2) :=
        hmodel ▸ (update_incomingCode hincoming _).1
      rw [hstarted, Option.none_or] at hasked
      simp [ShownAsAsked, rowKept, hshown, hincoming, ← hasked, TotpDisplay.new]
  | none =>
      refine iff_of_true (fun shown hshown => ?_) (by simp [rowKept, hincoming])
      rw [← hmodel] at hshown
      rcases revealedTotp_update hshown with ⟨hbefore, -⟩ | ⟨key, hsome, -⟩
      · have hstarted : s.1.startedCode e.1 = none := by
          unfold startedCode
          split <;> simp [hbefore]
        rw [← hasked, hstarted, Option.none_or]
        exact h shown hbefore
      · simp [hincoming] at hsome

/-- **A shown code belongs to the row the user asked to reveal**, in every run in which each answer
that brings a code finds the highlight on that row. One that does not puts the code on another row. -/
theorem code_shown_on_asked_row {s : Model × Option String} (h : asking.Reach rowKept s) :
    ShownAsAsked s ∧
      ∀ e s', asking.step s e = some s' → (ShownAsAsked s' ↔ rowKept s e) := by
  have hshown : ShownAsAsked s := by
    induction h with
    | start hinit =>
        obtain ⟨⟨prefs, hnew⟩, -⟩ := hinit
        simp [ShownAsAsked, hnew, new, revealedTotp, Revealed.totpCode]
    | next _ hguard hstep ih => exact (shownAsAsked_step ih hstep).mpr hguard
  exact ⟨hshown, fun e s' hstep => shownAsAsked_step hshown hstep⟩

end Rows

section Periods

variable [TextSupport] {m : Model} {msg : Msg} {now : Int}

/-- A code still drawn as valid at a later moment is the code of that moment's period. -/
def CodesCurrent (codeAt : ItemKey → String → Int → SecretString) (s : Model × Int) : Prop :=
  ∀ key selected shown now, s.1.view.mode = .actions key selected →
    s.1.revealedTotp = some shown → s.2 ≤ now → 0 < shown.remaining now →
    shown.code = codeAt key shown.field (now / defaultPeriod)

/-- The field list is only entered from the list of items, as the key map does. -/
def entersFromList (m : Model) (msg : Msg) : Bool := msg = .openActions → m.view.mode = .list

/-- An answer that brings a code brings the one of the period it arrives in. -/
def inPeriod (codeAt : ItemKey → String → Int → SecretString) (s : Model × Int) (e : Msg × Int) :
    Prop :=
  ∀ incoming ∈ s.1.incomingCode e.1,
    incoming.2.2 = codeAt incoming.1 incoming.2.1 (e.2 / defaultPeriod)

instance (codeAt : ItemKey → String → Int → SecretString) (s : Model × Int) (e : Msg × Int) :
    Decidable (inPeriod codeAt s e) :=
  inferInstanceAs (Decidable (∀ incoming ∈ s.1.incomingCode e.1, _))

/-- What is on screen is on the row of a field list, and a code there is the one of its arrival. -/
structure Dated (codeAt : ItemKey → String → Int → SecretString) (s : Model × Int) : Prop where
  masked : (∀ key selected, s.1.view.mode ≠ .actions key selected) → s.1.view.revealed = .nothing
  dated : ∀ key selected shown, s.1.view.mode = .actions key selected →
    s.1.revealedTotp = some shown → ∃ arrived ≤ s.2,
      shown = .new shown.field (codeAt key shown.field (arrived / defaultPeriod)) arrived

omit [TextSupport] in
theorem remaining_new_pos {field : String} {code : SecretString} {arrived now : Int}
    (hlater : arrived ≤ now) :
    0 < (TotpDisplay.new field code arrived).remaining now ↔
      now / defaultPeriod = arrived / defaultPeriod := by
  have hleft : 0 < (max (saturateI64 ((arrived / 30 + 1) * 30 - now)) 0).toNat ↔
      now / 30 = arrived / 30 := by
    simp only [saturateI64, i64Min, i64Max]
    omega
  have hcast : ((30 : Nat) : Int) = 30 := rfl
  have hperiod : max (30 : Int) 1 = 30 := rfl
  simp only [TotpDisplay.remaining, TotpDisplay.new, validUntil, defaultPeriod, hcast, hperiod]
  split_ifs with hfits
  · exact hleft
  · exact iff_of_true (by decide) (hleft.mp (by omega))

omit [TextSupport] in
theorem Dated.current {codeAt : ItemKey → String → Int → SecretString} {s : Model × Int}
    (h : Dated codeAt s) : CodesCurrent codeAt s := by
  intro key selected shown now hmode hshown hnow hvalid
  obtain ⟨arrived, harrived, heq⟩ := h.dated key selected shown hmode hshown
  rw [heq, remaining_new_pos (harrived.trans hnow)] at hvalid
  rw [hvalid, heq]
  rfl

/-- While something is revealed, the field list stays the one it was revealed in. -/
theorem revealed_or_mode_kept (hmasked : (∀ key selected, m.view.mode ≠ .actions key selected) →
      m.view.revealed = .nothing) (henters : m.entersFromList msg) (now : Int) :
    (m.update msg now).1.view.revealed = .nothing ∨
      (∃ key selected, m.view.mode = .actions key selected) ∧
        (m.update msg now).1.view.mode = m.view.mode := by
  cases m.update_revealMove msg now with
  | keep hsame _ _ _ =>
      by_cases hactions : ∃ key selected, m.view.mode = .actions key selected
      · exact Or.inr ⟨hactions, hsame.1⟩
      · exact Or.inl (hsame.2.1.trans (hmasked fun key selected h => hactions ⟨key, selected, h⟩))
  | turn hrevealed _ _ _ hmode _ _ =>
      have hnothing := hmasked (mode_ne_actions_of_turn (of_decide_eq_true henters) hmode)
      exact Or.inl (hrevealed.trans hnothing)
  | clear hcleared _ => exact Or.inl hcleared.revealed
  | drop _ _ _ hrevealed _ _ _ _ _ => exact Or.inl hrevealed
  | askField _ _ _ _ hmode _ _ _ _ hafter _ _ => exact Or.inr ⟨⟨_, _, hmode⟩, hafter.1⟩
  | askTotp _ _ _ _ hmode _ hafter _ _ => exact Or.inr ⟨⟨_, _, hmode⟩, hafter.1⟩
  | fieldAnswered _ _ _ _ _ _ hmode _ hafter _ => exact Or.inr ⟨⟨_, _, hmode⟩, hafter.1⟩
  | totpAnswered _ _ _ _ _ hmode _ hafter _ => exact Or.inr ⟨⟨_, _, hmode⟩, hafter.1⟩

theorem Dated.step {codeAt : ItemKey → String → Int → SecretString} {s s' : Model × Int}
    {e : Msg × Int} (h : Dated codeAt s) (henters : s.1.entersFromList e.1)
    (hperiod : inPeriod codeAt s e) (hstep : clocked.step s e = some s') : Dated codeAt s' := by
  obtain ⟨hmodel, hclock, htime⟩ := TransitionSystem.timed_step_eq_some.mp hstep
  obtain ⟨m', clock'⟩ := s'
  obtain rfl : (s.1.update e.1 e.2).1 = m' := Option.some.inj hmodel
  obtain rfl : clock' = e.2 := htime
  have hkept := revealed_or_mode_kept h.masked henters e.2
  refine ⟨fun houtside => ?_, fun key selected shown hmode hshown => ?_⟩
  · rcases hkept with hnothing | ⟨⟨key, selected, hmode⟩, hsame⟩
    · exact hnothing
    · exact absurd (hsame.trans hmode) (houtside key selected)
  have hbefore : s.1.view.mode = .actions key selected := by
    rcases hkept with hnothing | ⟨-, hsame⟩
    · simp [revealedTotp, hnothing, Revealed.totpCode] at hshown
    · exact hsame.symm.trans hmode
  rcases revealedTotp_update hshown with ⟨hkept, -⟩ | ⟨asked, hincoming, hnew⟩
  · obtain ⟨arrived, harrived, heq⟩ := h.dated key selected shown hbefore hkept
    exact ⟨arrived, harrived.trans hclock, heq⟩
  · obtain ⟨other, hactions⟩ := inActions_iff.mp (update_incomingCode hincoming e.2).2.2
    obtain ⟨rfl, -⟩ := Mode.actions.inj (hbefore.symm.trans hactions)
    refine ⟨e.2, le_rfl, ?_⟩
    rw [← hperiod _ hincoming]
    exact hnew

theorem inPeriod_of_current {codeAt : ItemKey → String → Int → SecretString} {s s' : Model × Int}
    {e : Msg × Int} (hstep : clocked.step s e = some s') (h : CodesCurrent codeAt s') :
    inPeriod codeAt s e := by
  obtain ⟨hmodel, -, htime⟩ := TransitionSystem.timed_step_eq_some.mp hstep
  obtain ⟨m', clock'⟩ := s'
  obtain rfl : (s.1.update e.1 e.2).1 = m' := Option.some.inj hmodel
  obtain rfl : clock' = e.2 := htime
  rintro ⟨key, field, code⟩ hincoming
  obtain ⟨hshown, hmode, hactions⟩ := update_incomingCode hincoming e.2
  obtain ⟨selected, hbefore⟩ := inActions_iff.mp hactions
  exact h key selected _ e.2 (hmode.trans hbefore) hshown le_rfl
    ((remaining_new_pos le_rfl).mpr rfl)

/-- **A code is shown as valid only in its own period**, in every run in which each answer that brings
a code arrives in the period of that code. One that arrives later is shown as the code of the period it
arrives in. -/
theorem code_shown_in_own_period {codeAt : ItemKey → String → Int → SecretString}
    {s : Model × Int} (h : clocked.Reach
      (fun s e => s.1.entersFromList e.1 ∧ inPeriod codeAt s e) s) :
    CodesCurrent codeAt s ∧
      (∀ e s', clocked.step s e = some s' → s.1.entersFromList e.1 →
        (CodesCurrent codeAt s' ↔ inPeriod codeAt s e)) ∧
      ∀ key codes computed arrived, (∀ field code, shownCode codes field = some code →
          code = codeAt key field (computed / defaultPeriod)) →
        computed / defaultPeriod = arrived / defaultPeriod →
        inPeriod codeAt s (.totpFetched key (.ok codes), arrived) := by
  have hdated : Dated codeAt s := by
    induction h with
    | start hinit =>
        obtain ⟨⟨prefs, hnew⟩, -⟩ := hinit
        exact ⟨fun _ => by simp [hnew, new], by simp [hnew, new, revealedTotp, Revealed.totpCode]⟩
    | next _ hguard hstep ih => exact ih.step hguard.1 hguard.2 hstep
  refine ⟨hdated.current, fun e s' hstep henters => ⟨inPeriod_of_current hstep, fun hperiod => ?_⟩, ?_⟩
  · exact (hdated.step henters hperiod hstep).current
  · rintro key codes computed arrived hcodes hsame ⟨asked, field, code⟩ hincoming
    obtain ⟨codes', hmsg, -, -, hcode⟩ := incomingCode_eq_some hincoming
    obtain ⟨rfl, rfl⟩ : key = asked ∧ codes = codes' := by simpa using hmsg
    exact hsame ▸ hcodes field code hcode

end Periods

section Examples

attribute [local instance] World.plainText

def revealFirstOfTwo : List (Msg × Int) := listTwoCodes ++ [(.toggleReveal, 0)]

def bothCodes : Codes := OrderedMap.ofList [("totp_uri", ⟨"111111"⟩), ("work", ⟨"222222"⟩)]

theorem code_shown_on_asked_row_first : ∃ s : Model × Option String,
    s.1.revealState (.totp "totp_uri") none = .shown ∧ s.2 = some "totp_uri" := by
  have hrun : ∃ s, asking.Reach rowKept s ∧
      s.1.revealedTotp = some (.new "totp_uri" ⟨"111111"⟩ 2) := by
    refine TransitionSystem.exists_reach_of_run (new .default, none)
      (revealFirstOfTwo ++ [(.totpFetched twoCodes.key (.ok bothCodes), 2)]) ⟨⟨_, rfl⟩, rfl⟩ ?_
    decide
  obtain ⟨s, hreach, hshown⟩ := hrun
  refine ⟨s, ?_, (code_shown_on_asked_row hreach).1 _ hshown⟩
  simp [revealState, hshown, TotpDisplay.new]

/-- A listing turns the two code rows around before the answer is in. -/
theorem code_shown_on_other_row : ∃ s : Model × Option String,
    asking.Reach TransitionSystem.anyStep s ∧ s.2 = some "totp_uri" ∧
      s.1.revealState (.totp "work") none = .shown ∧ ¬ ShownAsAsked s := by
  have hrun : ∃ s, asking.Reach TransitionSystem.anyStep s ∧ s.2 = some "totp_uri" ∧
      s.1.revealedTotp = some (.new "work" ⟨"222222"⟩ 2) := by
    refine TransitionSystem.exists_reach_of_run (new .default, none)
      (revealFirstOfTwo ++
        [(.dataLoaded { vaults := [], items := [{ twoCodes with totpFields := ["work", "totp_uri"] }] },
            1), (.totpFetched twoCodes.key (.ok bothCodes), 2)]) ⟨⟨_, rfl⟩, rfl⟩ ?_
    decide
  obtain ⟨s, hreach, hasked, hshown⟩ := hrun
  refine ⟨s, hreach, hasked, by simp [revealState, hshown, TotpDisplay.new], fun h => ?_⟩
  simpa [hasked, TotpDisplay.new] using h _ hshown

def periodCode (_ : ItemKey) (_ : String) (period : Int) : SecretString :=
  ⟨if period = 1 then "111111" else "222222"⟩

def loginCode (period : Int) : Codes :=
  OrderedMap.ofList [("totp_uri", periodCode World.mailLogin.key "totp_uri" period)]

theorem code_shown_in_own_period_first : ∃ (s : Model × Int) (shown : TotpDisplay),
    s.1.revealedTotp = some shown ∧ 0 < shown.remaining 59 ∧
      shown.code = periodCode World.mailLogin.key "totp_uri" (59 / defaultPeriod) := by
  have hrun : ∃ s, clocked.Reach (fun s e => s.1.entersFromList e.1 ∧ inPeriod periodCode s e) s ∧
      s.1.view.mode = .actions World.mailLogin.key 2 ∧ s.2 ≤ 59 ∧
      s.1.revealedTotp = some (.new "totp_uri" ⟨"111111"⟩ 40) := by
    refine TransitionSystem.exists_reach_of_run (new .default, 0)
      [(.dataLoaded { vaults := [], items := [World.mailLogin] }, 0), (.openActions, 0),
        (.selectNext, 0), (.selectNext, 0), (.toggleReveal, 31),
        (.totpFetched World.mailLogin.key (.ok (loginCode (35 / defaultPeriod))), 40)]
      ⟨⟨_, rfl⟩, trivial⟩ ?_
    decide
  obtain ⟨s, hreach, hmode, hclock, hshown⟩ := hrun
  have hvalid : 0 < (TotpDisplay.new "totp_uri" ⟨"111111"⟩ 40).remaining 59 := by decide
  exact ⟨s, _, hshown, hvalid,
    (code_shown_in_own_period hreach).1 _ _ _ 59 hmode hshown hclock hvalid⟩

/-- The codes are fetched at 59 and computed at once, and their answer is handled at 61. -/
def lateCode : List Event :=
  World.highlightCode ++ [.send .toggleReveal 59,
    .resolve 2 (.codes (.ok (loginCode (59 / defaultPeriod)))), .deliver 2 61]

theorem code_shown_after_its_period : ∃ (w : World) (shown : TotpDisplay),
    World.system.run (fun w e => w.fromList e) (World.start .default none) lateCode = some w ∧
      w.model.revealedTotp = some shown ∧ shown.remaining 61 = 29 ∧
      shown.code = periodCode World.mailLogin.key "totp_uri" (59 / defaultPeriod) ∧
      ¬ CodesCurrent periodCode (w.model, 61) := by
  have hrun : (World.system.run (fun w e => w.fromList e) (World.start .default none)
      lateCode).any fun w => w.model.view.mode = .actions World.mailLogin.key 2 ∧
        w.model.revealedTotp = some (.new "totp_uri" ⟨"111111"⟩ 61) := by
    decide
  obtain ⟨w, hrun, hboth⟩ := (Option.any_eq_true _ _).mp hrun
  obtain ⟨hmode, hshown⟩ := of_decide_eq_true hboth
  refine ⟨w, _, hrun, hshown, by decide, by decide, fun h => ?_⟩
  have hcode := h _ _ _ 61 hmode hshown le_rfl (by decide)
  exact absurd hcode (by decide)

end Examples

end Model

end CosmicPass
