import CosmicPass.Proof.Flights
import CosmicPass.Proof.Parts
import CosmicPass.Proof.Rows

/-!
# The field list and what it reveals

At most one row is unmasked or waiting to be. `update_revealMove` lists what one message can do to the
rows: leave them, mask them all, ask for one, or take the answer the row in question waits for.
-/

namespace CosmicPass

namespace Model

/-- The field list waits for this very answer. -/
def awaitsReveal (m : Model) (key : ItemKey) (index generation : Nat) : Bool :=
  m.inActions key ∧ m.view.revealed.fieldTarget.any fun target =>
    target.generation = generation ∧ target.index = index

def awaitsTotp (m : Model) (key : ItemKey) : Bool :=
  m.inActions key ∧ m.view.revealed.totpFetching

theorem inActions_iff {m : Model} {key : ItemKey} :
    m.inActions key ↔ ∃ selected, m.view.mode = .actions key selected := by
  unfold inActions
  split
  next shown selected hmode => simp [hmode]
  next hmode => simpa using hmode key

/-- Every row is masked, and what was fetched for one is cancelled. -/
structure Cleared (m m' : Model) : Prop where
  revealed : m'.view.revealed = .nothing
  reveal : m'.view.revealCancel = none
  totp : m'.view.revealTotpCancel = none
  cancelled : ∀ token, m.view.revealCancel = some token ∨ m.view.revealTotpCancel = some token →
    m'.tokens.IsCancelled token
  next : m.nextReveal ≤ m'.nextReveal

/-- What the code row shows once its answer is in. -/
def answeredTotp (m : Model) (code : Option TotpDisplay) (now : Int) :
    Except PassError Codes → Option TotpDisplay
  | .ok codes => m.highlightedTotpField.bind fun field =>
      (shownCode codes field).map fun code => TotpDisplay.new field code now
  | .error _ => code

/-- What the awaited field shows once its answer is in. -/
def answeredField (target : RevealTarget) (value : Option SecretString) :
    Except PassError SecretString → Revealed
  | .ok v => .field target (some v)
  | .error .cancelled => .field target value
  | .error _ => .nothing

/-- What one message does to the rows of the field list. -/
inductive RevealMove (m : Model) (msg : Msg) (now : Int) (r : Model × List Effect) : Prop
  | keep (hsame : Part.reveal.Same m r.1) (heffects : ∀ effect ∈ r.2, effect.part ≠ some .reveal)
      (hfield : ∀ key index generation result,
        msg = .revealFetched key index generation result → m.awaitsReveal key index generation = false)
      (htotp : ∀ key result, msg = .totpFetched key result → m.awaitsTotp key = false)
  /-- The list is entered, or the preferences are leafed through. -/
  | turn (hrevealed : r.1.view.revealed = m.view.revealed)
      (hreveal : r.1.view.revealCancel = m.view.revealCancel)
      (htotp : r.1.view.revealTotpCancel = m.view.revealTotpCancel)
      (hnext : r.1.nextReveal = m.nextReveal)
      (hmode : msg = .openActions ∨
        (∃ a b, m.view.mode = .preferences a ∧ r.1.view.mode = .preferences b))
      (heffects : ∀ effect ∈ r.2, effect.part ≠ some .reveal) (hanswer : msg.isAnswer = false)
  | clear (h : m.Cleared r.1) (heffects : ∀ effect ∈ r.2, effect.part ≠ some .reveal)
  /-- The revealed field is no longer the one it was. -/
  | drop (target : RevealTarget) (value : Option SecretString)
      (hbefore : m.view.revealed = .field target value) (hrevealed : r.1.view.revealed = .nothing)
      (hreveal : r.1.view.revealCancel = none)
      (htotp : r.1.view.revealTotpCancel = m.view.revealTotpCancel)
      (hmode : r.1.view.mode = m.view.mode) (hnext : r.1.nextReveal = m.nextReveal)
      (heffects : ∀ effect ∈ r.2, effect.part ≠ some .reveal)
  | askField (target : RevealTarget) (cancel : CancellationToken) (selected : Nat)
      (item : ItemSummary) (hmode : m.view.mode = .actions target.key selected)
      (hitem : m.item target.key = some item) (hdescribes : target.stillDescribes item)
      (hgeneration : target.generation = m.nextReveal + 1)
      (hcleared : ∀ token, m.view.revealCancel = some token ∨
        m.view.revealTotpCancel = some token → r.1.tokens.IsCancelled token)
      (hafter : r.1.view.mode = m.view.mode ∧ r.1.view.revealed = .field target none ∧
        r.1.view.revealCancel = some cancel ∧ r.1.view.revealTotpCancel = none ∧
        r.1.nextReveal = target.generation)
      (heffects : r.2 = [.fetchReveal target.key target.field.name target.index target.generation
        cancel])
      (hanswer : msg.isAnswer = false)
  | askTotp (key : ItemKey) (selected : Nat) (code : Option TotpDisplay)
      (cancel : CancellationToken) (hmode : m.view.mode = .actions key selected)
      (hbefore : m.view.revealed = .totp code false ∧ code.isSome ∧
          r.1.view.revealCancel = m.view.revealCancel ∧
          cancel = m.view.revealTotpCancel.getD m.tokens.next ∨
        code = none ∧ r.1.view.revealCancel = none ∧ cancel = m.tokens.next ∧
          ∀ token, m.view.revealCancel = some token ∨ m.view.revealTotpCancel = some token →
            r.1.tokens.IsCancelled token)
      (hafter : r.1.view.mode = m.view.mode ∧ r.1.view.revealed = .totp code true ∧
        r.1.view.revealTotpCancel = some cancel ∧ r.1.nextReveal = m.nextReveal)
      (heffects : r.2 = [.fetchTotp key cancel])
      (hitem : code = none → ∃ item, m.item key = some item)
  | fieldAnswered (key : ItemKey) (target : RevealTarget) (value : Option SecretString)
      (selected : Nat) (result : Except PassError SecretString)
      (hmsg : msg = .revealFetched key target.index target.generation result)
      (hmode : m.view.mode = .actions key selected)
      (hbefore : m.view.revealed = .field target value)
      (hafter : r.1.view.mode = m.view.mode ∧
        r.1.view.revealed = answeredField target value result ∧ r.1.view.revealCancel = none ∧
        r.1.view.revealTotpCancel = m.view.revealTotpCancel ∧ r.1.nextReveal = m.nextReveal)
      (heffects : ∀ effect ∈ r.2, effect.part ≠ some .reveal)
  | totpAnswered (key : ItemKey) (selected : Nat) (code : Option TotpDisplay)
      (result : Except PassError Codes) (hmsg : msg = .totpFetched key result)
      (hmode : m.view.mode = .actions key selected) (hbefore : m.view.revealed = .totp code true)
      (hafter : r.1.view.mode = m.view.mode ∧
        r.1.view.revealed = .totp (m.answeredTotp code now result) false ∧
        r.1.view.revealCancel = m.view.revealCancel ∧
        r.1.view.revealTotpCancel = m.view.revealTotpCancel ∧ r.1.nextReveal = m.nextReveal)
      (heffects : ∀ effect ∈ r.2, effect.part ≠ some .reveal)

theorem clearRevealed_cleared (m : Model) : m.Cleared m.clearRevealed := by
  refine ⟨rfl, rfl, rfl, ?_, le_rfl⟩
  rintro token (hreveal | htotp)
  · simp [clearRevealed, dropReveal, cancelReveal, Tokens.cancel, Tokens.IsCancelled, hreveal]
  · simp [clearRevealed, dropReveal, cancelReveal, Tokens.cancel, Tokens.IsCancelled, htotp]

namespace Cleared

theorem after {m m₁ m' : Model} (h : m₁.Cleared m') (hsame : Part.reveal.Same m m₁) :
    m.Cleared m' := by
  obtain ⟨-, -, hreveal, htotp, hnext⟩ := hsame
  exact ⟨h.revealed, h.reveal, h.totp, by rw [← hreveal, ← htotp]; exact h.cancelled,
    hnext ▸ h.next⟩

theorem then_same {m m₁ m' : Model} (h : m.Cleared m₁) (hsame : Part.reveal.Same m₁ m')
    (hflags : m₁.tokens.Extends m'.tokens) : m.Cleared m' := by
  obtain ⟨-, hrevealed, hreveal, htotp, hnext⟩ := hsame
  exact ⟨hrevealed.trans h.revealed, hreveal.trans h.reveal, htotp.trans h.totp,
    fun token hmem => hflags.cancelled (h.cancelled token hmem), h.next.trans hnext.ge⟩

end Cleared

theorem RevealMove.untouched {m : Model} {msg : Msg} {now : Int} {r : Model × List Effect}
    (h : Untouched .reveal m r)
    (hfield : ∀ key index generation result, msg ≠ .revealFetched key index generation result)
    (htotp : ∀ key result, msg ≠ .totpFetched key result) : RevealMove m msg now r :=
  .keep h.same h.effects (fun _ _ _ _ hmsg => absurd hmsg (hfield _ _ _ _))
    fun _ _ hmsg => absurd hmsg (htotp _ _)

theorem RevealMove.of_reveal {m : Model} {msg : Msg} {now : Int} {r : Model × List Effect}
    (h : Part.reveal.Same m r.1 ∨ m.Cleared r.1)
    (heffects : ∀ effect ∈ r.2, effect.part ≠ some .reveal)
    (hfield : ∀ key index generation result, msg ≠ .revealFetched key index generation result)
    (htotp : ∀ key result, msg ≠ .totpFetched key result) : RevealMove m msg now r := by
  rcases h with hsame | hcleared
  · exact .untouched ⟨hsame, heffects⟩ hfield htotp
  · exact .clear hcleared heffects

theorem dropStaleReveal_revealMove {m : Model} {msg : Msg} {now : Int} {effects : List Effect}
    {m₁ : Model} (hsame : Part.reveal.Same m m₁)
    (heffects : ∀ effect ∈ effects, effect.part ≠ some .reveal)
    (hfield : ∀ key index generation result, msg ≠ .revealFetched key index generation result)
    (htotp : ∀ key result, msg ≠ .totpFetched key result) :
    RevealMove m msg now (m₁.dropStaleReveal, effects) := by
  obtain ⟨hmode, hrevealed, hreveal, hcancel, hnext⟩ := hsame
  unfold dropStaleReveal
  split
  next =>
    exact .untouched ⟨⟨hmode, hrevealed, hreveal, hcancel, hnext⟩, heffects⟩ hfield htotp
  next target htarget =>
    split
    · exact .untouched ⟨⟨hmode, hrevealed, hreveal, hcancel, hnext⟩, heffects⟩ hfield htotp
    · rw [hrevealed] at htarget
      cases hbefore : m.view.revealed with
      | nothing => simp [hbefore, Revealed.fieldTarget] at htarget
      | totp _ _ => simp [hbefore, Revealed.fieldTarget] at htarget
      | field target' value =>
          exact .drop target' value hbefore rfl rfl hcancel hmode hnext heffects

theorem clearRevealed_fetchTotp_eq {m : Model} {key : ItemKey} {selected : Nat}
    (hmode : m.view.mode = .actions key selected) :
    m.clearRevealed.fetchTotp =
      ({ m.clearRevealed with
        tokens := m.clearRevealed.tokens.advance
        view := { m.clearRevealed.view with
          revealed := .totp none true
          revealTotpCancel := some m.tokens.next } }, [.fetchTotp key m.tokens.next]) := by
  have hmode' : m.clearRevealed.view.mode = .actions key selected := hmode
  unfold fetchTotp
  simp only [hmode']
  rfl

theorem fetchTotp_first_revealMove {m : Model} {msg : Msg} {now : Int} {key : ItemKey}
    {selected : Nat} {item : ItemSummary} (hmode : m.view.mode = .actions key selected)
    (hitem : m.item key = some item) : RevealMove m msg now m.clearRevealed.fetchTotp := by
  rw [clearRevealed_fetchTotp_eq hmode]
  exact .askTotp key selected none m.tokens.next hmode
    (Or.inr ⟨rfl, rfl, rfl, m.clearRevealed_cleared.cancelled⟩) ⟨rfl, rfl, rfl, rfl⟩ rfl
    fun _ => ⟨item, hitem⟩

theorem tick_revealMove (m : Model) (now' now : Int) : RevealMove m (.tick now') now (m.tick now') := by
  unfold tick
  dsimp only
  split
  next hexpired =>
    obtain ⟨hshown, hidle⟩ := hexpired
    cases hmode : m.view.mode with
    | actions key selected =>
        cases hbefore : m.view.revealed with
        | nothing => simp [hbefore, Revealed.totpCode] at hshown
        | field _ _ => simp [hbefore, Revealed.totpCode] at hshown
        | totp code fetching =>
            have hfetching : fetching = false := by
              simpa [hbefore, Revealed.totpFetching] using hidle
            subst hfetching
            have hsome : code.isSome := by
              cases code with
              | none => simp [hbefore, Revealed.totpCode] at hshown
              | some _ => rfl
            simp only [fetchTotp, hmode]
            exact .askTotp key selected code m.revealTotpToken hmode
              (Or.inl ⟨hbefore, hsome, rfl, rfl⟩)
              ⟨hmode.symm, by simp [hbefore, Revealed.totpCode], rfl, rfl⟩ rfl
              (fun hnone => by simp [hnone] at hsome)
    | list =>
        simp only [fetchTotp, hmode]
        exact .untouched (.quiet (.refl m _)) (by simp) (by simp)
    | preferences _ =>
        simp only [fetchTotp, hmode]
        exact .untouched (.quiet (.refl m _)) (by simp) (by simp)
  next => exact .untouched (.quiet (.refl m _)) (by simp) (by simp)

/-- A row of the list that carries a position names the field there, so its fetch is asked for. -/
theorem fetchReveal_eq {m : Model} {key : ItemKey} {selected : Nat} {row : ActionEntry}
    {field : FieldRef} {index : Nat} (hmode : m.view.mode = .actions key selected)
    (hrow : row ∈ m.actions) (hsource : row.source = .field field)
    (hindex : row.fieldIndex = some index) :
    ∃ (target : RevealTarget) (item : ItemSummary), target.key = key ∧ target.index = index ∧
      target.field = field ∧ target.generation = m.nextReveal + 1 ∧ m.item key = some item ∧
      target.stillDescribes item ∧ m.clearRevealed.fetchReveal key field.name index =
        ({ m.clearRevealed with
          nextReveal := m.nextReveal + 1
          tokens := m.clearRevealed.tokens.advance
          view := { m.clearRevealed.view with
            revealed := .field target none
            revealCancel := some m.clearRevealed.tokens.fresh } },
          [.fetchReveal key field.name index (m.nextReveal + 1) m.clearRevealed.tokens.fresh]) := by
  obtain ⟨item, htarget, hmem⟩ := m.mem_actions hrow
  have hitem : m.item key = some item := by simpa [targetItem, hmode] using htarget
  have hfield := getElem?_of_mem_allActions hmem hsource hindex
  have hkey := (m.item_eq_some hitem).2
  have hpinned : revealTarget { m.clearRevealed with nextReveal := m.nextReveal + 1 } key index
      (m.nextReveal + 1) = some
        { generation := m.nextReveal + 1, key, index, field, modifiedAt := item.modifiedAt } := by
    have hitem' : Model.item { m.clearRevealed with nextReveal := m.nextReveal + 1 } key =
        some item := hitem
    simp [revealTarget, hitem', hfield]
  refine ⟨{ generation := m.nextReveal + 1, key, index, field, modifiedAt := item.modifiedAt }, item,
    rfl, rfl, rfl, rfl, hitem, ?_, ?_⟩
  · simp [RevealTarget.stillDescribes, hkey, hfield]
  · unfold fetchReveal
    dsimp only
    split
    next hnone => exact absurd (hnone.symm.trans hpinned) (by simp)
    next target hsome =>
      obtain rfl := Option.some.inj (hpinned.symm.trans hsome)
      rfl

theorem fetchReveal_revealMove {m : Model} {msg : Msg} {now : Int} {key : ItemKey} {selected : Nat}
    {row : ActionEntry} {field : FieldRef} {index : Nat}
    (hmode : m.view.mode = .actions key selected) (hrow : row ∈ m.actions)
    (hsource : row.source = .field field) (hindex : row.fieldIndex = some index)
    (hanswer : msg.isAnswer = false) :
    RevealMove m msg now (m.clearRevealed.fetchReveal key field.name index) := by
  obtain ⟨target, item, rfl, rfl, rfl, hgeneration, hitem, hdescribes, hfetch⟩ :=
    fetchReveal_eq hmode hrow hsource hindex
  rw [hfetch]
  exact .askField target _ selected item hmode hitem hdescribes hgeneration
    m.clearRevealed_cleared.cancelled ⟨rfl, rfl, rfl, rfl, hgeneration.symm⟩
    (by rw [hgeneration]) hanswer

theorem toggleReveal_revealMove (m : Model) (now : Int) :
    RevealMove m .toggleReveal now m.toggleReveal := by
  have hkeep : RevealMove m .toggleReveal now (m, []) :=
    .untouched (.quiet (.refl m _)) (by simp) (by simp)
  have hclear : RevealMove m .toggleReveal now (m.clearRevealed, []) :=
    .clear m.clearRevealed_cleared (by simp)
  unfold toggleReveal
  split
  next key selected hmode =>
    split
    next => exact hkeep
    next row hrow =>
      split
      · exact hclear
      · split
        next =>
          obtain ⟨item, htarget, -⟩ := m.mem_actions (List.mem_of_getElem? hrow)
          exact fetchTotp_first_revealMove hmode (by simpa [targetItem, hmode] using htarget)
        next field index hsource hindex =>
          split
          · exact fetchReveal_revealMove hmode (List.mem_of_getElem? hrow) hsource hindex rfl
          · exact hclear
        next => exact hclear
  next => exact hkeep

theorem moveSelection_revealMove (m : Model) {msg : Msg} (delta now : Int)
    (hfield : ∀ key index generation result, msg ≠ .revealFetched key index generation result)
    (htotp : ∀ key result, msg ≠ .totpFetched key result) :
    RevealMove m msg now (m.moveSelection delta) := by
  unfold moveSelection
  split
  next =>
    have hcleared := m.clearRevealed_cleared
    exact .clear ⟨rfl, rfl, rfl, hcleared.cancelled, le_rfl⟩ (by simp)
  next =>
    dsimp only
    split <;> exact .untouched (.quiet (by simp [Part.Same])) hfield htotp

theorem awaitsReveal_iff {m : Model} {key : ItemKey} {index generation : Nat} :
    m.awaitsReveal key index generation ↔ (∃ selected, m.view.mode = .actions key selected) ∧
      ∃ target value, m.view.revealed = .field target value ∧ target.generation = generation ∧
        target.index = index := by
  rw [awaitsReveal, decide_eq_true_iff, inActions_iff]
  refine and_congr_right fun _ => ?_
  cases m.view.revealed <;> simp [Revealed.fieldTarget]

theorem awaitsTotp_iff {m : Model} {key : ItemKey} :
    m.awaitsTotp key ↔ (∃ selected, m.view.mode = .actions key selected) ∧
      ∃ code, m.view.revealed = .totp code true := by
  rw [awaitsTotp, decide_eq_true_iff, inActions_iff]
  refine and_congr_right fun _ => ?_
  cases m.view.revealed <;> simp [Revealed.totpFetching]

theorem revealFetched_ignored {m : Model} {key : ItemKey} {index generation : Nat}
    (h : m.awaitsReveal key index generation = false) (result : Except PassError SecretString) :
    m.revealFetched key index generation result = (m, []) := by
  have hguard : ¬ m.inActions key ∨ ¬ m.view.revealed.fieldTarget.any fun target =>
      target.generation = generation ∧ target.index = index := by
    rw [← not_and_or]
    simpa [awaitsReveal] using h
  unfold revealFetched
  exact if_pos hguard

theorem totpFetched_ignored {m : Model} {key : ItemKey} (h : m.awaitsTotp key = false)
    (result : Except PassError Codes) (now : Int) : m.totpFetched key result now = (m, []) := by
  have hguard : ¬ m.inActions key ∨ ¬ m.view.revealed.totpFetching := by
    rw [← not_and_or]
    simpa [awaitsTotp] using h
  unfold totpFetched
  exact if_pos hguard

theorem revealFetched_revealMove (m : Model) (key : ItemKey) (index generation : Nat)
    (result : Except PassError SecretString) (now : Int) :
    RevealMove m (.revealFetched key index generation result) now
      (m.revealFetched key index generation result) := by
  cases hawaits : m.awaitsReveal key index generation with
  | false =>
      rw [revealFetched_ignored hawaits]
      refine .keep (.refl m _) (by simp) ?_ (by simp)
      rintro _ _ _ _ ⟨rfl, rfl, rfl, rfl⟩
      exact hawaits
  | true =>
      obtain ⟨⟨selected, hmode⟩, target, value, hbefore, rfl, rfl⟩ := awaitsReveal_iff.mp hawaits
      have hguard : ¬ (¬ m.inActions key ∨ ¬ m.view.revealed.fieldTarget.any fun other =>
          other.generation = target.generation ∧ other.index = target.index) := by
        rw [← not_and_or, not_not]
        simpa [awaitsReveal] using hawaits
      unfold revealFetched
      dsimp only
      rw [if_neg hguard]
      split
      next v =>
        simp only [hbefore]
        exact .fieldAnswered key target value selected (.ok v) rfl hmode hbefore
          ⟨rfl, rfl, rfl, rfl, rfl⟩ (by simp)
      next =>
        exact .fieldAnswered key target value selected (.error .cancelled) rfl hmode hbefore
          ⟨rfl, hbefore, rfl, rfl, rfl⟩ (by simp)
      next error hcancelled =>
        refine .fieldAnswered key target value selected (.error error) rfl hmode hbefore
          ⟨rfl, ?_, rfl, rfl, rfl⟩ (by simp [notify, Effect.part])
        cases error <;> first | rfl | exact absurd rfl hcancelled

theorem totpFetched_answered {m : Model} {key : ItemKey} {code : Option TotpDisplay}
    (hawaits : m.awaitsTotp key) (hbefore : m.view.revealed = .totp code true)
    (result : Except PassError Codes) (now : Int) :
    (m.totpFetched key result now).1.view.mode = m.view.mode ∧
      (m.totpFetched key result now).1.view.revealed = .totp (m.answeredTotp code now result) false ∧
      (m.totpFetched key result now).1.view.revealCancel = m.view.revealCancel ∧
      (m.totpFetched key result now).1.view.revealTotpCancel = m.view.revealTotpCancel ∧
      (m.totpFetched key result now).1.nextReveal = m.nextReveal ∧
      ∀ effect ∈ (m.totpFetched key result now).2, effect.part ≠ some .reveal := by
  have hguard : ¬ (¬ m.inActions key ∨ ¬ m.view.revealed.totpFetching) := by
    rw [← not_and_or, not_not]
    simpa [awaitsTotp] using hawaits
  unfold totpFetched
  rw [if_neg hguard]
  split
  next codes => exact ⟨rfl, rfl, rfl, rfl, rfl, by simp⟩
  next => simp [totpFetchSettled, hbefore, answeredTotp]
  next => simp [totpFetchSettled, hbefore, answeredTotp, notify, Effect.part]

theorem totpFetched_revealMove (m : Model) (key : ItemKey) (result : Except PassError Codes)
    (now : Int) : RevealMove m (.totpFetched key result) now (m.totpFetched key result now) := by
  cases hawaits : m.awaitsTotp key with
  | false =>
      rw [totpFetched_ignored hawaits]
      refine .keep (.refl m _) (by simp) (by simp) ?_
      rintro _ _ ⟨rfl, rfl⟩
      exact hawaits
  | true =>
      obtain ⟨⟨selected, hmode⟩, code, hbefore⟩ := awaitsTotp_iff.mp hawaits
      obtain ⟨hmode', hrevealed, hreveal, htotp, hnext, heffects⟩ :=
        totpFetched_answered hawaits hbefore result now
      exact .totpAnswered key selected code result rfl hmode hbefore
        ⟨hmode', hrevealed, hreveal, htotp, hnext⟩ heffects

section Moves

variable [TextSupport] (m : Model)

theorem hide_cleared : m.Cleared m.hide.1 := by
  have hcleared := (clearRevealed_cleared { m.cancelPending with
    view := { m.cancelPending.view with mode := .list } })
  exact ⟨rfl, rfl, rfl, hcleared.cancelled, le_rfl⟩

theorem clearData_cleared : m.Cleared m.clearData := by
  have hcleared := m.clearRevealed_cleared
  exact ⟨rfl, rfl, rfl, hcleared.cancelled, le_rfl⟩

theorem sessionError_reveal (error : PassError) :
    Part.reveal.Same m (m.sessionError error).1 ∨ m.Cleared (m.sessionError error).1 := by
  unfold sessionError
  split
  next => exact Or.inr ((clearData_cleared _).after (by simp [Part.Same]))
  all_goals exact Or.inl (by simp [Part.Same])

theorem signedIn_reveal (account : AccountId) :
    Part.reveal.Same m (m.signedIn account).1 ∨ m.Cleared (m.signedIn account).1 := by
  unfold signedIn
  dsimp only
  split
  · refine Or.inr (m.clearData_cleared.then_same ?_ ?_)
    · rw [requestRefresh_fst]
      simp [Part.Same]
    · rw [requestRefresh_fst]
      exact .refl _
  · apply Or.inl
    rw [requestRefresh_fst]
    simp [Part.Same]

theorem sessionProbed_reveal (result : Except PassError AccountId) :
    Part.reveal.Same m (m.sessionProbed result).1 ∨ m.Cleared (m.sessionProbed result).1 := by
  unfold sessionProbed
  split
  next account => exact m.signedIn_reveal account
  next error =>
    have herror := m.sessionError_reveal error
    have hnamed : ∀ session, Part.reveal.Same m { (m.sessionError error).1 with session } ∨
        m.Cleared { (m.sessionError error).1 with session } := fun session =>
      herror.imp (fun hsame => hsame.trans (by simp [Part.Same]))
        fun hcleared => hcleared.then_same (by simp [Part.Same]) (.refl _)
    dsimp only
    split
    next => exact hnamed _
    next => exact hnamed _
    next => exact herror

theorem hide_revealMove (msg : Msg) (now : Int) : RevealMove m msg now m.hide :=
  .clear m.hide_cleared (by simp [hide, Effect.part])

theorem copySettled_reveal (key : ItemKey) (secret : Bool)
    (result : Except PassError SecretString) (now : Int) :
    Part.reveal.Same m (m.copySettled key secret result now).1 ∨
      m.Cleared (m.copySettled key secret result now).1 := by
  unfold copySettled
  split
  next => exact Or.inl (by simp [Part.Same, finishCopy])
  next => exact Or.inl (.refl m _)
  next => exact Or.inl (by simp [Part.Same, notify, requestRefresh_fst])
  next => exact Or.inl (by simp [Part.Same, notify])
  next error _ _ _ =>
    have hnotice : Part.reveal.Same m (m.notify error.toText).1 := by simp [Part.Same, notify]
    rcases sessionError_reveal (m.notify error.toText).1 error with hsame | hcleared
    · exact Or.inl (hnotice.trans hsame)
    · exact Or.inr (hcleared.after hnotice)

theorem copyFetched_reveal (key : ItemKey) (result : Except PassError SecretString) (now : Int) :
    Part.reveal.Same m (m.copyFetched key result now).1 ∨
      m.Cleared (m.copyFetched key result now).1 := by
  have hempty : Part.reveal.Same m { m with view := { m.view with pending := none } } := by
    simp [Part.Same]
  unfold copyFetched
  split
  next => exact Or.inl (.refl m _)
  next =>
    split
    · exact (copySettled_reveal _ _ _ _ _).imp hempty.trans fun hcleared =>
        Cleared.after hcleared hempty
    · exact Or.inl (.refl m _)

/-- **What a message does to the field list.** -/
theorem update_revealMove (msg : Msg) (now : Int) : RevealMove m msg now (m.update msg now) := by
  by_cases htouches : Part.reveal ∈ msg.touches
  · cases msg with
    | toggle =>
        rw [update]
        split
        · exact m.hide_revealMove _ _
        · exact .untouched (m.show_untouched (by simp [Msg.touches]) now) (by simp) (by simp)
    | hide => exact m.hide_revealMove _ _
    | selectNext => exact m.moveSelection_revealMove 1 now (by simp) (by simp)
    | selectPrev => exact m.moveSelection_revealMove (-1) now (by simp) (by simp)
    | pageDown => exact m.moveSelection_revealMove page now (by simp) (by simp)
    | pageUp => exact m.moveSelection_revealMove (-page) now (by simp) (by simp)
    | dataLoaded listing =>
        exact dropStaleReveal_revealMove (by simp [Part.Same, recomputeResults])
          (by simp [Effect.part]) (by simp) (by simp)
    | cacheLoaded file =>
        simp only [update, cacheLoaded]
        split
        next => exact .untouched (.quiet (.refl m _)) (by simp) (by simp)
        next =>
          split
          · exact .untouched (.quiet (.refl m _)) (by simp) (by simp)
          · split
            · exact .untouched (.cons (.quiet (.refl m _)) (by simp [Effect.part])) (by simp)
                (by simp)
            · exact dropStaleReveal_revealMove (by simp [Part.Same, recomputeResults]) (by simp)
                (by simp) (by simp)
    | refreshFailed error =>
        have hidle : Part.reveal.Same m
            { m with data := { m.data with refreshing := false, stale := true } } := by
          simp [Part.Same]
        refine .of_reveal ?_ ?_ (by simp) (by simp)
        · exact (sessionError_reveal _ error).imp hidle.trans fun h => h.after hidle
        · intro effect hmem
          rw [mem_sessionError _ hmem]
          simp [Effect.part]
    | sessionProbed result =>
        refine .of_reveal (m.sessionProbed_reveal result) (fun effect hmem => ?_) (by simp) (by simp)
        rcases m.mem_sessionProbed hmem with rfl | rfl <;> simp [Effect.part]
    | copyFetched key result =>
        refine .of_reveal (m.copyFetched_reveal key result now) (fun effect hmem => ?_) (by simp)
          (by simp)
        simp only [update, copyFetched] at hmem
        split at hmem
        next => simp at hmem
        next =>
          split at hmem
          · rcases mem_copySettled _ hmem with ⟨_, rfl⟩ | rfl | rfl | rfl | ⟨_, _, rfl⟩ <;>
              simp [Effect.part]
          · simp at hmem
    | copyFinished result =>
        simp only [update, copyFinished, copyConfirmed]
        split
        next =>
          split
          · exact m.hide_revealMove _ _
          · exact .untouched (.quiet (.refl m _)) (by simp) (by simp)
        next => exact .untouched (m.notify_untouched _ rfl) (by simp) (by simp)
    | escape =>
        simp only [update, escape]
        split
        · exact .untouched (.quiet (m.cancelPending_same (by simp))) (by simp) (by simp)
        · split
          next page hmode =>
            exact .turn rfl rfl rfl rfl (Or.inr ⟨_, _, hmode, rfl⟩) (by simp) rfl
          next => exact m.hide_revealMove _ _
          next =>
            have hcleared := (m.clearRevealed_cleared)
            exact .clear ⟨rfl, rfl, rfl, hcleared.cancelled, le_rfl⟩ (by simp)
    | openActions =>
        simp only [update, openActions]
        split
        · exact .turn rfl rfl rfl rfl (Or.inl rfl) (by simp) rfl
        · exact .untouched (.quiet (.refl m _)) (by simp) (by simp)
    | back | openPreferences =>
        have hcleared := m.clearRevealed_cleared
        exact .clear ⟨rfl, rfl, rfl, hcleared.cancelled, le_rfl⟩ (by simp [update])
    | toggleReveal => exact m.toggleReveal_revealMove now
    | revealFetched key index generation result =>
        exact m.revealFetched_revealMove key index generation result now
    | totpFetched key result => exact m.totpFetched_revealMove key result now
    | tick now' => exact m.tick_revealMove now' now
    | startRebind action =>
        simp only [update]
        split
        next hmode => exact .turn rfl rfl rfl rfl (Or.inr ⟨_, _, hmode, rfl⟩) (by simp) rfl
        next => exact .untouched (.quiet (.refl m _)) (by simp) (by simp)
    | chordCaptured chord =>
        simp only [update, chordCaptured]
        split
        next action hmode =>
          split
          next => exact .untouched (m.notify_untouched _ rfl) (by simp) (by simp)
          next =>
            obtain ⟨_, _, hsaved⟩ := savePrefs_cases
              { m with view := { m.view with mode := .preferences none } }
              { m.prefs with shortcuts := m.prefs.shortcuts.insert action chord }
            refine .turn (by rw [hsaved]) (by rw [hsaved]) (by rw [hsaved]) (by rw [hsaved])
              (Or.inr ⟨_, none, hmode, by rw [hsaved]⟩) ?_ rfl
            intro effect hmem
            obtain ⟨_, rfl⟩ := mem_savePrefs _ hmem
            simp [Effect.part]
        next => exact .untouched (.quiet (.refl m _)) (by simp) (by simp)
    | _ => simp [Msg.touches] at htouches
  · refine .untouched (m.update_untouched msg now htouches) ?_ ?_
    · rintro key index generation result rfl
      simp [Msg.touches] at htouches
    · rintro key result rfl
      simp [Msg.touches] at htouches

end Moves

end Model

end CosmicPass
