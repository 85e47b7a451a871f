import CosmicPass.Core.Runs
import CosmicPass.Proof.DataSlot
import CosmicPass.Proof.RevealedRows

/-!
# Copying a row and revealing it

Enter on a row of the field list and the reveal chord on it take two paths through the reducer: one
ends in `pickTotp` and the clipboard, the other in the answer the row then draws. Both ask `pass-cli`
for the same thing, and the same answer gives the same value on both.

They part where the highlight rests on a code row while the code of another row is on screen: the
reveal chord masks that other row, and asks for nothing.
-/

namespace CosmicPass

/-- What an effect asks `pass-cli` for: a field of an item, or the codes of the item. -/
def Effect.request : Effect → Option (ItemKey × Option String)
  | .fetchAndCopy key field _ _ | .fetchReveal key field _ _ _ => some (key, some field)
  | .fetchTotpAndCopy key _ _ | .fetchTotp key _ => some (key, none)
  | _ => none

def copiedValue (effects : List Effect) : Option SecretString :=
  effects.findSome? fun effect => match effect with
    | .copy value _ => some value
    | _ => none

theorem pickTotp_eq (codes : Codes) (field : String) :
    pickTotp codes field = (Model.shownCode codes field).elim (.error .fieldMissing) .ok := by
  have hfound : (codes.get? field).or
      (codes.get? (if field = "totp_uri" then "totp" else field)) = Model.shownCode codes field := by
    unfold Model.shownCode
    by_cases hlogin : field = "totp_uri"
    · simp [hlogin]
    · cases hcode : codes.get? field <;> simp [hlogin, hcode]
  simp only [pickTotp, hfound]
  cases Model.shownCode codes field <;> rfl

namespace Model

/-- The value of the row is on its way. -/
def awaitsRow (m : Model) (key : ItemKey) (row : ActionEntry) : Bool :=
  match row.source with
  | .totp _ => m.revealingTotp
  | .field _ => row.fieldIndex.any fun index =>
      m.view.revealed.value = none ∧
        m.view.revealed.fieldTarget.any fun target => target.key = key ∧ target.index = index

/-- The row draws a mask, and its value is not on its way. -/
def hides (m : Model) (key : ItemKey) (row : ActionEntry) : Bool :=
  m.revealState row.source row.fieldIndex = .masked ∧ ¬ m.awaitsRow key row

/-- The highlight is on a code row, and the code on screen is another row's. -/
def otherCodeShown (m : Model) (row : ActionEntry) : Bool :=
  match row.source with
  | .totp name => ¬ m.revealingTotp ∧ m.revealedTotp.any fun shown => shown.field ≠ name
  | .field _ => false

/-- What a row draws once the value copied is its own. -/
def drawnFor (source : CopySource) (copied : Option SecretString) (answeredAt now : Int) : String :=
  match source, copied with
  | .field _, some value => value.exposeSecret
  | .field _, none => mask
  | .totp name, some code =>
      code.exposeSecret ++ " · " ++
        toString ((TotpDisplay.new name code answeredAt).remaining now) ++ "s"
  | .totp _, none => totpMask

section Agreement

variable [TextSupport]

/-- One answer, given to both fetches with no message between: what is copied is what is drawn. -/
structure SameAnswer (m : Model) (selected : Nat) (row : ActionEntry) (copy reveal : Effect)
    (askedAt : Int) : Prop where
  request : copy.request = reveal.request
  value : ∀ reply copyMsg revealMsg answeredAt now, execute copy reply = some copyMsg →
    execute reveal reply = some revealMsg →
      ((m.update .toggleReveal askedAt).1.update revealMsg answeredAt).1.valueHint row.source
          row.fieldIndex now =
        drawnFor row.source (copiedValue
          ((m.update (.activateAction (some selected)) askedAt).1.update copyMsg answeredAt).2)
          answeredAt now

/-- A fetch for a copy and one for a reveal, of the same thing, with the same value on both paths. -/
def AskAlike (m : Model) (key : ItemKey) (selected : Nat) (row : ActionEntry) (now : Int) : Prop :=
  ∃ copy reveal, (m.update (.activateAction (some selected)) now).2 = [copy] ∧
    (m.update .toggleReveal now).2 = [reveal] ∧
    copy.request.any (fun asked => asked.1 = key) ∧ m.SameAnswer selected row copy reveal now

/-- Copying the highlighted row and revealing it agree. -/
structure RowAgrees (m : Model) (key : ItemKey) (selected : Nat) (row : ActionEntry) : Prop where
  codes : ∀ name, row.source = .totp name → ∀ codes,
    pickTotp codes name = (shownCode codes name).elim (.error .fieldMissing) .ok
  /-- A value is copied as a secret exactly when its row is masked while nothing is revealed. -/
  secrecy : ∀ askedAt answeredAt copy reply msg value flag,
    copy ∈ (m.update (.activateAction (some selected)) askedAt).2 → execute copy reply = some msg →
      .copy value flag ∈
        ((m.update (.activateAction (some selected)) askedAt).1.update msg answeredAt).2 →
      (flag = true ↔ m.clearRevealed.revealState row.source row.fieldIndex = .masked)
  asked : m.hides key row → ∀ now, m.AskAlike key selected row now

end Agreement

/-- What is revealed, or awaited, is a field its item still carries. -/
def Pinned (m : Model) : Prop :=
  ∀ target, m.view.revealed.fieldTarget = some target →
    (m.item target.key).any target.stillDescribes

theorem pinned_of_not_field {m : Model} (h : m.view.revealed.fieldTarget = none) : m.Pinned := by
  intro target htarget
  simp [h] at htarget

theorem dropStaleReveal_pinned (m : Model) : m.dropStaleReveal.Pinned := by
  unfold dropStaleReveal
  split
  next hnone => exact pinned_of_not_field hnone
  next target htarget =>
    split
    next hkept =>
      intro other hother
      obtain rfl := Option.some.inj (htarget.symm.trans hother)
      exact hkept
    next => exact pinned_of_not_field rfl

theorem Pinned.of_items {m m' : Model} (h : m.Pinned) (hitems : m'.data.items = m.data.items)
    (hrevealed : ∀ target, m'.view.revealed.fieldTarget = some target →
      m.view.revealed.fieldTarget = some target ∨ (m.item target.key).any target.stillDescribes) :
    m'.Pinned := by
  intro target htarget
  have hitem : m'.item target.key = m.item target.key := by rw [item, hitems, item]
  rw [hitem]
  rcases hrevealed target htarget with hbefore | hdescribes
  · exact h target hbefore
  · exact hdescribes

section Runs

variable [TextSupport] {m : Model}

omit [TextSupport] in
/-- Where the items stay, what is revealed afterwards was revealed before or is read off an item. -/
theorem RevealMove.fieldTarget_cases {msg : Msg} {now : Int} {r : Model × List Effect}
    (h : RevealMove m msg now r) {target : RevealTarget}
    (htarget : r.1.view.revealed.fieldTarget = some target) :
    m.view.revealed.fieldTarget = some target ∨ (m.item target.key).any target.stillDescribes := by
  cases h with
  | keep hsame => exact Or.inl (hsame.2.1 ▸ htarget)
  | turn hrevealed => exact Or.inl (hrevealed ▸ htarget)
  | clear hcleared => simp [hcleared.revealed, Revealed.fieldTarget] at htarget
  | drop _ _ _ hrevealed => simp [hrevealed, Revealed.fieldTarget] at htarget
  | askField asked _ _ item _ hitem hdescribes _ _ hafter =>
      obtain rfl : asked = target := by simpa [hafter.2.1, Revealed.fieldTarget] using htarget
      exact Or.inr (by rw [hitem]; exact hdescribes)
  | askTotp _ _ _ _ _ _ hafter => simp [hafter.2.1, Revealed.fieldTarget] at htarget
  | fieldAnswered _ asked value _ result _ _ hbefore hafter =>
      left
      rw [hbefore]
      rw [hafter.2.1] at htarget
      unfold answeredField at htarget
      split at htarget
      · simpa [Revealed.fieldTarget] using htarget
      · simpa [Revealed.fieldTarget] using htarget
      · simp [Revealed.fieldTarget] at htarget
  | totpAnswered _ _ _ _ _ _ _ hafter => simp [hafter.2.1, Revealed.fieldTarget] at htarget

theorem update_pinned (msg : Msg) (now : Int) (h : m.Pinned) : (m.update msg now).1.Pinned := by
  have hkeep : (m.update msg now).1.data.items = m.data.items → (m.update msg now).1.Pinned :=
    fun hitems => h.of_items hitems fun _ => (m.update_revealMove msg now).fieldTarget_cases
  have hwiped : (m.update msg now).1.Wiped → (m.update msg now).1.Pinned := fun hwiped =>
    pinned_of_not_field (by rw [hwiped.revealed]; rfl)
  cases m.update_dataMove msg now with
  | keep hsame => exact hkeep hsame.2.1
  | wipe hwipe => exact hwiped hwipe
  | name account _ _ _ hdata =>
      split at hdata
      · exact hwiped hdata
      · exact hkeep hdata.items
  | list listing hmsg =>
      subst hmsg
      exact dropStaleReveal_pinned _
  | cache file hmsg _ hfirst hsigned =>
      subst hmsg
      simp only [update, cacheLoaded]
      split
      · exact h
      · split
        · exact h
        · exact dropStaleReveal_pinned _
  | use _ _ _ _ _ hdata => exact hkeep hdata.2.1

theorem pinned_of_reach {guard : Model → Msg × Int → Prop} (h : system.Reach guard m) : m.Pinned :=
  invariant_of_update (fun _ => pinned_of_not_field rfl)
    (fun _ msg now _ _ => update_pinned msg now) h

end Runs

section Copy

variable [TextSupport] {m : Model} {key : ItemKey} {selected : Nat} {row : ActionEntry}

omit [TextSupport] in
theorem copiedValue_eq_none {effects : List Effect}
    (h : ∀ effect ∈ effects, effect.part ≠ some .copy) : copiedValue effects = none := by
  rw [copiedValue, List.findSome?_eq_none_iff]
  intro effect hmem
  have hpart := h effect hmem
  cases effect <;> simp [Effect.part] at hpart ⊢

theorem update_activateAction (hmode : m.view.mode = .actions key selected)
    (hrow : m.actions[selected]? = some row) (now : Int) :
    m.update (.activateAction (some selected)) now = m.startCopy key row.source := by
  simp [update, activateAction, hmode, hrow]

theorem copyFetched_startCopy (m : Model) (key : ItemKey) (source : CopySource)
    (result : Except PassError SecretString) (now : Int) : ∃ m₁ : Model,
      ((m.startCopy key source).1.copyFetched key result now) =
        m₁.copySettled key source.isSecret result now := by
  simp only [startCopy, copyFetched, if_true]
  exact ⟨_, rfl⟩

/-- The answer to a copy just asked for is copied, as secret as its source. -/
theorem mem_copyFetched_startCopy {source : CopySource} {result : Except PassError SecretString}
    {now : Int} {value : SecretString} {flag : Bool}
    (h : .copy value flag ∈ ((m.startCopy key source).1.copyFetched key result now).2) :
    flag = source.isSecret := by
  obtain ⟨m₁, heq⟩ := copyFetched_startCopy m key source result now
  rw [heq] at h
  rcases mem_copySettled _ h with ⟨_, hcopy⟩ | hother | hother | hother | ⟨_, _, hother⟩
  · exact (Effect.copy.inj hcopy).2
  all_goals simp at hother

theorem copiedValue_startCopy (m : Model) (key : ItemKey) (source : CopySource)
    (result : Except PassError SecretString) (now : Int) :
    copiedValue ((m.startCopy key source).1.copyFetched key result now).2 = result.toOption := by
  obtain ⟨m₁, heq⟩ := copyFetched_startCopy m key source result now
  rw [heq]
  cases result with
  | ok value => rfl
  | error error =>
      exact copiedValue_eq_none
        (copySettled_error_untouched m₁ (by simp) key source.isSecret error now).effects

end Copy

section Reveal

variable [TextSupport] {m : Model} {key : ItemKey} {selected : Nat} {row : ActionEntry}

omit [TextSupport] in
theorem wasShowing_of_hides (hpinned : m.Pinned) (hmode : m.view.mode = .actions key selected)
    (hhides : m.hides key row) (hother : m.otherCodeShown row = false) :
    m.wasShowing key row = false := by
  obtain ⟨hmasked, hidle⟩ := of_decide_eq_true hhides
  cases hsource : row.source with
  | totp name =>
      have hnothing : m.revealedTotp = none := by
        cases hshown : m.revealedTotp with
        | none => rfl
        | some shown =>
            have hfetching : m.revealingTotp = false := by simpa [awaitsRow, hsource] using hidle
            have hname : shown.field = name := by
              simpa [otherCodeShown, hsource, hshown, hfetching] using hother
            simp [revealState, hsource, hshown, hname] at hmasked
      simp only [wasShowing, hsource]
      simp only [awaitsRow, hsource, revealingTotp] at hidle
      simp only [revealedTotp] at hnothing
      simp [hnothing, hidle]
  | field f =>
      by_contra hshowing
      have hshowing : m.wasShowing key row = true := by simpa using hshowing
      simp only [wasShowing, hsource] at hshowing
      obtain ⟨index, hindex, htarget⟩ := (Option.any_eq_true _ _).mp hshowing
      obtain ⟨target, hfield, hplace⟩ := (Option.any_eq_true _ _).mp htarget
      obtain ⟨rfl, rfl⟩ := of_decide_eq_true hplace
      cases hvalue : m.view.revealed.value with
      | none => simp [awaitsRow, hsource, hindex, hvalue, hfield] at hidle
      | some value =>
          obtain ⟨item, hitem, hdescribes⟩ := (Option.any_eq_true _ _).mp (hpinned target hfield)
          have hshown : m.revealedValue target.index = some value := by
            simp [revealedValue, hfield, hvalue, targetItem, hmode, hitem, hdescribes]
          have hsecret : f.secret = true := by
            by_contra hplain
            simp [revealState, hsource, hplain] at hmasked
          simp [revealState, hsource, hsecret, hindex, hshown] at hmasked

omit [TextSupport] in
/-- The answer to the field just asked for is drawn on its row. -/
theorem valueHint_revealFetched {field : FieldRef} {target : RevealTarget} {item : ItemSummary}
    (hmode : m.view.mode = .actions target.key selected)
    (hrevealed : m.view.revealed = .field target none) (hitem : m.item target.key = some item)
    (hdescribes : target.stillDescribes item) (hsource : row.source = .field field)
    (hsecret : field.secret) (hindex : row.fieldIndex = some target.index)
    (result : Except PassError SecretString) (answeredAt now : Int) :
    (m.revealFetched target.key target.index target.generation result).1.valueHint row.source
        row.fieldIndex now = drawnFor row.source result.toOption answeredAt now := by
  have hguard : ¬ (¬ m.inActions target.key ∨ ¬ m.view.revealed.fieldTarget.any fun other =>
      other.generation = target.generation ∧ other.index = target.index) := by
    simp [inActions, hmode, hrevealed, Revealed.fieldTarget]
  have hhint : ∀ m' : Model, m'.view.mode = m.view.mode → m'.data.items = m.data.items →
      ∀ value, m'.view.revealed = .field target value ∨ m'.view.revealed = .nothing ∧ value = none →
        m'.valueHint row.source row.fieldIndex now = drawnFor row.source value answeredAt now := by
    intro m' hmode' hitems value hafter
    have hitem' : m'.item target.key = some item := by rw [Model.item, hitems, ← hitem, Model.item]
    rcases hafter with hfield | ⟨hnothing, rfl⟩
    · cases value <;>
        simp [valueHint, hsource, hsecret, hindex, revealedValue, hfield, Revealed.fieldTarget,
          Revealed.value, targetItem, hmode', hmode, hitem', hdescribes, drawnFor]
    · simp [valueHint, hsource, hsecret, hindex, revealedValue, hnothing, Revealed.fieldTarget,
        drawnFor]
  unfold revealFetched
  dsimp only
  rw [if_neg hguard]
  split
  next value =>
    simp only [hrevealed]
    refine hhint _ ?_ ?_ (some value) (Or.inl ?_) <;> rfl
  next => exact hhint _ rfl rfl none (Or.inl hrevealed)
  next => refine hhint _ ?_ ?_ none (Or.inr ⟨?_, rfl⟩) <;> rfl

omit [TextSupport] in
/-- The answer to the codes just asked for is drawn on the row they are looked up for. -/
theorem valueHint_totpFetched {name : String} (hmode : m.view.mode = .actions key selected)
    (hrow : m.actions[selected]? = some row) (hsource : row.source = .totp name)
    (hrevealed : m.view.revealed = .totp none true) (result : Except PassError Codes)
    (answeredAt now : Int) :
    (m.totpFetched key result answeredAt).1.valueHint row.source row.fieldIndex now =
      drawnFor row.source (result.bind fun codes => pickTotp codes name).toOption answeredAt now := by
  have hguard : ¬ (¬ m.inActions key ∨ ¬ m.view.revealed.totpFetching) := by
    simp [inActions, hmode, hrevealed, Revealed.totpFetching]
  have hhighlight : m.highlightedTotpField = some name := by
    obtain ⟨source, label, shortcut, fieldIndex⟩ := row
    subst hsource
    simp [highlightedTotpField, hmode, hrow]
  unfold totpFetched
  rw [if_neg hguard]
  cases result with
  | ok codes =>
      simp only [hhighlight, Except.bind, pickTotp_eq, Option.bind_some]
      cases hcode : shownCode codes name <;>
        simp [valueHint, hsource, revealedTotp, Revealed.totpCode, drawnFor, TotpDisplay.new,
          Except.toOption]
  | error error =>
      cases error <;>
        simp [valueHint, hsource, revealedTotp, totpFetchSettled, notify, hrevealed,
          Revealed.totpCode, drawnFor, Except.bind, Except.toOption]

theorem askAlike_field {field : FieldRef} (hmode : m.view.mode = .actions key selected)
    (hrow : m.actions[selected]? = some row) (hmasked : m.wasShowing key row = false)
    (hsource : row.source = .field field) (hsecret : field.secret) (now : Int) :
    m.AskAlike key selected row now := by
  have hmem := List.mem_of_getElem? hrow
  obtain ⟨item, -, hlisted⟩ := m.mem_actions hmem
  obtain ⟨index, hindex⟩ := fieldIndex_of_mem_allActions hlisted hsource
  obtain ⟨target, item, rfl, rfl, rfl, hgeneration, hitem, hdescribes, hfetch⟩ :=
    fetchReveal_eq hmode hmem hsource hindex
  have htoggle : m.update .toggleReveal now =
      m.clearRevealed.fetchReveal target.key target.field.name target.index := by
    simp only [update, toggleReveal, hmode, hrow, hmasked, hsource, hindex, hsecret, if_true,
      Bool.false_eq_true, if_false]
  have hactivate := update_activateAction hmode hrow now
  rw [hfetch] at htoggle
  refine ⟨.fetchAndCopy target.key target.field.name target.field.secret m.cancelPending.tokens.fresh,
    .fetchReveal target.key target.field.name target.index (m.nextReveal + 1)
      m.clearRevealed.tokens.fresh, ?_, by rw [htoggle], by simp [Effect.request], ⟨rfl, ?_⟩⟩
  · rw [hactivate]
    simp only [startCopy, hsource, CopySource.isSecret]
  intro reply copyMsg revealMsg answeredAt shownAt hcopy hreveal
  cases reply with
  | field result =>
      obtain rfl := Option.some.inj hcopy
      obtain rfl := Option.some.inj hreveal
      have hopen : (m.update .toggleReveal now).1.view.mode = .actions target.key selected := by
        rw [htoggle]
        exact hmode
      have hdrawn := valueHint_revealFetched hopen (by rw [htoggle]) (by rw [htoggle]; exact hitem)
        hdescribes hsource hsecret hindex result answeredAt shownAt
      rw [hgeneration, ← copiedValue_startCopy m target.key row.source result answeredAt] at hdrawn
      rw [hactivate]
      exact hdrawn
  | _ => simp [execute] at hcopy

theorem askAlike_totp {name : String} (hmode : m.view.mode = .actions key selected)
    (hrow : m.actions[selected]? = some row) (hmasked : m.wasShowing key row = false)
    (hsource : row.source = .totp name) (now : Int) : m.AskAlike key selected row now := by
  have htoggle : m.update .toggleReveal now = m.clearRevealed.fetchTotp := by
    simp only [update, toggleReveal, hmode, hrow, hmasked, hsource, Bool.false_eq_true, if_false]
  have hactivate := update_activateAction hmode hrow now
  rw [clearRevealed_fetchTotp_eq hmode] at htoggle
  refine ⟨.fetchTotpAndCopy key name m.cancelPending.tokens.fresh, .fetchTotp key m.tokens.next, ?_,
    by rw [htoggle], by simp [Effect.request], ⟨rfl, ?_⟩⟩
  · rw [hactivate]
    simp only [startCopy, hsource]
  intro reply copyMsg revealMsg answeredAt shownAt hcopy hreveal
  cases reply with
  | codes result =>
      obtain rfl := Option.some.inj hcopy
      obtain rfl := Option.some.inj hreveal
      have hopen : (m.update .toggleReveal now).1.view.mode = .actions key selected := by
        rw [htoggle]
        exact hmode
      have hdrawn := valueHint_totpFetched hopen (by rw [htoggle]; exact hrow) hsource
        (by rw [htoggle]) result answeredAt shownAt
      rw [← copiedValue_startCopy m key row.source _ answeredAt] at hdrawn
      rw [hactivate]
      exact hdrawn
  | _ => simp [execute] at hcopy

theorem secrecy_of_activateAction (hmode : m.view.mode = .actions key selected)
    (hrow : m.actions[selected]? = some row) {askedAt answeredAt : Int} {copy : Effect}
    {reply : Reply} {msg : Msg} {value : SecretString} {flag : Bool}
    (hcopy : copy ∈ (m.update (.activateAction (some selected)) askedAt).2)
    (hmsg : execute copy reply = some msg)
    (hcopied : .copy value flag ∈
      ((m.update (.activateAction (some selected)) askedAt).1.update msg answeredAt).2) :
    flag = true ↔ m.clearRevealed.revealState row.source row.fieldIndex = .masked := by
  rw [update_activateAction hmode hrow] at hcopy hcopied
  have hflag : flag = row.source.isSecret := by
    cases hsource : row.source with
    | field field =>
        obtain rfl : copy = _ := by simpa [startCopy, hsource] using hcopy
        cases reply with
        | field result =>
            obtain rfl := Option.some.inj hmsg
            exact hsource ▸ mem_copyFetched_startCopy hcopied
        | _ => simp [execute] at hmsg
    | totp name =>
        obtain rfl : copy = _ := by simpa [startCopy, hsource] using hcopy
        cases reply with
        | codes result =>
            obtain rfl := Option.some.inj hmsg
            exact hsource ▸ mem_copyFetched_startCopy hcopied
        | _ => simp [execute] at hmsg
  rw [hflag]
  cases row.source with
  | totp name => simp [CopySource.isSecret, revealState, revealedTotp, clearRevealed, dropReveal,
      cancelReveal, Revealed.totpCode]
  | field field =>
      cases hsecret : field.secret <;>
        simp [CopySource.isSecret, revealState, hsecret, revealedValue, clearRevealed, dropReveal,
          cancelReveal, Revealed.fieldTarget]

/-- **Copying a row and revealing it agree**, exactly where the highlight is not on a code row while
the code of another row is on screen. -/
theorem copy_and_reveal_agree (hreach : system.Reach TransitionSystem.anyStep m)
    (hmode : m.view.mode = .actions key selected) (hrow : m.actions[selected]? = some row) :
    m.RowAgrees key selected row ↔ ¬ m.otherCodeShown row := by
  constructor
  · intro h hother
    cases hsource : row.source with
    | field field => simp [otherCodeShown, hsource] at hother
    | totp name =>
        obtain ⟨hidle, hany⟩ : ¬ m.revealingTotp ∧
            m.revealedTotp.any fun shown => shown.field ≠ name := by
          simpa [otherCodeShown, hsource] using hother
        obtain ⟨shown, hshown, hname⟩ := (Option.any_eq_true _ _).mp hany
        have hhides : m.hides key row := by
          simp [hides, revealState, awaitsRow, hsource, hshown, hidle, of_decide_eq_true hname]
        have hshowing : m.wasShowing key row := by
          simp only [revealedTotp] at hshown
          simp [wasShowing, hsource, hshown]
        obtain ⟨copy, reveal, -, hreveal, -⟩ := h.asked hhides 0
        simp [update, toggleReveal, hmode, hrow, hshowing] at hreveal
  · intro hother
    refine ⟨fun name _ codes => pickTotp_eq codes name, ?_, fun hhides now => ?_⟩
    · intro askedAt answeredAt copy reply msg value flag hcopy hmsg hcopied
      exact secrecy_of_activateAction hmode hrow hcopy hmsg hcopied
    · have hmasked := wasShowing_of_hides (pinned_of_reach hreach) hmode hhides (by simpa using hother)
      cases hsource : row.source with
      | totp name => exact askAlike_totp hmode hrow hmasked hsource now
      | field field =>
          have hsecret : field.secret = true := by
            by_contra hplain
            simp [hides, revealState, hsource, hplain] at hhides
          exact askAlike_field hmode hrow hmasked hsource hsecret now

end Reveal

section Examples

attribute [local instance] World.plainText

/-- An item with two one-time codes. -/
def twoCodes : ItemSummary :=
  { World.mailLogin with fields := [], totpFields := ["totp_uri", "work"] }

def listTwoCodes : List (Msg × Int) :=
  [(.dataLoaded { vaults := [], items := [twoCodes] }, 0), (.openActions, 0)]

theorem copy_and_reveal_agree_second : ∃ (m : Model) (row : ActionEntry),
    m.actions[1]? = some row ∧ row.source = .totp "work" ∧ m.RowAgrees twoCodes.key 1 row := by
  have hrun : ∃ m, system.Reach TransitionSystem.anyStep m ∧
      m.view.mode = .actions twoCodes.key 1 ∧
      m.actions[1]?.any fun row => row.source = .totp "work" ∧ ¬ m.otherCodeShown row := by
    refine TransitionSystem.exists_reach_of_run (new .default)
      (listTwoCodes ++ [(.selectNext, 0)]) ⟨_, rfl⟩ ?_
    decide
  obtain ⟨m, hreach, hmode, hany⟩ := hrun
  obtain ⟨row, hrow, hboth⟩ := (Option.any_eq_true _ _).mp hany
  obtain ⟨hsource, hnone⟩ := of_decide_eq_true hboth
  exact ⟨m, row, hrow, hsource, (copy_and_reveal_agree hreach hmode hrow).mpr hnone⟩

/-- A listing puts the other code under the highlight while the first is on screen. -/
theorem copy_and_reveal_differ : ∃ (m : Model) (row : ActionEntry),
    system.Reach TransitionSystem.anyStep m ∧ m.view.mode = .actions twoCodes.key 0 ∧
      m.actions[0]? = some row ∧ m.hides twoCodes.key row ∧ (m.update .toggleReveal 2).2 = [] ∧
      ¬ m.RowAgrees twoCodes.key 0 row := by
  have hrun : ∃ m, system.Reach TransitionSystem.anyStep m ∧
      m.view.mode = .actions twoCodes.key 0 ∧
      m.actions[0]?.any fun row => m.hides twoCodes.key row ∧ (m.update .toggleReveal 2).2 = [] := by
    refine TransitionSystem.exists_reach_of_run (new .default)
      (listTwoCodes ++ [(.toggleReveal, 0),
        (.totpFetched twoCodes.key (.ok (OrderedMap.ofList [("totp_uri", ⟨"123456"⟩)])), 0),
        (.dataLoaded { vaults := [], items := [{ twoCodes with totpFields := ["work", "totp_uri"] }] },
          1)]) ⟨_, rfl⟩ ?_
    decide
  obtain ⟨m, hreach, hmode, hany⟩ := hrun
  obtain ⟨row, hrow, hboth⟩ := (Option.any_eq_true _ _).mp hany
  obtain ⟨hhides, hnothing⟩ := of_decide_eq_true hboth
  refine ⟨m, row, hreach, hmode, hrow, hhides, hnothing, fun h => ?_⟩
  obtain ⟨_, _, -, hreveal, -⟩ := h.asked hhides 2
  simp [hnothing] at hreveal

end Examples

end Model

end CosmicPass
