import CosmicPass.Proof.RevealSlot

/-!
# What is revealed was fetched for the row it stands on

A revealed field is pinned to the fetch that was issued for it, found again by its generation; a shown
code comes from an answer for the item in the list. Both are invariants of every run in which the
field list is only entered from the list of items, as the key map does.
-/

namespace CosmicPass

def Effect.revealGeneration : Effect → Option Nat
  | .fetchReveal _ _ _ generation _ => some generation
  | _ => none

theorem fetchReveal_of_execute {effect : Effect} {reply : Reply} {key : ItemKey}
    {index generation : Nat} {result : Except PassError SecretString}
    (h : execute effect reply = some (.revealFetched key index generation result)) :
    reply = .field result ∧ ∃ name cancel, effect = .fetchReveal key name index generation cancel := by
  cases effect <;> cases reply <;> simp_all [execute]
  all_goals rename_i result
  all_goals cases result <;> simp_all

theorem fetchTotp_of_execute {effect : Effect} {reply : Reply} {key : ItemKey}
    {result : Except PassError Codes} (h : execute effect reply = some (.totpFetched key result)) :
    ∃ cancel, effect = .fetchTotp key cancel := by
  cases effect <;> cases reply <;> simp_all [execute]
  all_goals rename_i result
  all_goals cases result <;> simp_all

theorem execute_fetchReveal {key : ItemKey} {name : String} {index generation : Nat}
    {cancel : CancellationToken} {reply : Reply} {msg : Msg}
    (h : execute (.fetchReveal key name index generation cancel) reply = some msg) :
    ∃ result, msg = .revealFetched key index generation result := by
  cases reply <;> simp only [execute, reduceCtorEq, Option.some.injEq] at h
  exact ⟨_, h.symm⟩

theorem execute_fetchTotp {key : ItemKey} {cancel : CancellationToken} {reply : Reply} {msg : Msg}
    (h : execute (.fetchTotp key cancel) reply = some msg) :
    ∃ result, msg = .totpFetched key result := by
  cases reply <;> simp only [execute, reduceCtorEq, Option.some.injEq] at h
  exact ⟨_, h.symm⟩

/-- Neither where the list is entered nor where the preferences are leafed through was it open. -/
theorem Model.mode_ne_actions_of_turn {m : Model} {msg : Msg} {after : Mode}
    (hlist : msg = .openActions → m.view.mode = .list)
    (hmode : msg = .openActions ∨ ∃ a b, m.view.mode = .preferences a ∧ after = .preferences b)
    (key : ItemKey) (selected : Nat) : m.view.mode ≠ .actions key selected := by
  intro hactions
  cases hmode with
  | inl hopens => simp [hlist hopens] at hactions
  | inr hleafed =>
      obtain ⟨a, b, hbefore, -⟩ := hleafed
      simp [hbefore] at hactions

namespace World

/-- The effect fetches the field the target is pinned to, as it then stood. -/
def AsksField (w : World) (id : Nat) (target : RevealTarget) (cancel : CancellationToken) : Prop :=
  ∃ flight item, w.flights[id]? = some flight ∧ flight.effect = .fetchReveal target.key
    target.field.name target.index target.generation cancel ∧
    flight.asked.item target.key = some item ∧ target.stillDescribes item

/-- The effect fetches the codes of the item. -/
def AsksTotp (w : World) (id : Nat) (key : ItemKey) (cancel : CancellationToken) : Prop :=
  ∃ flight, w.flights[id]? = some flight ∧ flight.effect = .fetchTotp key cancel

def generationOf (w : World) (id : Nat) : Option Nat :=
  w.flights[id]?.bind fun flight => flight.effect.revealGeneration

/-- The field list is only entered from the list of items. -/
def fromList (w : World) : Event → Bool
  | .send .openActions _ => w.model.view.mode = .list
  | _ => true

/-- What the rows of the field list show, and where it came from. -/
structure RevealBooks (w : World) : Prop where
  numbered : ∀ id generation, w.generationOf id = some generation →
    generation ≤ w.model.nextReveal
  distinct : ∀ id id' generation, w.generationOf id = some generation →
    w.generationOf id' = some generation → id = id'
  idle : w.model.view.revealCancel.isSome → ∃ target, w.model.view.revealed = .field target none
  field : ∀ target value, w.model.view.revealed = .field target value →
    (∃ selected, w.model.view.mode = .actions target.key selected) ∧
    ∃ id cancel, w.AsksField id target cancel ∧
      (value = none → w.model.view.revealCancel = some cancel ∧ ∀ msg, (id, msg) ∉ w.answered) ∧
      ∀ v, value = some v → w.model.view.revealCancel = none ∧
        (id, .revealFetched target.key target.index target.generation (.ok v)) ∈ w.answered
  totp : ∀ code fetching, w.model.view.revealed = .totp code fetching →
    ∃ key selected, w.model.view.mode = .actions key selected ∧
      (fetching = true → ∃ id cancel, w.AsksTotp id key cancel ∧ ∀ msg, (id, msg) ∉ w.answered) ∧
      ∀ shown, code = some shown → ∃ id cancel codes, w.AsksTotp id key cancel ∧
        (id, .totpFetched key (.ok codes)) ∈ w.answered ∧
        Model.shownCode codes shown.field = some shown.code

theorem AsksField.generationOf_eq {w : World} {id : Nat} {target : RevealTarget}
    {cancel : CancellationToken} (h : w.AsksField id target cancel) :
    w.generationOf id = some target.generation := by
  obtain ⟨flight, item, hflight, heffect, -⟩ := h
  simp [generationOf, hflight, heffect, Effect.revealGeneration]

theorem RevealBooks.revealed_eq_nothing {w : World} (hbooks : w.RevealBooks)
    (hmode : ∀ key selected, w.model.view.mode ≠ .actions key selected) :
    w.model.view.revealed = .nothing := by
  cases hrevealed : w.model.view.revealed with
  | nothing => rfl
  | field target value =>
      obtain ⟨⟨selected, hactions⟩, -⟩ := hbooks.field target value hrevealed
      exact absurd hactions (hmode _ _)
  | totp code fetching =>
      obtain ⟨key, selected, hactions, -⟩ := hbooks.totp code fetching hrevealed
      exact absurd hactions (hmode _ _)

theorem RevealBooks.revealCancel_eq_none {w : World} (hbooks : w.RevealBooks)
    (h : ∀ target, w.model.view.revealed ≠ .field target none) :
    w.model.view.revealCancel = none := by
  cases hreveal : w.model.view.revealCancel with
  | none => rfl
  | some token =>
      obtain ⟨target, htarget⟩ := hbooks.idle (by simp [hreveal])
      exact absurd htarget (h target)

section Runs

variable [TextSupport] {w w' : World} {source : Option Nat} {msg : Msg} {now : Int}

/-- Effects for the field list are asked for one at a time, and the list then waits for the answer. -/
theorem reveal_of_mem_update {m : Model} {effect : Effect} (h : effect ∈ (m.update msg now).2)
    (hpart : effect.part = some .reveal) :
    (m.update msg now).2 = [effect] ∧
      ((∃ target cancel, effect = .fetchReveal target.key target.field.name target.index
            target.generation cancel ∧ target.generation = m.nextReveal + 1 ∧
          (m.update msg now).1.view.revealed = .field target none ∧
          (m.update msg now).1.view.revealCancel = some cancel ∧
          (m.update msg now).1.nextReveal = target.generation ∧
          (m.item target.key).any target.stillDescribes) ∨
        ∃ key code cancel, effect = .fetchTotp key cancel ∧
          (m.update msg now).1.view.revealed = .totp code true ∧
          (m.update msg now).1.view.revealTotpCancel = some cancel) := by
  cases m.update_revealMove msg now with
  | keep _ heffects _ _ => exact absurd hpart (heffects _ h)
  | turn _ _ _ _ _ heffects _ => exact absurd hpart (heffects _ h)
  | clear _ heffects => exact absurd hpart (heffects _ h)
  | drop _ _ _ _ _ _ _ _ heffects => exact absurd hpart (heffects _ h)
  | fieldAnswered _ _ _ _ _ _ _ _ _ heffects => exact absurd hpart (heffects _ h)
  | totpAnswered _ _ _ _ _ _ _ _ heffects => exact absurd hpart (heffects _ h)
  | askField target cancel _ _ _ hitem hdescribes hgeneration _ hafter heffects _ =>
      rw [heffects, List.mem_singleton] at h
      subst h
      exact ⟨heffects, Or.inl ⟨target, cancel, rfl, hgeneration, hafter.2.1, hafter.2.2.1,
        hafter.2.2.2.2, by rw [hitem]; exact hdescribes⟩⟩
  | askTotp key _ code cancel _ _ hafter heffects _ =>
      rw [heffects, List.mem_singleton] at h
      subst h
      exact ⟨heffects, Or.inr ⟨key, code, cancel, rfl, hafter.2.1, hafter.2.2.1⟩⟩

theorem field_of_mem_update {m : Model} {key : ItemKey} {name : String} {index generation : Nat}
    {cancel : CancellationToken}
    (h : .fetchReveal key name index generation cancel ∈ (m.update msg now).2) :
    (m.update msg now).1.view.revealCancel = some cancel ∧ ∃ target,
      (m.update msg now).1.view.revealed = .field target none ∧ target.generation = generation := by
  obtain ⟨-, ⟨target, cancel', heffect, -, hrevealed, hcancel, -⟩ | ⟨_, _, _, heffect, -⟩⟩ :=
    reveal_of_mem_update h rfl
  · obtain ⟨-, -, -, rfl, rfl⟩ := Effect.fetchReveal.inj heffect
    exact ⟨hcancel, target, hrevealed, rfl⟩
  · simp at heffect

theorem code_of_mem_update {m : Model} {key : ItemKey} {cancel : CancellationToken}
    (h : .fetchTotp key cancel ∈ (m.update msg now).2) :
    (∃ code, (m.update msg now).1.view.revealed = .totp code true) ∧
      (m.update msg now).1.view.revealTotpCancel = some cancel := by
  obtain ⟨-, ⟨_, _, heffect, -⟩ | ⟨_, code, cancel', heffect, hrevealed, hcancel⟩⟩ :=
    reveal_of_mem_update h rfl
  · simp at heffect
  · obtain ⟨-, rfl⟩ := Effect.fetchTotp.inj heffect
    exact ⟨⟨code, hrevealed⟩, hcancel⟩

theorem Handled.asksField (h : Handled w source msg now w') {id : Nat} {target : RevealTarget}
    {cancel : CancellationToken} (hasks : w.AsksField id target cancel) :
    w'.AsksField id target cancel := by
  obtain ⟨flight, item, hflight, hrest⟩ := hasks
  exact ⟨flight, item, h.flights_mono hflight, hrest⟩

theorem Handled.asksTotp (h : Handled w source msg now w') {id : Nat} {key : ItemKey}
    {cancel : CancellationToken} (hasks : w.AsksTotp id key cancel) : w'.AsksTotp id key cancel := by
  obtain ⟨flight, hflight, hrest⟩ := hasks
  exact ⟨flight, h.flights_mono hflight, hrest⟩

theorem Handled.still_open (h : Handled w source msg now w') {id : Nat} (hsource : source ≠ some id)
    (hopen : ∀ msg, (id, msg) ∉ w.answered) : ∀ msg, (id, msg) ∉ w'.answered := by
  intro msg' hanswered
  rcases (h.answered_iff _ _).mp hanswered with ⟨heq, -⟩ | hold
  · exact hsource heq
  · exact hopen msg' hold

theorem Handled.new_open (h : Handled w source msg now w') (hconsistent : w.Consistent) :
    ∀ msg, (w.flights.length, msg) ∉ w'.answered := by
  intro msg' hanswered
  rcases (h.answered_iff _ _).mp hanswered with ⟨heq, -⟩ | hold
  · have hlt := (h.answer _ heq).2.1.lt
    exact absurd hlt (lt_irrefl _)
  · have hlt := (hconsistent.resolved _ _ (hconsistent.answered _ _ hold)).lt
    exact absurd hlt (lt_irrefl _)

theorem nextReveal_le (m : Model) (msg : Msg) (now : Int) :
    m.nextReveal ≤ (m.update msg now).1.nextReveal := by
  cases m.update_revealMove msg now with
  | keep hsame _ _ _ => exact hsame.2.2.2.2.ge
  | turn _ _ _ hnext _ _ _ => exact hnext.ge
  | clear h _ => exact h.next
  | drop _ _ _ _ _ _ _ hnext _ => exact hnext.ge
  | askField target _ _ _ _ _ _ hgeneration _ hafter _ _ =>
      rw [hafter.2.2.2.2, hgeneration]
      exact Nat.le_succ _
  | askTotp _ _ _ _ _ _ hafter _ _ => exact hafter.2.2.2.ge
  | fieldAnswered _ _ _ _ _ _ _ _ hafter _ => exact hafter.2.2.2.2.ge
  | totpAnswered _ _ _ _ _ _ _ hafter _ => exact hafter.2.2.2.2.ge

theorem Handled.generation_cases (h : Handled w source msg now w') {id generation : Nat}
    (hid : w'.generationOf id = some generation) :
    w.generationOf id = some generation ∨ id = w.flights.length ∧
      generation = w.model.nextReveal + 1 ∧ w'.model.nextReveal = generation := by
  obtain ⟨flight, hflight, hgeneration⟩ := Option.bind_eq_some_iff.mp hid
  rcases h.flight_cases hflight with hold | ⟨hge, hnew, -⟩
  · exact Or.inl (Option.bind_eq_some_iff.mpr ⟨flight, hold, hgeneration⟩)
  have hpart : flight.effect.part = some .reveal := by
    cases heffect : flight.effect <;>
      simp [heffect, Effect.revealGeneration, Effect.part] at hgeneration ⊢
  obtain ⟨heffects, ⟨target, cancel, heffect, hnumber, -, -, hnext, -⟩ | ⟨_, _, _, heffect, -⟩⟩ :=
    reveal_of_mem_update (List.mem_of_getElem? hnew) hpart
  · rw [heffects] at hnew
    have hzero := (List.getElem?_eq_some_iff.mp hnew).1
    simp only [List.length_singleton, Nat.lt_one_iff] at hzero
    rw [heffect, Effect.revealGeneration, Option.some.injEq] at hgeneration
    exact Or.inr ⟨by omega, by rw [← hgeneration, hnumber], by rw [h.model, hnext, hgeneration]⟩
  · simp [heffect, Effect.revealGeneration] at hgeneration

theorem RevealBooks.numbers (hbooks : w.RevealBooks) (h : Handled w source msg now w') :
    (∀ id generation, w'.generationOf id = some generation → generation ≤ w'.model.nextReveal) ∧
      ∀ id id' generation, w'.generationOf id = some generation →
        w'.generationOf id' = some generation → id = id' := by
  have hnext : w.model.nextReveal ≤ w'.model.nextReveal := by
    rw [h.model]
    exact nextReveal_le _ _ _
  refine ⟨?_, ?_⟩
  · intro id generation hid
    rcases h.generation_cases hid with hold | ⟨-, -, hnew⟩
    · exact (hbooks.numbered id generation hold).trans hnext
    · exact hnew.ge
  · intro id id' generation hid hid'
    rcases h.generation_cases hid with hold | ⟨hlength, hnew, -⟩ <;>
      rcases h.generation_cases hid' with hold' | ⟨hlength', hnew', -⟩
    · exact hbooks.distinct id id' generation hold hold'
    · have hle := hbooks.numbered id generation hold
      omega
    · have hle := hbooks.numbered id' generation hold'
      omega
    · rw [hlength, hlength']

theorem RevealBooks.of_nothing (hbooks : w.RevealBooks) (h : Handled w source msg now w')
    (hrevealed : w'.model.view.revealed = .nothing) (hreveal : w'.model.view.revealCancel = none) :
    w'.RevealBooks := by
  obtain ⟨hnumbered, hdistinct⟩ := hbooks.numbers h
  refine ⟨hnumbered, hdistinct, ?_, ?_, ?_⟩
  · simp [hreveal]
  · simp [hrevealed]
  · simp [hrevealed]

theorem RevealBooks.keep (hbooks : w.RevealBooks) (h : Handled w source msg now w')
    (hmode : w'.model.view.mode = w.model.view.mode)
    (hrevealed : w'.model.view.revealed = w.model.view.revealed)
    (hreveal : w'.model.view.revealCancel = w.model.view.revealCancel)
    (hfield : ∀ key index generation result, msg = .revealFetched key index generation result →
      w.model.awaitsReveal key index generation = false)
    (htotp : ∀ key result, msg = .totpFetched key result → w.model.awaitsTotp key = false) :
    w'.RevealBooks := by
  obtain ⟨hnumbered, hdistinct⟩ := hbooks.numbers h
  refine ⟨hnumbered, hdistinct, ?_, ?_, ?_⟩
  · rw [hrevealed, hreveal]
    exact hbooks.idle
  · intro target value hshown
    rw [hrevealed] at hshown
    rw [hmode, hreveal]
    obtain ⟨hactions, id, cancel, hasks, hwaiting, hvalue⟩ := hbooks.field target value hshown
    refine ⟨hactions, id, cancel, h.asksField hasks, ?_, ?_⟩
    · intro hnone
      obtain ⟨hcancel, hopen⟩ := hwaiting hnone
      refine ⟨hcancel, h.still_open (fun hsource => ?_) hopen⟩
      -- The fetch's own answer would have been awaited.
      obtain ⟨flight, _, hflight, heffect, -⟩ := hasks
      obtain ⟨reply, hexecute⟩ := h.executes hsource hflight
      rw [heffect] at hexecute
      obtain ⟨result, hmsg⟩ := execute_fetchReveal hexecute
      have hawaits : w.model.awaitsReveal target.key target.index target.generation :=
        Model.awaitsReveal_iff.mpr ⟨hactions, target, value, hshown, rfl, rfl⟩
      simp [hfield _ _ _ _ hmsg] at hawaits
    · intro v hv
      obtain ⟨hcancel, hmem⟩ := hvalue v hv
      exact ⟨hcancel, h.still_answered hmem⟩
  · intro code fetching hshown
    rw [hrevealed] at hshown
    rw [hmode]
    obtain ⟨key, selected, hactions, hwaiting, hcode⟩ := hbooks.totp code fetching hshown
    refine ⟨key, selected, hactions, ?_, ?_⟩
    · intro hfetching
      obtain ⟨id, cancel, hasks, hopen⟩ := hwaiting hfetching
      refine ⟨id, cancel, h.asksTotp hasks, h.still_open (fun hsource => ?_) hopen⟩
      obtain ⟨flight, hflight, heffect⟩ := hasks
      obtain ⟨reply, hexecute⟩ := h.executes hsource hflight
      rw [heffect] at hexecute
      obtain ⟨result, hmsg⟩ := execute_fetchTotp hexecute
      have hawaits : w.model.awaitsTotp key :=
        Model.awaitsTotp_iff.mpr ⟨⟨selected, hactions⟩, code, hfetching ▸ hshown⟩
      simp [htotp _ _ hmsg] at hawaits
    · intro shown hsome
      obtain ⟨id, cancel, codes, hasks, hmem, hfound⟩ := hcode shown hsome
      exact ⟨id, cancel, codes, h.asksTotp hasks, h.still_answered hmem, hfound⟩

theorem RevealBooks.fieldAnswered (hbooks : w.RevealBooks) (howned : w.HeldOwned)
    (h : Handled w source msg now w') {key : ItemKey} {target : RevealTarget}
    {value : Option SecretString} {result : Except PassError SecretString}
    (hmsg : msg = .revealFetched key target.index target.generation result)
    (hbefore : w.model.view.revealed = .field target value)
    (hmode : w'.model.view.mode = w.model.view.mode)
    (hrevealed : w'.model.view.revealed = Model.answeredField target value result)
    (hreveal : w'.model.view.revealCancel = none) : w'.RevealBooks := by
  obtain ⟨hnumbered, hdistinct⟩ := hbooks.numbers h
  obtain ⟨hactions, id, cancel, hasks, hwaiting, hvalue⟩ := hbooks.field target value hbefore
  obtain ⟨answering, hsource⟩ := h.answers_of_isAnswer (by rw [hmsg]; rfl)
  obtain ⟨-, ⟨flight, reply, hflight, hexecute, hcancelled⟩, hopen⟩ := h.answer answering hsource
  rw [hmsg] at hexecute
  obtain ⟨rfl, name, token, heffect⟩ := fetchReveal_of_execute hexecute
  -- The generation leads back to the fetch the target is pinned to.
  have hid : answering = id := by
    refine hbooks.distinct answering id target.generation ?_ hasks.generationOf_eq
    simp [generationOf, hflight, heffect, Effect.revealGeneration]
  subst hid
  obtain ⟨flight', item, hflight', heffect', hrest⟩ := hasks
  obtain rfl := Option.some.inj (hflight.symm.trans hflight')
  obtain ⟨rfl, rfl, -, -, rfl⟩ := Effect.fetchReveal.inj (heffect.symm.trans heffect')
  have hnone : value = none := by
    cases value with
    | none => rfl
    | some v => exact absurd (hvalue v rfl).2 (hopen _)
  obtain ⟨hcancel, -⟩ := hwaiting hnone
  cases result with
  | ok v =>
      refine ⟨hnumbered, hdistinct, by simp [hreveal], ?_, by simp [hrevealed, Model.answeredField]⟩
      intro target' value' hshown
      obtain ⟨rfl, rfl⟩ := Revealed.field.inj (hrevealed.symm.trans hshown)
      refine ⟨hmode ▸ hactions, answering, token, h.asksField ⟨flight, item, hflight, heffect, hrest⟩,
        by simp, ?_⟩
      rintro _ ⟨⟩
      exact ⟨hreveal, hmsg ▸ h.now_answered hsource⟩
  | error error =>
      have herror : error ≠ .cancelled := by
        rintro rfl
        have hspent := hcancelled (by simp [Reply.isCancelled])
        have hlive := (howned.live token (by simp [Model.held, Held.list, hcancel])).2
        exact hlive (by simpa [fetchCancelled, heffect, Effect.token, Model.held] using hspent)
      refine hbooks.of_nothing h ?_ hreveal
      rw [hrevealed]
      cases error <;> first | rfl | exact absurd rfl herror

theorem RevealBooks.totpAnswered (hbooks : w.RevealBooks) (h : Handled w source msg now w')
    {key : ItemKey} {selected : Nat} {code : Option TotpDisplay} {result : Except PassError Codes}
    (hmsg : msg = .totpFetched key result) (hactions : w.model.view.mode = .actions key selected)
    (hbefore : w.model.view.revealed = .totp code true)
    (hmode : w'.model.view.mode = w.model.view.mode)
    (hrevealed : w'.model.view.revealed =
      .totp (w.model.answeredTotp code now result) false)
    (hreveal : w'.model.view.revealCancel = w.model.view.revealCancel) : w'.RevealBooks := by
  obtain ⟨hnumbered, hdistinct⟩ := hbooks.numbers h
  refine ⟨hnumbered, hdistinct, ?_, by simp [hrevealed], ?_⟩
  · rw [hreveal, hbooks.revealCancel_eq_none (by simp [hbefore])]
    simp
  intro code' fetching hshown
  obtain ⟨rfl, rfl⟩ := Revealed.totp.inj (hrevealed.symm.trans hshown)
  refine ⟨key, selected, hmode.trans hactions, by simp, fun shown hsome => ?_⟩
  cases result with
  | error error =>
      obtain ⟨key', selected', hactions', -, hcode⟩ := hbooks.totp code true hbefore
      obtain ⟨rfl, -⟩ := Mode.actions.inj (hactions.symm.trans hactions')
      obtain ⟨id, cancel, codes, hasks, hmem, hfound⟩ := hcode shown hsome
      exact ⟨id, cancel, codes, h.asksTotp hasks, h.still_answered hmem, hfound⟩
  | ok codes =>
      obtain ⟨id, hsource⟩ := h.answers_of_isAnswer (by rw [hmsg]; rfl)
      obtain ⟨-, ⟨flight, reply, hflight, hexecute, -⟩, -⟩ := h.answer id hsource
      rw [hmsg] at hexecute
      obtain ⟨cancel, heffect⟩ := fetchTotp_of_execute hexecute
      obtain ⟨field, -, hshown⟩ := Option.bind_eq_some_iff.mp hsome
      obtain ⟨found, hfound, rfl⟩ := Option.map_eq_some_iff.mp hshown
      exact ⟨id, cancel, codes, h.asksTotp ⟨flight, hflight, heffect⟩,
        hmsg ▸ h.now_answered hsource, hfound⟩

/-- **The books survive every message.** -/
theorem RevealBooks.handled (hbooks : w.RevealBooks) (hconsistent : w.Consistent)
    (howned : w.HeldOwned) (h : Handled w source msg now w')
    (hlist : msg = .openActions → w.model.view.mode = .list) : w'.RevealBooks := by
  cases w.model.update_revealMove msg now with
  | keep hsame heffects hfield htotp =>
      obtain ⟨hmode, hrevealed, hreveal, -, -⟩ := hsame
      rw [← h.model] at hmode hrevealed hreveal
      exact hbooks.keep h hmode hrevealed hreveal hfield htotp
  | turn hrevealed hreveal _ _ hmode _ _ =>
      have hnothing := hbooks.revealed_eq_nothing (Model.mode_ne_actions_of_turn hlist hmode)
      refine hbooks.of_nothing h ?_ ?_
      · rw [h.model, hrevealed, hnothing]
      · rw [h.model, hreveal]
        exact hbooks.revealCancel_eq_none (by simp [hnothing])
  | clear hcleared _ =>
      exact hbooks.of_nothing h (by rw [h.model, hcleared.revealed]) (by rw [h.model, hcleared.reveal])
  | drop target value _ hrevealed hreveal _ _ _ _ =>
      exact hbooks.of_nothing h (by rw [h.model, hrevealed]) (by rw [h.model, hreveal])
  | askField target cancel selected item hmode hitem hdescribes _ _ hafter heffects _ =>
      obtain ⟨hnumbered, hdistinct⟩ := hbooks.numbers h
      rw [← h.model] at hafter
      obtain ⟨hmode', hrevealed, hreveal, -, -⟩ := hafter
      have hnew := h.flight_new (k := 0) (by rw [heffects]; rfl)
      refine ⟨hnumbered, hdistinct, fun _ => ⟨target, hrevealed⟩, ?_, by simp [hrevealed]⟩
      intro target' value hshown
      obtain ⟨rfl, rfl⟩ := Revealed.field.inj (hrevealed.symm.trans hshown)
      refine ⟨⟨selected, hmode'.trans hmode⟩, w.flights.length, cancel,
        ⟨_, item, hnew, rfl, hitem, hdescribes⟩, fun _ => ⟨hreveal, h.new_open hconsistent⟩, by simp⟩
  | askTotp key selected code cancel hmode hbefore hafter heffects _ =>
      obtain ⟨hnumbered, hdistinct⟩ := hbooks.numbers h
      have hnew := h.flight_new (k := 0) (by rw [heffects]; rfl)
      rw [← h.model] at hafter hbefore
      obtain ⟨hmode', hrevealed, -, -⟩ := hafter
      refine ⟨hnumbered, hdistinct, ?_, by simp [hrevealed], ?_⟩
      · rcases hbefore with ⟨hbefore, -, hreveal, -⟩ | ⟨-, hreveal, -, -⟩
        · rw [hreveal, hbooks.revealCancel_eq_none (by simp [hbefore])]
          simp
        · simp [hreveal]
      · intro code' fetching hshown
        obtain ⟨rfl, rfl⟩ := Revealed.totp.inj (hrevealed.symm.trans hshown)
        refine ⟨key, selected, hmode'.trans hmode,
          fun _ => ⟨_, cancel, ⟨_, hnew, rfl⟩, h.new_open hconsistent⟩, fun shown hsome => ?_⟩
        rcases hbefore with ⟨hbefore, -, -, -⟩ | ⟨hnone, -⟩
        · obtain ⟨key', selected', hactions, -, hcode⟩ := hbooks.totp code false hbefore
          obtain ⟨rfl, -⟩ := Mode.actions.inj (hmode.symm.trans hactions)
          obtain ⟨id, cancel', codes, hasks, hmem, hfound⟩ := hcode shown hsome
          exact ⟨id, cancel', codes, h.asksTotp hasks, h.still_answered hmem, hfound⟩
        · simp [hnone] at hsome
  | fieldAnswered key target value selected result hmsg hmode hbefore hafter _ =>
      rw [← h.model] at hafter
      obtain ⟨hmode', hrevealed, hreveal, -, -⟩ := hafter
      exact hbooks.fieldAnswered howned h hmsg hbefore hmode' hrevealed hreveal
  | totpAnswered key selected code result hmsg hmode hbefore hafter _ =>
      rw [← h.model] at hafter
      obtain ⟨hmode', hrevealed, hreveal, -, -⟩ := hafter
      exact hbooks.totpAnswered h hmsg hmode hbefore hmode' hrevealed hreveal

theorem revealBooks_of_reach {guard : World → Event → Prop} (hguard : ∀ w e, guard w e → fromList w e)
    (h : system.Reach guard w) : w.RevealBooks := by
  refine invariant_of_handled ?_ ?_ ?_ h
  · intro prefs account
    refine ⟨?_, ?_, ?_, ?_, ?_⟩ <;> simp [World.start, generationOf, Model.new]
  · rintro w w' hquiet ⟨hnumbered, hdistinct, hidle, hfield, htotp⟩
    refine ⟨?_, ?_, ?_, ?_, ?_⟩ <;>
      simpa only [generationOf, AsksField, AsksTotp, hquiet.model, hquiet.flights, hquiet.answered]
  · intro w w' source msg now hreach hconsistent hhandled hsend _ hbooks
    refine hbooks.handled hconsistent (owned_of_reach hreach) hhandled ?_
    rintro rfl
    simpa [fromList] using hguard _ _ (hsend (hhandled.source_eq_none rfl))

end Runs

end World

end CosmicPass
