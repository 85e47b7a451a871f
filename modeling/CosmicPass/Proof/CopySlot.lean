import CosmicPass.Proof.Flights
import CosmicPass.Proof.Parts
import CosmicPass.Proof.Rows

/-!
# The copy awaited

At most one copy is awaited at a time. Starting another cancels the one before, but the answer to a
copy carries only the item it was asked for, so the slot cannot tell an answer of its own from a late
one for the same item. `copies_not_lost` and `copies_paired` say exactly when that goes wrong: when the
answer handled belongs to another fetch of the very item whose copy is awaited.
-/

namespace CosmicPass

/-- The fetch that copies a source. -/
def CopySource.fetch (source : CopySource) (key : ItemKey) (cancel : CancellationToken) : Effect :=
  match source with
  | .field f => .fetchAndCopy key f.name source.isSecret cancel
  | .totp name => .fetchTotpAndCopy key name cancel

/-- What the slot holds while the fetch of a copy is awaited. -/
def Effect.pendingFetch : Effect → Option PendingFetch
  | .fetchAndCopy key _ secret cancel => some { key, cancel, secret }
  | .fetchTotpAndCopy key _ cancel => some { key, cancel, secret := true }
  | _ => none

theorem CopySource.pendingFetch_fetch (source : CopySource) (key : ItemKey)
    (cancel : CancellationToken) :
    (source.fetch key cancel).pendingFetch = some { key, cancel, secret := source.isSecret } := by
  cases source <;> rfl

theorem Effect.part_of_pendingFetch {effect : Effect} {fetch : PendingFetch}
    (h : effect.pendingFetch = some fetch) : effect.part = some .copy := by
  cases effect <;> first | rfl | simp [Effect.pendingFetch] at h

theorem execute_of_pendingFetch {effect : Effect} {fetch : PendingFetch} {reply : Reply} {msg : Msg}
    (hfetch : effect.pendingFetch = some fetch) (h : execute effect reply = some msg) :
    ∃ result, msg = .copyFetched fetch.key result := by
  cases effect <;> simp only [Effect.pendingFetch, reduceCtorEq, Option.some.injEq] at hfetch <;>
    subst hfetch <;> cases reply <;> simp only [execute, reduceCtorEq, Option.some.injEq] at h <;>
    exact ⟨_, h.symm⟩

theorem pendingFetch_of_execute {effect : Effect} {reply : Reply} {key : ItemKey}
    {result : Except PassError SecretString}
    (h : execute effect reply = some (.copyFetched key result)) :
    ∃ fetch, effect.pendingFetch = some fetch ∧ fetch.key = key := by
  cases effect <;> cases reply <;> simp_all [execute, Effect.pendingFetch]
  all_goals rename_i result
  all_goals cases result <;> simp_all

namespace Model

theorem startCopy_spec (m : Model) (key : ItemKey) (source : CopySource) :
    (m.startCopy key source).2 = [source.fetch key m.tokens.next] ∧
      (m.startCopy key source).1.view.pending =
        some { key, cancel := m.tokens.next, secret := source.isSecret } ∧
      (m.startCopy key source).1.tokens =
        (m.tokens.cancel (m.view.pending.map (·.cancel))).advance := by
  cases source <;> simp [startCopy, CopySource.fetch, cancelPending, Tokens.fresh, Tokens.cancel]

section Moves

variable [TextSupport]

/-- What one message does to the copy slot. -/
inductive CopyMove (m : Model) (msg : Msg) (r : Model × List Effect) : Prop
  /-- Nothing, and no copy starts or ends. -/
  | keep (hslot : r.1.view.pending = m.view.pending)
      (heffects : ∀ effect ∈ r.2, effect.part ≠ some .copy)
      (hother : ∀ key result fetch, msg = .copyFetched key result →
        m.view.pending = some fetch → fetch.key ≠ key)
  /-- The copy is given up, its fetch cancelled. -/
  | cancel (hslot : r.1.view.pending = none)
      (hcancelled : ∀ fetch, m.view.pending = some fetch → r.1.tokens.IsCancelled fetch.cancel)
      (heffects : ∀ effect ∈ r.2, effect.part ≠ some .copy)
      (hother : ∀ key result, msg ≠ .copyFetched key result)
  /-- A copy of one of an item's own fields starts. -/
  | start (item : ItemSummary) (source : CopySource) (hmem : item ∈ m.data.items)
      (hoffer : item.Offers source) (h : r = m.startCopy item.key source)
      (hother : ∀ key result, msg ≠ .copyFetched key result)
  /-- An answer for the item whose copy is awaited. -/
  | settle (result : Except PassError SecretString) (now : Int) (fetch : PendingFetch)
      (hmsg : msg = .copyFetched fetch.key result) (hpending : m.view.pending = some fetch)
      (h : r = copySettled { m with view := { m.view with pending := none } } fetch.key
        fetch.secret result now)

variable (m : Model)

theorem CopyMove.untouched {m : Model} {msg : Msg} {r : Model × List Effect}
    (h : Untouched .copy m r) (hother : ∀ key result, msg ≠ .copyFetched key result) :
    CopyMove m msg r :=
  .keep h.same.1 h.effects fun key result _ hmsg => absurd hmsg (hother key result)

theorem hide_copyMove {msg : Msg} (hother : ∀ key result, msg ≠ .copyFetched key result) :
    CopyMove m msg m.hide := by
  refine .cancel rfl ?_ (by simp [hide, Effect.part]) hother
  intro fetch hpending
  simp [hide, hpending, recomputeResults, leaveMode, clearRevealed, dropReveal, cancelReveal,
    cancelPending, Tokens.cancel, Tokens.IsCancelled]

theorem copyWith_copyMove {msg : Msg} (hother : ∀ key result, msg ≠ .copyFetched key result)
    {pick : ItemSummary → Option CopySource}
    (hpick : ∀ item source, pick item = some source → item.Offers source) (missing : String) :
    CopyMove m msg (m.copyWith pick missing) := by
  unfold copyWith
  split
  next => exact .untouched (.quiet (.refl m _)) hother
  next item htarget =>
    split
    next source hsource =>
      exact .start item source (m.mem_of_targetItem htarget) (hpick _ _ hsource) rfl hother
    next => exact .untouched (m.notify_untouched missing rfl) hother

/-- **What a message does to the copy awaited.** -/
theorem update_copyMove (msg : Msg) (now : Int) : CopyMove m msg (m.update msg now) := by
  by_cases htouches : Part.copy ∈ msg.touches
  · cases msg with
    | toggle =>
        rw [update]
        split
        · exact m.hide_copyMove (by simp)
        · exact .untouched (m.show_untouched (by simp [Msg.touches]) now) (by simp)
    | hide => exact m.hide_copyMove (by simp)
    | copyPrimary => exact m.copyWith_copyMove (by simp) (fun _ _ => offers_of_primaryAction) _
    | copyUsername => exact m.copyWith_copyMove (by simp) (fun _ _ => offers_of_usernameAction) _
    | copyTotp => exact m.copyWith_copyMove (by simp) (fun _ _ => offers_of_totpAction) _
    | copyUrl => exact m.copyWith_copyMove (by simp) (fun _ _ => offers_of_urlAction) _
    | activateAction index =>
        simp only [update, activateAction]
        split
        next key selected hmode =>
          split
          next row hrow =>
            obtain ⟨item, htarget, hmem⟩ := m.mem_actions (List.mem_of_getElem? hrow)
            have hkey : item.key = key := by
              simp only [targetItem, hmode] at htarget
              exact (m.item_eq_some htarget).2
            exact .start item row.source (m.mem_of_targetItem htarget)
              (offers_of_mem_allActions hmem) (by rw [hkey]) (by simp)
          next => exact .untouched (.quiet (.refl m _)) (by simp)
        next => exact .untouched (.quiet (.refl m _)) (by simp)
    | copyFetched key result =>
        simp only [update, copyFetched]
        split
        next hnone => exact .keep rfl (by simp) (by simp [hnone])
        next fetch hpending =>
          split
          next hkey =>
            subst hkey
            exact .settle result now fetch rfl hpending rfl
          next hkey =>
            refine .keep rfl (by simp) ?_
            rintro _ _ other ⟨rfl, rfl⟩ hother
            rwa [← Option.some.inj (hpending.symm.trans hother)]
    | copyFinished result =>
        simp only [update, copyFinished, copyConfirmed]
        split
        next =>
          split
          · exact m.hide_copyMove (by simp)
          · exact .untouched (.quiet (.refl m _)) (by simp)
        next => exact .untouched (m.notify_untouched _ rfl) (by simp)
    | escape =>
        simp only [update, escape]
        split
        · refine .cancel rfl ?_ (by simp) (by simp)
          intro fetch hpending
          simp [cancelPending, hpending, Tokens.cancel, Tokens.IsCancelled]
        · split
          next => exact .untouched (.quiet (by simp [Part.Same])) (by simp)
          next => exact m.hide_copyMove (by simp)
          next => exact .untouched (.quiet (m.leaveMode_same (by simp))) (by simp)
    | _ => simp [Msg.touches] at htouches
  · refine .untouched (m.update_untouched msg now htouches) ?_
    rintro key result rfl
    simp [Msg.touches] at htouches

theorem copySettled_spec (key : ItemKey) (secret : Bool) (result : Except PassError SecretString)
    (now : Int) :
    (m.copySettled key secret result now).1.view.pending = m.view.pending ∧
      (∀ effect ∈ (m.copySettled key secret result now).2, effect.pendingFetch = none) ∧
      ∀ value shown, Effect.copy value shown ∈ (m.copySettled key secret result now).2 ↔
        result = .ok value ∧ shown = secret := by
  cases result with
  | ok value =>
      refine ⟨rfl, by simp [copySettled, finishCopy, Effect.pendingFetch], fun other shown => ?_⟩
      simp only [copySettled, finishCopy, List.mem_cons, Effect.copy.injEq, List.not_mem_nil,
        or_false, reduceCtorEq, Except.ok.injEq]
      exact and_congr_left fun _ => eq_comm
  | error error =>
      have huntouched : Untouched .copy m (m.copySettled key secret (.error error) now) :=
        m.copySettled_error_untouched (by simp) key secret error now
      refine ⟨huntouched.same.1, fun effect hmem => ?_, fun value shown => ?_⟩
      · cases hfetch : effect.pendingFetch with
        | none => rfl
        | some fetch =>
            exact absurd (Effect.part_of_pendingFetch hfetch) (huntouched.effects effect hmem)
      · simp only [reduceCtorEq, false_and, iff_false]
        exact fun hmem => huntouched.effects _ hmem rfl

theorem copyFetched_pending (key : ItemKey) (result : Except PassError SecretString) (now : Int) :
    (m.copyFetched key result now).1.view.pending =
      m.view.pending.filter fun fetch => fetch.key ≠ key := by
  unfold copyFetched
  split
  next hnone => simp [hnone]
  next fetch hpending =>
    split
    next hkey => simp [(copySettled_spec _ _ _ _ _).1, hpending, Option.filter_some, hkey]
    next hkey => simp [hpending, Option.filter_some, hkey]

/-- A fetch to copy is asked for only to start the copy of one of an item's own fields. -/
theorem startCopy_of_mem_update {msg : Msg} {now : Int} {effect : Effect} {fetch : PendingFetch}
    (h : effect ∈ (m.update msg now).2) (hfetch : effect.pendingFetch = some fetch) :
    ∃ item ∈ m.data.items, ∃ source, item.Offers source ∧
      m.update msg now = m.startCopy item.key source ∧
      effect = source.fetch item.key m.tokens.next ∧
      fetch = { key := item.key, cancel := m.tokens.next, secret := source.isSecret } := by
  have hcopy := Effect.part_of_pendingFetch hfetch
  cases m.update_copyMove msg now with
  | keep _ heffects _ => exact absurd hcopy (heffects _ h)
  | cancel _ _ heffects _ => exact absurd hcopy (heffects _ h)
  | settle result _ settled _ _ hr =>
      rw [hr] at h
      have hnone := (copySettled_spec _ _ _ _ _).2.1 _ h
      exact absurd (hfetch.symm.trans hnone) (by simp)
  | start item source hmem hoffer hr _ =>
      rw [hr, (m.startCopy_spec item.key source).1, List.mem_singleton] at h
      rw [h, CopySource.pendingFetch_fetch, Option.some.injEq] at hfetch
      exact ⟨item, hmem, source, hoffer, hr, h, hfetch.symm⟩

end Moves

end Model

namespace World

def copyFetch (w : World) (id : Nat) : Option PendingFetch :=
  w.flights[id]?.bind fun flight => flight.effect.pendingFetch

theorem copyFetch_eq_some {w : World} {id : Nat} {fetch : PendingFetch} :
    w.copyFetch id = some fetch ↔
      ∃ flight, w.flights[id]? = some flight ∧ flight.effect.pendingFetch = some fetch :=
  Option.bind_eq_some_iff

/-- The answer to this effect would be taken for the answer to another: a copy of the same item is
awaited, and it is not this one. -/
def copyOverlap (w : World) (id : Nat) : Bool :=
  match w.copyFetch id, w.model.view.pending with
  | some asked, some awaited => awaited.key = asked.key ∧ awaited ≠ asked
  | _, _ => false

theorem copyOverlap_eq_false {w : World} {asked awaited : PendingFetch} {id : Nat}
    (hfetch : w.copyFetch id = some asked) (hpending : w.model.view.pending = some awaited) :
    w.copyOverlap id = false ↔ (awaited.key = asked.key → awaited = asked) := by
  simp [copyOverlap, hfetch, hpending]

/-- No answer arrives that would be taken for the answer to another copy. -/
def separateCopies (w : World) : Event → Bool
  | .deliver id _ => !w.copyOverlap id
  | _ => true

/-- The books of copies: the fetch awaited was asked for and has not been answered, and no two fetches
share a token. -/
structure CopyBooks (w : World) : Prop where
  issued : ∀ id fetch, w.copyFetch id = some fetch → fetch.cancel < w.model.tokens.next
  distinct : ∀ id id' fetch fetch', w.copyFetch id = some fetch → w.copyFetch id' = some fetch' →
    fetch.cancel = fetch'.cancel → id = id'
  awaited : ∀ fetch, w.model.view.pending = some fetch →
    ∃ id, w.copyFetch id = some fetch ∧ ∀ msg, (id, msg) ∉ w.answered

section Runs

variable [TextSupport] {w w' : World} {source : Option Nat} {msg : Msg} {now : Int}

theorem Handled.copyFetch_mono (h : Handled w source msg now w') {id : Nat} {fetch : PendingFetch}
    (hfetch : w.copyFetch id = some fetch) : w'.copyFetch id = some fetch := by
  obtain ⟨flight, hflight, hpending⟩ := copyFetch_eq_some.mp hfetch
  exact copyFetch_eq_some.mpr ⟨flight, h.flights_mono hflight, hpending⟩

theorem Handled.copyFetch_cases (h : Handled w source msg now w') {id : Nat} {fetch : PendingFetch}
    (hfetch : w'.copyFetch id = some fetch) :
    w.copyFetch id = some fetch ∨
      id = w.flights.length ∧ w'.model.view.pending = some fetch ∧
        fetch.cancel = w.model.tokens.next ∧ fetch.cancel < w'.model.tokens.next := by
  obtain ⟨flight, hflight, hpending⟩ := copyFetch_eq_some.mp hfetch
  rcases h.flight_cases hflight with hold | ⟨hge, hnew, -⟩
  · exact Or.inl (copyFetch_eq_some.mpr ⟨flight, hold, hpending⟩)
  obtain ⟨item, -, copied, -, hr, -, rfl⟩ :=
    w.model.startCopy_of_mem_update (List.mem_of_getElem? hnew) hpending
  obtain ⟨heffects, hslot, htokens⟩ := w.model.startCopy_spec item.key copied
  rw [← hr] at heffects hslot htokens
  rw [heffects] at hnew
  have hzero := (List.getElem?_eq_some_iff.mp hnew).1
  simp only [List.length_singleton, Nat.lt_one_iff] at hzero
  refine Or.inr ⟨by omega, ?_, rfl, ?_⟩
  · rw [h.model, hslot]
  · rw [h.model, htokens]
    exact Nat.lt_succ_self _

theorem CopyBooks.handled (hbooks : w.CopyBooks) (hconsistent : w.Consistent)
    (h : Handled w source msg now w') : w'.CopyBooks := by
  have hnext := h.extends_tokens.next
  refine ⟨?_, ?_, ?_⟩
  · intro id fetch hfetch
    rcases h.copyFetch_cases hfetch with hold | ⟨-, -, -, hlt⟩
    · exact (hbooks.issued id fetch hold).trans_le hnext
    · exact hlt
  · intro id id' fetch fetch' hfetch hfetch' heq
    rcases h.copyFetch_cases hfetch with hold | ⟨hid, -, hcancel, -⟩ <;>
      rcases h.copyFetch_cases hfetch' with hold' | ⟨hid', -, hcancel', -⟩
    · exact hbooks.distinct id id' fetch fetch' hold hold' heq
    · have hlt := hbooks.issued id fetch hold
      rw [heq, hcancel'] at hlt
      exact absurd hlt (lt_irrefl _)
    · have hlt := hbooks.issued id' fetch' hold'
      rw [← heq, hcancel] at hlt
      exact absurd hlt (lt_irrefl _)
    · rw [hid, hid']
  · intro fetch hpending
    rw [h.model] at hpending
    have hkept : w.model.view.pending = some fetch →
        (∀ id, source = some id → w.copyFetch id ≠ some fetch) →
        ∃ id, w'.copyFetch id = some fetch ∧ ∀ msg, (id, msg) ∉ w'.answered := by
      intro hslot hsource
      obtain ⟨id, hfetch, hopen⟩ := hbooks.awaited fetch hslot
      refine ⟨id, h.copyFetch_mono hfetch, fun msg' hanswered => ?_⟩
      rcases (h.answered_iff _ _).mp hanswered with ⟨heq, -⟩ | hold
      · exact hsource id heq hfetch
      · exact hopen msg' hold
    have hmove := w.model.update_copyMove msg now
    cases hmove with
    | keep hslot _ hother =>
        rw [hslot] at hpending
        refine hkept hpending fun id hsource hfetch => ?_
        obtain ⟨flight, hflight, hasked⟩ := copyFetch_eq_some.mp hfetch
        obtain ⟨reply, hmsg⟩ := h.executes hsource hflight
        obtain ⟨result, rfl⟩ := execute_of_pendingFetch hasked hmsg
        exact hother _ _ fetch rfl hpending rfl
    | cancel hslot _ _ _ => simp [hslot] at hpending
    | settle _ _ _ _ _ hr =>
        rw [hr, (Model.copySettled_spec _ _ _ _ _).1] at hpending
        simp at hpending
    | start item copied _ _ hr _ =>
        obtain ⟨heffects, hslot, -⟩ := w.model.startCopy_spec item.key copied
        rw [← hr] at heffects hslot
        obtain rfl := Option.some.inj (hslot.symm.trans hpending)
        have heffect : (w.model.update msg now).2[0]? =
            some (copied.fetch item.key w.model.tokens.next) := by simp [heffects]
        have hnew := h.flight_new heffect
        refine ⟨_, copyFetch_eq_some.mpr ⟨_, hnew, copied.pendingFetch_fetch _ _⟩, ?_⟩
        exact ((h.unanswered_iff hconsistent _ _).mpr
          (Or.inr ⟨Nat.le_add_right _ _, by simpa using heffect⟩)).2

variable {guard : World → Event → Prop}

theorem copyBooks_of_reach (h : system.Reach guard w) : w.CopyBooks := by
  refine invariant_of_handled ?_ ?_ ?_ h
  · intro prefs account
    refine ⟨?_, ?_, ?_⟩ <;> simp [World.start, copyFetch, Model.new]
  · rintro w w' hquiet hbooks
    obtain ⟨hissued, hdistinct, hawaited⟩ := hbooks
    refine ⟨?_, ?_, ?_⟩ <;>
      simpa only [copyFetch, hquiet.model, hquiet.flights, hquiet.answered]
  · intro w w' source msg now _ hconsistent hhandled _ _ hbooks
    exact hbooks.handled hconsistent hhandled

/-- Unless answers are mistaken for each other, a copy whose fetch was not cancelled is awaited until
it is answered. -/
def CopiesAwaited (w : World) : Prop :=
  ∀ id fetch, w.copyFetch id = some fetch → (∀ msg, (id, msg) ∉ w.answered) →
    w.model.view.pending = some fetch ∨ w.model.tokens.IsCancelled fetch.cancel

theorem CopiesAwaited.handled (hawaited : w.CopiesAwaited) (hbooks : w.CopyBooks)
    (h : Handled w source msg now w') (hguard : ∀ id, source = some id → w.copyOverlap id = false) :
    w'.CopiesAwaited := by
  intro id fetch hfetch hopen
  rcases h.copyFetch_cases hfetch with hold | ⟨-, hpending, -, -⟩
  swap
  · exact Or.inl hpending
  have hsource : source ≠ some id := fun heq =>
    hopen msg (h.now_answered heq)
  rcases hawaited id fetch hold fun msg' hmem =>
    hopen msg' (h.still_answered hmem) with hslot | hcancelled
  swap
  · exact Or.inr (h.extends_tokens.cancelled hcancelled)
  rw [h.model]
  cases w.model.update_copyMove msg now with
  | keep hkept _ _ => exact Or.inl (hkept.trans hslot)
  | cancel _ hcancelled _ _ => exact Or.inr (hcancelled fetch hslot)
  | start item copied _ _ hr _ =>
      obtain ⟨-, -, htokens⟩ := w.model.startCopy_spec item.key copied
      apply Or.inr
      rw [hr, htokens, hslot]
      simp [Tokens.IsCancelled, Tokens.cancel, Tokens.advance]
  | settle result _ settled hmsg hpending _ =>
      obtain rfl := Option.some.inj (hpending.symm.trans hslot)
      -- The message is an answer, so it has a fetch of its own, which the guard makes this one.
      obtain ⟨other, hother⟩ := h.answers_of_isAnswer (by simp [hmsg, Msg.isAnswer])
      obtain ⟨-, ⟨flight, reply, hflight, hexecute, -⟩, -⟩ := h.answer other hother
      rw [hmsg] at hexecute
      obtain ⟨asked, hasked, hkey⟩ := pendingFetch_of_execute hexecute
      have hcopy := copyFetch_eq_some.mpr ⟨flight, hflight, hasked⟩
      have hsame := (copyOverlap_eq_false hcopy hpending).mp (hguard other hother) hkey.symm
      have hid := hbooks.distinct other id asked settled hcopy hold (by rw [hsame])
      exact absurd (hother.trans (congrArg some hid)) hsource

theorem copiesAwaited_of_reach (h : system.Reach (fun w e => separateCopies w e) w) :
    w.CopiesAwaited := by
  refine invariant_of_handled ?_ ?_ ?_ h
  · intro prefs account
    simp [World.start, CopiesAwaited, copyFetch]
  · intro w w' hquiet hawaited
    simpa only [CopiesAwaited, copyFetch, hquiet.model, hquiet.flights, hquiet.answered]
      using hawaited
  · intro w w' source msg now hreach hconsistent hhandled _ hdeliver hawaited
    refine hawaited.handled (copyBooks_of_reach hreach) hhandled fun id hsource => ?_
    simpa [separateCopies] using hdeliver id hsource

/-- **No copy is lost to an older one, while answers are not mistaken for each other.** In a run in
which no answer arrives while another copy of its item is awaited, the answer to a fetch that is not
the one awaited leaves the awaited one in place, and it does so in exactly the steps that continue such
a run; and a copy whose fetch was not cancelled, so in particular the newest, is made as soon as its
value arrives. -/
theorem copies_not_lost {id : Nat} {asked : PendingFetch}
    (h : system.Reach (fun w e => separateCopies w e) w) (hfetch : w.copyFetch id = some asked)
    (hstep : w.step (.deliver id now) = some w') :
    (w.model.view.pending ≠ some asked →
      (w'.model.view.pending = w.model.view.pending ↔ separateCopies w (.deliver id now))) ∧
    (∀ value, (id, .copyFetched asked.key (.ok value)) ∈ w.resolved →
      ¬ w.model.tokens.IsCancelled asked.cancel → .copy value asked.secret ∈ w.issued w') := by
  have hconsistent := consistent_of_reach h
  obtain ⟨msg, hmem, hhandled⟩ := deliver_handled hconsistent hstep
  have hopen := (hhandled.answer id rfl).2.2
  obtain ⟨flight, hflight, hasked⟩ := copyFetch_eq_some.mp hfetch
  obtain ⟨reply, hexecute⟩ := hhandled.executes rfl hflight
  obtain ⟨result, rfl⟩ := execute_of_pendingFetch hasked hexecute
  refine ⟨fun hother => ?_, fun value hvalue hlive => ?_⟩
  · have hafter : w'.model.view.pending =
        w.model.view.pending.filter fun fetch => fetch.key ≠ asked.key := by
      rw [hhandled.model]
      exact w.model.copyFetched_pending _ _ _
    rw [hafter]
    cases hpending : w.model.view.pending with
    | none => simp [separateCopies, copyOverlap, hpending]
    | some awaited =>
        have hne : awaited ≠ asked := fun heq => hother (heq ▸ hpending)
        simp [Option.filter_eq_some_iff, separateCopies, copyOverlap, hfetch, hpending, hne]
  · have hmsg := hconsistent.once _ _ _ hmem hvalue
    obtain rfl : result = .ok value := by simpa using hmsg
    have hpending := (copiesAwaited_of_reach h id asked hfetch hopen).resolve_right hlive
    rw [hhandled.issued_eq]
    simp [Model.update, Model.copyFetched, hpending, Model.copySettled, Model.finishCopy]

end Runs

section Examples

attribute [local instance] plainText

theorem copies_not_lost_twice : ∃ w w' : World,
    w.copyFetch 5 = some { key := mailLogin.key, cancel := 1, secret := true } ∧
      w.step (.deliver 5 0) = some w' ∧ .copy ⟨"hunter2"⟩ true ∈ w.issued w' := by
  have hrun : ∃ w, system.Reach (fun w e => separateCopies w e) w ∧
      w.copyFetch 5 = some { key := mailLogin.key, cancel := 1, secret := true } ∧
      (5, .copyFetched mailLogin.key (.ok ⟨"hunter2"⟩)) ∈ w.resolved ∧
      ¬ w.model.tokens.IsCancelled 1 ∧ (w.step (.deliver 5 0)).isSome := by
    refine TransitionSystem.exists_reach_of_run (start .default none)
      (listMailLogin ++ [.send .copyPrimary 0, .resolve 2 (.field (.ok ⟨"hunter2"⟩)), .deliver 2 0,
        .send .copyPrimary 0, .resolve 5 (.field (.ok ⟨"hunter2"⟩))]) ⟨_, _, rfl⟩ ?_
    decide
  obtain ⟨w, hreach, hfetch, hmem, hlive, hstep⟩ := hrun
  obtain ⟨w', hnext⟩ := Option.isSome_iff_exists.mp hstep
  exact ⟨w, w', hfetch, hnext, (copies_not_lost hreach hfetch hnext).2 _ hmem hlive⟩

/-- Pressing Enter twice at once: the first fetch is cancelled, its answer empties the slot of the
second, and the password that arrives for the second is never copied. -/
theorem copies_lost : ∃ w : World, system.Reach (fun w e => prompt w e) w ∧
    w.copyFetch 2 = some { key := mailLogin.key, cancel := 0, secret := true } ∧
    w.copyFetch 3 = some { key := mailLogin.key, cancel := 1, secret := true } ∧
    w.answered = [(3, .copyFetched mailLogin.key (.ok ⟨"hunter2"⟩)),
      (2, .copyFetched mailLogin.key (.error .cancelled)),
      (0, .dataLoaded { vaults := [], items := [mailLogin] })] ∧
    ¬ w.model.tokens.IsCancelled 1 ∧
    w.flights.map (·.effect) = [.refresh, .persist,
      .fetchAndCopy mailLogin.key "password" true 0,
      .fetchAndCopy mailLogin.key "password" true 1] := by
  refine TransitionSystem.exists_reach_of_run (start .default none)
    (listMailLogin ++ [.send .copyPrimary 0, .send .copyPrimary 0,
      .resolve 2 (.field (.error .cancelled)), .deliver 2 0,
      .resolve 3 (.field (.ok ⟨"hunter2"⟩)), .deliver 3 0]) ⟨_, _, rfl⟩ ?_
  decide

end Examples

def resolvedToCopy (w : World) (id : Nat) : Bool :=
  w.resolved.any fun done =>
    match done with
    | (other, .copyFetched _ (.ok _)) => other = id
    | _ => false

/-- No value arrives that would be taken for the value of another copy. -/
def pairedCopies (w : World) : Event → Bool
  | .deliver id _ => !(w.copyOverlap id && w.resolvedToCopy id)
  | _ => true

/-- Every value put on the clipboard answers the fetch that was awaited when it was: a fetch for one of
the fields of an item then listed, secret just when that field is. -/
def CopiesPaired (w : World) : Prop :=
  ∀ (n : Nat) (copy : Flight) (value : SecretString) (secret : Bool), w.flights[n]? = some copy →
    copy.effect = .copy value secret → ∃ (id : Nat) (flight : Flight) (item : ItemSummary)
      (source : CopySource) (cancel : CancellationToken), w.flights[id]? = some flight ∧
      flight.effect = CopySource.fetch source item.key cancel ∧
      item ∈ flight.asked.data.items ∧ item.Offers source ∧
      copy.asked.view.pending = some { key := item.key, cancel, secret } ∧
      secret = source.isSecret ∧ (id, .copyFetched item.key (.ok value)) ∈ w.answered

/-- Every copy fetch asks for a field of an item listed when it was asked for. -/
def CopiesOffered (w : World) : Prop :=
  ∀ (id : Nat) (flight : Flight) (fetch : PendingFetch), w.flights[id]? = some flight →
    flight.effect.pendingFetch = some fetch →
      ∃ item ∈ flight.asked.data.items, ∃ source, item.Offers source ∧
        flight.effect = CopySource.fetch source item.key fetch.cancel ∧
        fetch = { key := item.key, cancel := fetch.cancel, secret := source.isSecret }

section Runs

variable [TextSupport] {w w' : World} {source : Option Nat} {msg : Msg} {now : Int}

theorem copiesOffered_of_reach {guard : World → Event → Prop} (h : system.Reach guard w) :
    w.CopiesOffered := by
  refine invariant_of_handled ?_ ?_ ?_ h
  · intro prefs account
    simp [World.start, CopiesOffered]
  · intro w w' hquiet hoffered
    rwa [CopiesOffered, hquiet.flights]
  · intro w w' source msg now _ _ hhandled _ _ hoffered id flight fetch hflight hfetch
    rcases hhandled.flight_cases hflight with hold | ⟨hge, hnew, hasked, -⟩
    · exact hoffered id flight fetch hold hfetch
    rw [hasked]
    obtain ⟨item, hitem, copied, hoffer, -, heffect, rfl⟩ :=
      w.model.startCopy_of_mem_update (List.mem_of_getElem? hnew) hfetch
    exact ⟨item, hitem, copied, hoffer, heffect, rfl⟩

theorem copy_of_mem_update {m : Model} {value : SecretString} {secret : Bool}
    (h : .copy value secret ∈ (m.update msg now).2) :
    ∃ fetch, m.view.pending = some fetch ∧ secret = fetch.secret ∧
      msg = .copyFetched fetch.key (.ok value) := by
  cases m.update_copyMove msg now with
  | keep _ heffects _ => exact absurd rfl (heffects _ h)
  | cancel _ _ heffects _ => exact absurd rfl (heffects _ h)
  | start item copied _ _ hr _ =>
      rw [hr, (m.startCopy_spec item.key copied).1, List.mem_singleton] at h
      cases copied <;> simp [CopySource.fetch] at h
  | settle result now' fetch hmsg hpending hr =>
      rw [hr, (Model.copySettled_spec _ _ _ _ _).2.2] at h
      obtain ⟨rfl, rfl⟩ := h
      exact ⟨fetch, hpending, rfl, hmsg⟩

/-- **Copies are paired with their own fetch, while values are not mistaken for each other.** In a run
in which no value arrives while another copy of its item is awaited, every value put on the clipboard
was fetched for the field whose copy was awaited, and is treated as secret just when that field is. -/
theorem copies_paired (h : system.Reach (fun w e => pairedCopies w e) w) : w.CopiesPaired := by
  refine invariant_of_handled ?_ ?_ ?_ h
  · intro prefs account
    simp [World.start, CopiesPaired]
  · intro w w' hquiet hpaired
    rwa [CopiesPaired, hquiet.flights, hquiet.answered]
  · intro w w' source msg now hreach _ hhandled _ hguard hpaired n copy value secret hcopy heffect
    rcases hhandled.flight_cases hcopy with hold | ⟨hge, hnew, hasked, -⟩
    · obtain ⟨id, flight, item, copied, cancel, hflight, hfetch, hitem, hoffer, hslot, hsecret,
        hanswered⟩ := hpaired n copy value secret hold heffect
      exact ⟨id, flight, item, copied, cancel, hhandled.flights_mono hflight, hfetch, hitem, hoffer,
        hslot, hsecret, hhandled.still_answered hanswered⟩
    obtain ⟨awaited, hpending, rfl, rfl⟩ :=
      copy_of_mem_update (heffect ▸ List.mem_of_getElem? hnew)
    obtain ⟨id, hsource⟩ := hhandled.answers_of_isAnswer rfl
    obtain ⟨hresolved, ⟨flight, reply, hflight, hexecute, -⟩, -⟩ := hhandled.answer id hsource
    obtain ⟨asked, hfetch, hkey⟩ := pendingFetch_of_execute hexecute
    have hoverlap : w.copyOverlap id = false := by
      have hvalue : w.resolvedToCopy id := List.any_eq_true.mpr ⟨_, hresolved, by simp⟩
      simpa [pairedCopies, hvalue] using hguard id hsource
    have hsame := (copyOverlap_eq_false (copyFetch_eq_some.mpr ⟨flight, hflight, hfetch⟩)
      hpending).mp hoverlap hkey.symm
    subst hsame
    obtain ⟨item, hitem, copied, hoffer, hasks, hfields⟩ :=
      copiesOffered_of_reach hreach id flight awaited hflight hfetch
    have hitemKey : awaited.key = item.key := congrArg PendingFetch.key hfields
    have hsecret : awaited.secret = copied.isSecret := congrArg PendingFetch.secret hfields
    refine ⟨id, flight, item, copied, awaited.cancel, hhandled.flights_mono hflight, hasks, hitem,
      hoffer, ?_, hsecret, by rw [← hitemKey]; exact hhandled.now_answered hsource⟩
    rw [hasked, hpending, ← hitemKey]

end Runs

section Examples

attribute [local instance] plainText

theorem copies_paired_twice : ∃ w : World,
    w.flights.map (·.effect) = [.refresh, .persist,
      .fetchAndCopy mailLogin.key "password" true 0, .copy ⟨"hunter2"⟩ true, .persist,
      .fetchAndCopy mailLogin.key "username" false 1, .copy ⟨"me"⟩ false, .persist] ∧
    w.CopiesPaired := by
  have hrun : ∃ w, system.Reach (fun w e => pairedCopies w e) w ∧
      w.flights.map (·.effect) = [.refresh, .persist,
        .fetchAndCopy mailLogin.key "password" true 0, .copy ⟨"hunter2"⟩ true, .persist,
        .fetchAndCopy mailLogin.key "username" false 1, .copy ⟨"me"⟩ false, .persist] := by
    refine TransitionSystem.exists_reach_of_run (start .default none)
      (listMailLogin ++ [.send .copyPrimary 0, .resolve 2 (.field (.ok ⟨"hunter2"⟩)), .deliver 2 0,
        .send .copyUsername 0, .resolve 5 (.field (.ok ⟨"me"⟩)), .deliver 5 0]) ⟨_, _, rfl⟩ ?_
    decide
  obtain ⟨w, hreach, heffects⟩ := hrun
  exact ⟨w, heffects, copies_paired hreach⟩

/-- Asking for the username just as the password arrives: the password is put on the clipboard as the
username, and not cleared from it. -/
theorem copies_mistaken : ∃ w : World, system.Reach (fun w e => prompt w e) w ∧
    w.flights.map (·.effect) = [.refresh, .persist,
      .fetchAndCopy mailLogin.key "password" true 0,
      .fetchAndCopy mailLogin.key "username" false 1, .copy ⟨"hunter2"⟩ false, .persist] ∧
    ¬ w.CopiesPaired := by
  have hrun : ∃ w, system.Reach (fun w e => prompt w e) w ∧
      w.flights.map (·.effect) = [.refresh, .persist,
        .fetchAndCopy mailLogin.key "password" true 0,
        .fetchAndCopy mailLogin.key "username" false 1, .copy ⟨"hunter2"⟩ false, .persist] ∧
      w.flights[4]?.map (fun copy => copy.asked.view.pending) =
        some (some { key := mailLogin.key, cancel := 1, secret := false }) ∧
      w.answered = [(2, .copyFetched mailLogin.key (.ok ⟨"hunter2"⟩)),
        (0, .dataLoaded { vaults := [], items := [mailLogin] })] := by
    refine TransitionSystem.exists_reach_of_run (start .default none)
      (listMailLogin ++ [.send .copyPrimary 0, .resolve 2 (.field (.ok ⟨"hunter2"⟩)),
        .send .copyUsername 0, .deliver 2 0]) ⟨_, _, rfl⟩ ?_
    decide
  obtain ⟨w, hreach, heffects, hslot, hanswered⟩ := hrun
  refine ⟨w, hreach, heffects, fun hpaired => ?_⟩
  obtain ⟨copy, hcopy, hasked⟩ := Option.map_eq_some_iff.mp hslot
  have heffect : ∀ {id : Nat} {flight : Flight}, w.flights[id]? = some flight →
      (w.flights.map (·.effect))[id]? = some flight.effect := by
    intro id flight hflight
    rw [List.getElem?_map, hflight]
    rfl
  have hcopied : copy.effect = .copy ⟨"hunter2"⟩ false := by
    have := heffect hcopy
    rw [heffects] at this
    simpa using this.symm
  obtain ⟨id, flight, item, source, cancel, hflight, hfetch, -, -, hpending, -, hmem⟩ :=
    hpaired 4 copy _ _ hcopy hcopied
  -- The value answered effect 2, whose token is 0; the copy awaited was the one with token 1.
  obtain rfl : id = 2 := by
    simp only [hanswered, List.mem_cons, Prod.mk.injEq, reduceCtorEq, and_false,
      List.not_mem_nil, or_false] at hmem
    exact hmem.1
  have hpassword := heffect hflight
  rw [heffects, hfetch] at hpassword
  obtain ⟨-, rfl, -⟩ := PendingFetch.mk.inj (Option.some.inj (hasked.symm.trans hpending))
  cases source <;> simp [CopySource.fetch] at hpassword

end Examples

end World

end CosmicPass
