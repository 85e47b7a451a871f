import CosmicPass.Clipboard

/-!
# The newest copy owns the job

A copy takes the current job when it starts, and stores its own once its helper is ready. A job stored
in between is never cancelled: it is overwritten, or it overwrites the newer one. The number of jobs
that are not cancelled never goes down, so one overlap is enough, and without any the newest copy owns
the job and the selection.
-/

namespace CosmicPass

namespace CopyCall

variable {call next : CopyCall} {e : CopyEvent}

/-- Is done: has returned, or was dropped. -/
def isOver (call : CopyCall) : Bool :=
  match call.phase with
  | .returned _ | .dropped => true
  | _ => false

/-- The helper and the token agree with how far the copy is. -/
def Fits (call : CopyCall) : Prop :=
  match call.phase with
  | .spawning => call.ready = false ∧ call.cancelled = false
  | .writing => call.ready = false ∧ call.cancelled = false
  | .waitingReady => call.cancelled = false
  | .storing => call.ready ∧ call.cancelled = false
  | .returned (.ok ()) => call.ready
  | .returned (.error _) | .dropped => call.alive = false ∧ call.cancelled = false

@[simp] theorem alive_kill (call : CopyCall) : call.kill.alive = false := by
  cases hhelper : call.helper <;> simp [alive, kill, hhelper]

@[simp] theorem ready_kill (call : CopyCall) : call.kill.ready = call.ready := by
  cases hhelper : call.helper <;> simp [ready, kill, hhelper]

@[simp] theorem alive_leave (call : CopyCall) (phase : CopyPhase) :
    (call.leave phase).alive = false := alive_kill call

@[simp] theorem ready_leave (call : CopyCall) (phase : CopyPhase) :
    (call.leave phase).ready = call.ready := ready_kill call

/-- What one step of a copy does beside moving it on. -/
structure Stepped (call : CopyCall) (e : CopyEvent) (next : CopyCall) : Prop where
  fits : call.Fits → next.Fits
  cancelled : next.cancelled = call.cancelled
  settled : call.isOver → next.phase = call.phase
  serves : e = .serves → call.phase = .waitingReady ∧ next.alive
  ready : e ≠ .serves → next.ready → call.ready
  stored : next.phase = .returned (.ok ()) → e = .stored ∨ call.phase = .returned (.ok ())
  storedNow : e = .stored → call.phase = .storing ∧ next.phase = .returned (.ok ())

/-- A step that keeps the phase and does not bring a helper to its `ready` line. -/
theorem Stepped.of_phase (hphase : next.phase = call.phase) (hready : next.ready = call.ready)
    (halive : next.alive → call.alive) (hcancelled : next.cancelled = call.cancelled)
    (he : e ≠ .serves ∧ e ≠ .stored) : Stepped call e next where
  fits := by
    unfold Fits
    rw [hphase, hready, hcancelled]
    have hdead : call.alive = false → next.alive = false := by
      cases hnext : next.alive <;> simp_all
    split <;> simp_all
  cancelled := hcancelled
  settled := fun _ => hphase
  serves := fun h => absurd h he.1
  ready := fun _ h => hready ▸ h
  stored := fun h => .inr (hphase ▸ h)
  storedNow := fun h => absurd h he.2

/-- A copy that leaves off has no job. -/
theorem Stepped.of_leave {phase : CopyPhase} (hcancelled : call.Fits → call.cancelled = false)
    (hover : call.isOver = false)
    (hphase : phase = .dropped ∨ ∃ error, phase = .returned (.error error))
    (he : e ≠ .serves ∧ e ≠ .stored) : Stepped call e (call.leave phase) where
  fits := by
    intro hfits
    have hdone : (call.leave phase).alive = false ∧ (call.leave phase).cancelled = false :=
      ⟨alive_leave call phase, hcancelled hfits⟩
    rcases hphase with rfl | ⟨error, rfl⟩ <;> exact hdone
  cancelled := rfl
  settled := fun h => by simp [hover] at h
  serves := fun h => absurd h he.1
  ready := fun _ h => by simpa using h
  stored := fun h => by rcases hphase with rfl | ⟨error, rfl⟩ <;> simp [leave] at h
  storedNow := fun h => absurd h he.2

theorem step_stepped (h : call.step e = some next) : Stepped call e next := by
  cases e with
  | spawned | written | serves | ready | stored =>
      obtain ⟨hphase, rfl⟩ := by simpa [step] using h
      constructor <;> simp_all [Fits, isOver, ready, alive]
  | spawnFailed | writeFailed | notReady =>
      obtain ⟨hphase, rfl⟩ := by simpa [step] using h
      exact Stepped.of_leave (by simp +contextual [Fits, hphase]) (by simp [isOver, hphase])
        (.inr ⟨_, rfl⟩) (by simp)
  | dropped =>
      obtain ⟨hphase, rfl⟩ := by simpa [step] using h
      refine Stepped.of_leave ?_ ?_ (.inl rfl) (by simp) <;>
        rcases hphase with hphase | hphase <;> simp +contextual [Fits, isOver, hphase]
  | exits =>
      obtain ⟨-, rfl⟩ := by simpa [step] using h
      exact Stepped.of_phase rfl (ready_kill call) (by simp) rfl (by simp)
  | ended jobEnd =>
      obtain ⟨-, rfl⟩ := by simpa [step] using h
      have hdead : alive { call.kill with ended := some jobEnd } = false := alive_kill call
      exact Stepped.of_phase rfl (ready_kill call) (by simp [hdead]) rfl (by simp)

/-- Only the job of a copy that has returned is cancelled. -/
theorem Fits.cancel (h : call.Fits) {now : Bool} (hnow : now → call.phase = .returned (.ok ())) :
    Fits { call with cancelled := call.cancelled || now } := by
  cases now with
  | false => rwa [Bool.or_false]
  | true =>
      have hphase := hnow rfl
      simp only [Fits, hphase] at h ⊢
      exact h

theorem Fits.cancelled_of_not_over (h : call.Fits) (hover : call.isOver = false) :
    call.cancelled = false := by
  unfold Fits at h
  unfold isOver at hover
  split at h <;> simp_all

end CopyCall

namespace HelperClipboard

/-- The newest copy owns the job, and every earlier job is cancelled. -/
structure NewestOwns (s : HelperClipboard) : Prop where
  current : ∀ id : Nat, id + 1 = s.copies.length → s.current = some id
  cancelled : ∀ (id : Nat) (call : CopyCall), id + 1 < s.copies.length →
    s.copies[id]? = some call → call.cancelled
  tracked : ∀ (id : Nat) (call : CopyCall), s.copies[id]? = some call → call.alive →
    s.current = some id ∨ call.cancelled
  /-- Dropping the clipboard, or the next copy, ends the helper that holds the selection. -/
  ends : ∀ id, s.selection = some id →
    ∃ call, s.takeCurrent.copies[id]? = some call ∧ call.cancelled

/-- Notes whether a copy started before an earlier one was over. -/
def overlapping (s : HelperClipboard) (overlapped : Bool) : ClipboardEvent → Option Bool
  | .copy _ => some (overlapped || s.copies.any fun call => !call.isOver)
  | _ => some overlapped

def noted : TransitionSystem (HelperClipboard × Bool) ClipboardEvent :=
  system.annotated (fun overlapped => overlapped = false) overlapping

def uncancelled (s : HelperClipboard) : Nat := s.copies.countP fun call => !call.cancelled

/-- Every copy is where its helper and its token say, and a stored job is a returned copy's. -/
structure Agrees (s : HelperClipboard) : Prop where
  fits : ∀ call ∈ s.copies, call.Fits
  current : ∀ id, s.current = some id →
    ∃ call, s.copies[id]? = some call ∧ call.phase = .returned (.ok ())
  selection : ∀ id, s.selection = some id → id < s.copies.length

/-- Nothing has overlapped: only the last copy may still be under way or hold the job. -/
structure InOrder (s : HelperClipboard) : Prop where
  earlier : ∀ (id : Nat) (call : CopyCall), s.copies[id]? = some call → id + 1 < s.copies.length →
    call.isOver ∧ (call.phase = .returned (.ok ()) → call.cancelled)
  last : ∀ (id : Nat) (call : CopyCall), s.copies[id]? = some call → id + 1 = s.copies.length →
    call.phase = .returned (.ok ()) → s.current = some id
  selection : ∀ (owner id : Nat) (call : CopyCall), s.selection = some owner →
    s.copies[id]? = some call → id + 1 = s.copies.length → call.ready → owner = id

section Runs

variable {s s' : HelperClipboard}

/-- **What one event does.** A copy starts, one copy takes a step, or the selection is taken away. -/
theorem step_cases {e : ClipboardEvent} (h : s.step e = some s') :
    (∃ secret, e = .copy secret ∧
        s' = { s.takeCurrent with copies := s.takeCurrent.copies ++ [{ secret }] }) ∨
      (∃ id event call next, e = .call id event ∧ s.copies[id]? = some call ∧
        CopyCall.Stepped call event next ∧ s'.copies = s.copies.set id next ∧
        s'.current = (if event = .stored then some id else s.current) ∧
        (event = .serves ∧ s'.selection = some id ∨
          event ≠ .serves ∧ (s'.selection = none ∨ s'.selection = s.selection))) ∨
      (e = .otherClient ∧ s' = { s with selection := none }) := by
  cases e with
  | copy secret => exact .inl ⟨secret, rfl, (Option.some.inj h).symm⟩
  | otherClient => exact .inr (.inr ⟨rfl, (Option.some.inj h).symm⟩)
  | call id event =>
      simp only [step] at h
      split at h
      next => simp at h
      next call hcall =>
          obtain ⟨next, hnext, rfl⟩ := Option.map_eq_some_iff.mp h
          refine .inr (.inl ⟨id, event, call, next, rfl, hcall, CopyCall.step_stepped hnext, rfl, rfl,
            ?_⟩)
          by_cases hserves : event = .serves
          · exact .inl ⟨hserves, if_pos hserves⟩
          · refine .inr ⟨hserves, ?_⟩
            simp only [hserves, if_false]
            split
            · exact .inl rfl
            · exact .inr rfl

/-- What `takeCurrent` leaves of each copy. -/
theorem getElem?_takeCurrent (s : HelperClipboard) (id : Nat) :
    s.takeCurrent.copies[id]? = s.copies[id]?.map fun call =>
      { call with cancelled := call.cancelled || s.current = some id } := by
  unfold takeCurrent
  cases hcurrent : s.current with
  | none => simp
  | some current =>
      simp only [List.getElem?_modify]
      by_cases hid : current = id <;> simp [hid]

theorem getElem?_takeCurrent_eq_some {id : Nat} {call' : CopyCall} :
    s.takeCurrent.copies[id]? = some call' ↔ ∃ call, s.copies[id]? = some call ∧
      { call with cancelled := call.cancelled || s.current = some id } = call' := by
  rw [getElem?_takeCurrent, Option.map_eq_some_iff]

@[simp] theorem length_takeCurrent (s : HelperClipboard) :
    s.takeCurrent.copies.length = s.copies.length := by
  unfold takeCurrent
  split <;> simp

theorem selection_takeCurrent (s : HelperClipboard) : s.takeCurrent.selection = s.selection := by
  unfold takeCurrent
  split <;> rfl

theorem current_takeCurrent (s : HelperClipboard) : s.takeCurrent.current = none := by
  unfold takeCurrent
  split <;> simp_all

theorem uncancelled_takeCurrent (s : HelperClipboard) :
    s.uncancelled ≤ s.takeCurrent.uncancelled + 1 := by
  unfold takeCurrent uncancelled
  split
  next => exact Nat.le_succ _
  next id hcurrent => exact List.countP_le_modify _ _ _ id

theorem Agrees.returned (h : Agrees s) {id : Nat} {call : CopyCall} (hcurrent : s.current = some id)
    (hcall : s.copies[id]? = some call) : call.phase = .returned (.ok ()) := by
  obtain ⟨stored, hstored, hphase⟩ := h.current id hcurrent
  obtain rfl := Option.some.inj (hcall.symm.trans hstored)
  exact hphase

theorem Agrees.step (h : Agrees s) {e : ClipboardEvent} (hstep : s.step e = some s') : Agrees s' := by
  rcases step_cases hstep with ⟨secret, rfl, rfl⟩ |
    ⟨id, event, call, next, rfl, hcall, hstepped, hcopies, hcurrent, hselection⟩ | ⟨rfl, rfl⟩
  · refine ⟨fun call hmem => ?_, fun id hid => by simp [current_takeCurrent] at hid, fun id hid => ?_⟩
    · rcases List.mem_append.mp hmem with hmem | hmem
      · obtain ⟨id, hid⟩ := List.getElem?_of_mem hmem
        obtain ⟨before, hbefore, rfl⟩ := getElem?_takeCurrent_eq_some.mp hid
        refine (h.fits before (List.mem_of_getElem? hbefore)).cancel fun hnow => ?_
        exact h.returned (of_decide_eq_true hnow) hbefore
      · rw [List.mem_singleton.mp hmem]
        exact ⟨rfl, rfl⟩
    · rw [List.length_append, length_takeCurrent]
      exact Nat.lt_add_right _ (h.selection id (selection_takeCurrent s ▸ hid))
  · refine ⟨fun other hmem => ?_, fun owner howner => ?_, fun owner howner => ?_⟩
    · rw [hcopies] at hmem
      rcases List.mem_or_eq_of_mem_set hmem with hmem | rfl
      · exact h.fits other hmem
      · exact hstepped.fits (h.fits call (List.mem_of_getElem? hcall))
    · rw [hcopies]
      by_cases hstored : event = .stored
      · obtain rfl : id = owner := by simpa [hcurrent, hstored] using howner
        exact ⟨next, List.getElem?_set_of_some hcall, (hstepped.storedNow hstored).2⟩
      · rw [hcurrent, if_neg hstored] at howner
        obtain ⟨stored, hat, hphase⟩ := h.current owner howner
        by_cases hid : id = owner
        · subst hid
          obtain rfl := Option.some.inj (hcall.symm.trans hat)
          have hover : call.isOver := by simp [CopyCall.isOver, hphase]
          exact ⟨next, List.getElem?_set_of_some hcall, (hstepped.settled hover).trans hphase⟩
        · exact ⟨stored, by rw [List.getElem?_set_ne hid, hat], hphase⟩
    · rw [hcopies, List.length_set]
      rcases hselection with ⟨-, hnow⟩ | ⟨-, hnone | hsame⟩
      · obtain rfl : id = owner := by simpa [hnow] using howner
        exact (List.getElem?_eq_some_iff.mp hcall).1
      · simp [hnone] at howner
      · exact h.selection owner (hsame ▸ howner)
  · exact ⟨h.fits, h.current, by simp⟩

/-- No step but the start of a copy changes how many jobs are not cancelled. -/
theorem uncancelled_step {e : ClipboardEvent} (hstep : s.step e = some s') :
    (∃ secret, e = .copy secret ∧ s'.uncancelled = s.takeCurrent.uncancelled + 1) ∨
      (∀ overlapped, overlapping s overlapped e = some overlapped) ∧
        s'.uncancelled = s.uncancelled := by
  rcases step_cases hstep with ⟨secret, rfl, rfl⟩ |
    ⟨id, event, call, next, rfl, hcall, hstepped, hcopies, -, -⟩ | ⟨rfl, rfl⟩
  · exact .inl ⟨secret, rfl, by simp [uncancelled]⟩
  · have hset := List.countP_set_of_some (p := fun call : CopyCall => !call.cancelled) (b := next) hcall
    rw [hstepped.cancelled] at hset
    exact .inr ⟨fun _ => rfl, by rw [uncancelled, uncancelled, hcopies, Nat.add_right_cancel hset]⟩
  · exact .inr ⟨fun _ => rfl, rfl⟩

/-- A copy that is under way when the next one starts has no job yet to be cancelled. -/
theorem Agrees.uncancelled_pos (h : Agrees s) {call : CopyCall} (hmem : call ∈ s.copies)
    (hover : call.isOver = false) : 0 < s.takeCurrent.uncancelled := by
  obtain ⟨id, hid⟩ := List.getElem?_of_mem hmem
  have hnot : decide (s.current = some id) = false := by
    refine decide_eq_false fun hcurrent => ?_
    simp [CopyCall.isOver, h.returned hcurrent hid] at hover
  have hstays : s.takeCurrent.copies[id]? = some call := by
    simp [getElem?_takeCurrent, hid, hnot]
  refine List.countP_pos_iff.mpr ⟨call, List.mem_of_getElem? hstays, ?_⟩
  simp [(h.fits call hmem).cancelled_of_not_over hover]

/-- **One overlap is enough.** From then on two jobs at least are not cancelled. -/
theorem two_le_uncancelled (h : Agrees s) {overlapped : Bool} {e : ClipboardEvent}
    (hstep : s.step e = some s') (hbefore : overlapped → 2 ≤ s.uncancelled)
    (hnote : overlapping s overlapped e = some true) : 2 ≤ s'.uncancelled := by
  rcases uncancelled_step hstep with ⟨secret, rfl, hstarted⟩ | ⟨hnoted, hsame⟩
  · have hnote := Option.some.inj hnote
    rw [Bool.or_eq_true, List.any_eq_true] at hnote
    rcases hnote with hoverlapped | ⟨call, hmem, hover⟩
    · have htaken := uncancelled_takeCurrent s
      have htwo := hbefore hoverlapped
      omega
    · have hpos := h.uncancelled_pos hmem (by simpa using hover)
      omega
  · rw [hnoted, Option.some.injEq] at hnote
    rw [hsame]
    exact hbefore hnote

theorem InOrder.copy (h : InOrder s) (hover : ∀ call ∈ s.copies, call.isOver) (secret : Bool) :
    InOrder { s.takeCurrent with copies := s.takeCurrent.copies ++ [{ secret }] } := by
  refine ⟨fun id call hid hlt => ?_, fun id call hid hlast hphase => ?_,
    fun owner id call _ hid hlast hready => ?_⟩ <;>
    simp only [List.length_append, List.length_singleton, length_takeCurrent] at *
  · rcases List.getElem?_concat_cases hid with htaken | ⟨rfl, -⟩
    · obtain ⟨before, hbefore, rfl⟩ := getElem?_takeCurrent_eq_some.mp htaken
      refine ⟨hover before (List.mem_of_getElem? hbefore), fun hphase => ?_⟩
      -- The last copy's job is the current one, which this copy cancels.
      rcases Nat.lt_or_ge (id + 1) s.copies.length with hearlier | hlast
      · simp [(h.earlier id before hbefore hearlier).2 hphase]
      · simp [h.last id before hbefore (by omega) hphase]
    · simp at hlt
  · rcases List.getElem?_concat_cases hid with hbefore | ⟨-, rfl⟩
    · have hin := (List.getElem?_eq_some_iff.mp hbefore).1
      rw [length_takeCurrent] at hin
      omega
    · simp at hphase
  · rcases List.getElem?_concat_cases hid with hbefore | ⟨-, rfl⟩
    · have hin := (List.getElem?_eq_some_iff.mp hbefore).1
      rw [length_takeCurrent] at hin
      omega
    · simp [CopyCall.ready] at hready

theorem InOrder.call (h : InOrder s) {id : Nat} {event : CopyEvent} {call next : CopyCall}
    (hcall : s.copies[id]? = some call) (hstepped : CopyCall.Stepped call event next)
    (hcopies : s'.copies = s.copies.set id next)
    (hcurrent : s'.current = if event = .stored then some id else s.current)
    (hselection : event = .serves ∧ s'.selection = some id ∨
      event ≠ .serves ∧ (s'.selection = none ∨ s'.selection = s.selection)) : InOrder s' := by
  have hlength : s'.copies.length = s.copies.length := by rw [hcopies, List.length_set]
  have hlast : call.isOver = false → id + 1 = s.copies.length := by
    intro hbusy
    have hin := (List.getElem?_eq_some_iff.mp hcall).1
    by_contra hne
    simp [(h.earlier id call hcall (by omega)).1] at hbusy
  refine ⟨fun other held hother hlt => ?_, fun other held hother hend hphase => ?_,
    fun owner other held howner hother hend hready => ?_⟩
  · rw [hcopies] at hother
    rw [hlength] at hlt
    rcases List.getElem?_set_cases hother with ⟨rfl, rfl⟩ | ⟨-, hbefore⟩
    · obtain ⟨hover, hcancelled⟩ := h.earlier id call hcall hlt
      have hphase := hstepped.settled hover
      refine ⟨by simpa [CopyCall.isOver, hphase] using hover, fun hok => ?_⟩
      rw [hstepped.cancelled]
      exact hcancelled (hphase ▸ hok)
    · exact h.earlier other held hbefore hlt
  · rw [hcopies] at hother
    rw [hlength] at hend
    rw [hcurrent]
    rcases List.getElem?_set_cases hother with ⟨rfl, rfl⟩ | ⟨hne, hbefore⟩
    · rcases hstepped.stored hphase with hstored | hok
      · rw [if_pos hstored]
      · rw [h.last id call hcall hend hok, ite_self]
    · split
      next hstored =>
          have hbusy : call.isOver = false := by
            simp [CopyCall.isOver, (hstepped.storedNow hstored).1]
          have hid := hlast hbusy
          omega
      next => exact h.last other held hbefore hend hphase
  · rw [hcopies] at hother
    rw [hlength] at hend
    rcases hselection with ⟨hserves, hnow⟩ | ⟨hne, hnone | hsame⟩
    · obtain rfl : id = owner := by simpa [hnow] using howner
      have hbusy : call.isOver = false := by simp [CopyCall.isOver, (hstepped.serves hserves).1]
      have hid := hlast hbusy
      omega
    · simp [hnone] at howner
    · rw [hsame] at howner
      rcases List.getElem?_set_cases hother with ⟨rfl, rfl⟩ | ⟨-, hbefore⟩
      · exact h.selection owner id call howner hcall hend (hstepped.ready hne hready)
      · exact h.selection owner other held howner hbefore hend hready

theorem InOrder.step (h : InOrder s) {e : ClipboardEvent} (hstep : s.step e = some s')
    (hnote : overlapping s false e = some false) : InOrder s' := by
  rcases step_cases hstep with ⟨secret, rfl, rfl⟩ |
    ⟨id, event, call, next, rfl, hcall, hstepped, hcopies, hcurrent, hselection⟩ | ⟨rfl, rfl⟩
  · refine h.copy (fun call hmem => ?_) secret
    have hall : ∀ call ∈ s.copies, (!call.isOver) = false := by
      simpa [overlapping] using hnote
    simpa using hall call hmem
  · exact h.call hcall hstepped hcopies hcurrent hselection
  · exact ⟨h.earlier, h.last, by simp⟩

/-- What the note says of the state. -/
structure Noted (s : HelperClipboard) (overlapped : Bool) : Prop where
  agrees : Agrees s
  two : overlapped → 2 ≤ s.uncancelled
  inOrder : overlapped = false → InOrder s

theorem noted_of_reach {guard : HelperClipboard × Bool → ClipboardEvent → Prop}
    {s : HelperClipboard × Bool} (h : noted.Reach guard s) : Noted s.1 s.2 := by
  refine @TransitionSystem.Reach.invariant _ _ noted guard (fun s => Noted s.1 s.2) ?_ ?_ s h
  · rintro ⟨s, overlapped⟩ ⟨rfl, rfl⟩
    exact ⟨⟨by simp, by simp, by simp⟩, by simp, fun _ => ⟨by simp, by simp, by simp⟩⟩
  · rintro ⟨s, overlapped⟩ e ⟨s', overlapped'⟩ - - hstep hnoted
    obtain ⟨hstep, hnote⟩ := TransitionSystem.annotated_step_eq_some.mp hstep
    refine ⟨hnoted.agrees.step hstep, fun hafter => ?_, fun hafter => ?_⟩
    · exact two_le_uncancelled hnoted.agrees hstep hnoted.two (hnote.trans (congrArg some hafter))
    · have hbefore : overlapped = false := by
        cases e <;> simp_all [overlapping]
      exact (hnoted.inOrder hbefore).step hstep (by simp_all)

theorem InOrder.newestOwns (h : InOrder s) (hagrees : Agrees s)
    (hreturned : ∀ call ∈ s.copies, call.phase = .returned (.ok ())) : NewestOwns s := by
  have hcurrent : ∀ (id : Nat) (call : CopyCall), s.copies[id]? = some call →
      id + 1 = s.copies.length → s.current = some id := fun id call hcall hlast =>
    h.last id call hcall hlast (hreturned call (List.mem_of_getElem? hcall))
  have hcancelled : ∀ (id : Nat) (call : CopyCall), id + 1 < s.copies.length →
      s.copies[id]? = some call → call.cancelled := fun id call hlt hcall =>
    (h.earlier id call hcall hlt).2 (hreturned call (List.mem_of_getElem? hcall))
  refine ⟨fun id hlast => ?_, hcancelled, fun id call hcall _ => ?_, fun id hselection => ?_⟩
  · have hlt : id < s.copies.length := by omega
    exact hcurrent id _ (List.getElem?_eq_getElem hlt) hlast
  · have hlt := (List.getElem?_eq_some_iff.mp hcall).1
    rcases Nat.lt_or_ge (id + 1) s.copies.length with hearlier | hlast
    · exact .inr (hcancelled id call hearlier hcall)
    · exact .inl (hcurrent id call hcall (by omega))
  · obtain ⟨last, hlast⟩ : ∃ last, last + 1 = s.copies.length :=
      ⟨s.copies.length - 1, by have := hagrees.selection id hselection; omega⟩
    obtain ⟨call, hcall⟩ : ∃ call, s.copies[last]? = some call :=
      ⟨_, List.getElem?_eq_getElem (show last < s.copies.length by omega)⟩
    have hmem := List.mem_of_getElem? hcall
    have hready : call.ready := by
      simpa [CopyCall.Fits, hreturned _ hmem] using hagrees.fits _ hmem
    obtain rfl := h.selection id last _ hselection hcall hlast hready
    exact ⟨_, getElem?_takeCurrent_eq_some.mpr ⟨_, hcall, rfl⟩, by simp [hcurrent id _ hcall hlast]⟩

theorem NewestOwns.uncancelled_le (h : NewestOwns s) : s.uncancelled ≤ 1 := by
  rcases List.eq_nil_or_concat' s.copies with hnil | ⟨earlier, last, hcopies⟩
  · simp [uncancelled, hnil]
  · have hearlier : earlier.countP (fun call => !call.cancelled) = 0 := by
      refine List.countP_eq_zero.mpr fun call hmem => ?_
      obtain ⟨id, hid⟩ := List.getElem?_of_mem hmem
      have hlt := (List.getElem?_eq_some_iff.mp hid).1
      have hcancelled := h.cancelled id call (by simpa [hcopies] using hlt)
        (hcopies ▸ List.getElem?_append_of_some hid)
      simp [hcancelled]
    have hlast := List.countP_le_length (p := fun call : CopyCall => !call.cancelled) (l := [last])
    rw [uncancelled, hcopies, List.countP_append, hearlier, Nat.zero_add]
    exact hlast

/-- **The newest copy owns the job exactly when no copy started before the earlier ones were over.** -/
theorem newest_owns_iff {s : HelperClipboard × Bool}
    (h : noted.Reach TransitionSystem.anyStep s)
    (hreturned : ∀ call ∈ s.1.copies, call.phase = .returned (.ok ())) :
    NewestOwns s.1 ↔ s.2 = false := by
  have hnoted := noted_of_reach h
  constructor
  · intro howns
    by_contra hoverlapped
    have htwo := hnoted.two (by simpa using hoverlapped)
    have hone := howns.uncancelled_le
    omega
  · exact fun hinOrder => (hnoted.inOrder hinOrder).newestOwns hnoted.agrees hreturned

end Runs

/-- Two copies, one after the other. -/
theorem newest_owns_two :
    ∃ s, noted.Reach TransitionSystem.anyStep s ∧ s.1.copies.length = 2 ∧ NewestOwns s.1 := by
  have hrun : ∃ s, noted.Reach TransitionSystem.anyStep s ∧ s.1.copies.length = 2 ∧
      (∀ call ∈ s.1.copies, call.phase = .returned (.ok ())) ∧ s.2 = false := by
    refine TransitionSystem.exists_reach_of_run ({}, false)
      [.copy true, .call 0 .spawned, .call 0 .written, .call 0 .serves, .call 0 .ready,
        .call 0 .stored, .copy true, .call 0 (.ended .replaced), .call 1 .spawned, .call 1 .written,
        .call 1 .serves, .call 1 .ready, .call 1 .stored] ⟨rfl, rfl⟩ ?_
    decide
  obtain ⟨s, hreach, htwo, hreturned, hinOrder⟩ := hrun
  exact ⟨s, hreach, htwo, (newest_owns_iff hreach hreturned).mpr hinOrder⟩

/-- The second copy starts before the first is ready, and the first is ready last: its helper holds
the selection, and neither a drop nor another copy ends it. -/
theorem older_copy_stays :
    ∃ s, system.Reach TransitionSystem.anyStep s ∧
      (∀ call ∈ s.copies, call.phase = .returned (.ok ())) ∧ ¬ NewestOwns s := by
  have hrun : ∃ s, system.Reach TransitionSystem.anyStep s ∧
      (∀ call ∈ s.copies, call.phase = .returned (.ok ())) ∧ s.selection = some 0 ∧
      s.takeCurrent.copies[0]?.any (fun call => !call.cancelled) := by
    refine TransitionSystem.exists_reach_of_run {}
      [.copy true, .copy true, .call 0 .spawned, .call 1 .spawned, .call 0 .written,
        .call 1 .written, .call 1 .serves, .call 1 .ready, .call 0 .serves, .call 0 .ready,
        .call 0 .stored, .call 1 .stored] rfl ?_
    decide
  obtain ⟨s, hreach, hreturned, hselection, hstays⟩ := hrun
  refine ⟨s, hreach, hreturned, fun howns => ?_⟩
  obtain ⟨call, hcall, hcancelled⟩ := howns.ends 0 hselection
  simp [hcall, hcancelled] at hstays

end HelperClipboard

end CosmicPass
