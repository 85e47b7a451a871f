import CosmicPass.Library.Slots
import CosmicPass.Pass.Runner

/-!
# Admission of `pass-cli` calls

A call takes a permit, then the warm-up lock unless it finds `warm` set, and gives both back however it
ends. What is shared is balanced against what each call holds, so no more children run than there are
permits, only the holder of the guard runs one before `warm` is set, and nothing is held by a call that
has returned.
-/

namespace CosmicPass

namespace Call

/-- What the call has taken and not yet given back. -/
def grant : Call → Grant
  | .acquiring | .returned _ => .nothing
  | .checking | .locking => .permit
  | .rechecking | .unlocking => .permitAndGuard
  | .spawning grant | .running grant => grant
  | .killing grant _ | .marking grant _ | .dropping grant _ => grant

def holdsPermit (call : Call) : Bool := call.grant ≠ .nothing

def holdsGuard (call : Call) : Bool := call.grant = .permitAndGuard

/-- Can be there before `warm` is set. -/
def cold : Call → Bool
  | .unlocking => false
  | .spawning grant | .running grant | .killing grant _ | .marking grant _ => grant ≠ .permit
  | _ => true

/-- Past the warm-up gate without the guard, or about to drop it there. -/
def late : Call → Bool
  | .unlocking | .returned _ => true
  | .spawning grant | .running grant => grant ≠ .permitAndGuard
  | .killing grant _ | .marking grant _ | .dropping grant _ => grant ≠ .permitAndGuard
  | _ => false

/-- Has its outcome, and is to return it. -/
def ending : Call → Bool
  | .killing _ _ | .marking _ _ | .dropping _ _ => true
  | _ => false

/-- The steps left to the spawn or to the return. -/
def left : Call → Nat
  | .acquiring => 5
  | .checking => 4
  | .locking => 3
  | .rechecking => 2
  | .unlocking => 1
  | .killing _ _ | .marking _ _ => 4
  | .dropping .permitAndGuard _ => 3
  | .dropping .permit _ => 2
  | .dropping .nothing _ => 1
  | .spawning _ | .running _ | .returned _ => 0

section Steps

variable {r r' : TokioRunner} {call next : Call} {e : CallEvent}

/-- What one step of a call does to what the calls share, and to what the call holds of it. -/
structure Moved (r r' : TokioRunner) (call next : Call) : Prop where
  permits : r'.permits + next.holdsPermit.toNat = r.permits + call.holdsPermit.toNat
  warmup : (call.holdsGuard → r.warmup) →
    r'.warmup.toNat + call.holdsGuard.toNat = r.warmup.toNat + next.holdsGuard.toNat
  warm : r.warm → r'.warm
  cold : r'.warm = false → call.cold → next.cold
  late : call.late → next.late

attribute [local simp] grant holdsPermit holdsGuard cold late

/-- A step that neither takes nor gives back. -/
theorem Moved.of_grant (hgrant : next.grant = call.grant)
    (hcold : r.warm = false → call.cold → next.cold) (hlate : call.late → next.late) :
    Moved r r call next where
  permits := by rw [holdsPermit, holdsPermit, hgrant]
  warmup := fun _ => by rw [holdsGuard, holdsGuard, hgrant]
  warm := id
  cold := hcold
  late := hlate

theorem poll_moved (h : call.poll r = some (r', next)) : Moved r r' call next := by
  unfold poll at h
  split at h
  next =>
      split at h
      next => simp at h
      next permits hpermits =>
          obtain ⟨rfl, rfl⟩ := by simpa using h
          constructor <;> simp [hpermits]
  next =>
      obtain ⟨rfl, rfl⟩ := by simpa using h
      apply Moved.of_grant <;> cases hwarm : r.warm <;> simp
  next =>
      split at h
      next => simp at h
      next hfree =>
          obtain ⟨rfl, rfl⟩ := by simpa using h
          constructor <;> simp [hfree]
  next =>
      obtain ⟨rfl, rfl⟩ := by simpa using h
      apply Moved.of_grant <;> cases hwarm : r.warm <;> simp
  next =>
      obtain ⟨rfl, rfl⟩ := by simpa using h
      constructor <;> simp +contextual
  next grant ended =>
      obtain ⟨rfl, rfl⟩ := by simpa using h
      apply Moved.of_grant <;> simp
  next grant ended =>
      obtain ⟨rfl, rfl⟩ := by simpa using h
      have hsame : Moved r r (.marking grant ended) (.dropping grant ended) := by
        apply Moved.of_grant <;> simp
      exact ⟨hsame.permits, hsame.warmup, fun _ => rfl, by simp, hsame.late⟩
  next ended =>
      obtain ⟨rfl, rfl⟩ := by simpa using h
      constructor <;> simp +contextual
  next ended =>
      obtain ⟨rfl, rfl⟩ := by simpa using h
      constructor <;> simp
  next ended =>
      obtain ⟨rfl, rfl⟩ := by simpa using h
      apply Moved.of_grant <;> simp
  next => simp at h
  next => simp at h
  next => simp at h

theorem cancel_moved (h : call.cancel = some next) : Moved r r call next := by
  unfold cancel at h
  split at h <;> simp only [Option.some.injEq, reduceCtorEq] at h <;> subst h <;>
    apply Moved.of_grant <;> simp

/-- The other events only happen while a child is started or runs, and change nothing that is shared. -/
theorem step_moved (h : call.step r e = some (r', next)) : Moved r r' call next := by
  cases e with
  | poll => exact poll_moved h
  | cancelled =>
      obtain ⟨next, hcancel, hnext⟩ := Option.map_eq_some_iff.mp h
      obtain ⟨rfl, rfl⟩ := Prod.mk.inj hnext
      exact cancel_moved hcancel
  | spawned | spawnFailed | exited | waitFailed | timedOut =>
      simp only [step] at h
      split at h
      next grant =>
          obtain ⟨rfl, rfl⟩ := by simpa using h
          apply Moved.of_grant <;> simp
      next => simp at h

end Steps

end Call

namespace Runner

open Call

variable {s s' : Runner}

/-- What the calls hold makes up, with what is free, what there is. -/
structure Gated (s : Runner) : Prop where
  permits : s.shared.permits + s.calls.countP Call.holdsPermit = TokioRunner.maxConcurrent
  warmup : s.calls.countP Call.holdsGuard = s.shared.warmup.toNat
  cold : s.shared.warm = false → ∀ call ∈ s.calls, call.cold

/-- **What one event does.** A call comes, or one call takes a step. -/
theorem step_cases {e : RunnerEvent} (h : s.step e = some s') :
    (∃ call, (call = .acquiring ∨ call = .spawning .nothing) ∧
        s' = { s with calls := s.calls ++ [call] }) ∨
      ∃ id event call next, e = .call id event ∧ s.calls[id]? = some call ∧
        call.step s.shared event = some (s'.shared, next) ∧ s'.calls = s.calls.set id next := by
  cases e with
  | run => exact .inl ⟨.acquiring, .inl rfl, (Option.some.inj h).symm⟩
  | runStreaming => exact .inl ⟨.spawning .nothing, .inr rfl, (Option.some.inj h).symm⟩
  | call id event =>
      simp only [step] at h
      split at h
      next => simp at h
      next call hcall =>
          obtain ⟨⟨shared, next⟩, hstep, rfl⟩ := Option.map_eq_some_iff.mp h
          exact .inr ⟨id, event, call, next, rfl, hcall, hstep, rfl⟩

theorem Gated.start : Gated { shared := .new, calls := [] } :=
  ⟨rfl, rfl, by simp⟩

theorem Gated.came (h : Gated s) {call : Call} (hgrant : call.grant = .nothing) (hcold : call.cold) :
    Gated { s with calls := s.calls ++ [call] } := by
  have hpermit : call.holdsPermit = false := by simp [holdsPermit, hgrant]
  have hguard : call.holdsGuard = false := by simp [holdsGuard, hgrant]
  refine ⟨by simpa [hpermit] using h.permits, by simpa [hguard] using h.warmup, fun hwarm => ?_⟩
  intro other hmem
  rcases List.mem_append.mp hmem with hmem | hmem
  · exact h.cold hwarm other hmem
  · rwa [List.mem_singleton.mp hmem]

theorem Gated.moved (h : Gated s) {id : Nat} {call next : Call} (hcall : s.calls[id]? = some call)
    (hmoved : Moved s.shared s'.shared call next) (hcalls : s'.calls = s.calls.set id next) :
    Gated s' := by
  have hmem := List.mem_of_getElem? hcall
  refine ⟨?_, ?_, fun hwarm => ?_⟩
  · have hset := List.countP_set_of_some (p := Call.holdsPermit) (b := next) hcall
    have hpermits := hmoved.permits
    have hsum := h.permits
    rw [hcalls]
    omega
  · have hset := List.countP_set_of_some (p := Call.holdsGuard) (b := next) hcall
    have hwarmup := hmoved.warmup fun hguard => by
      have hpos := List.countP_pos_iff.mpr ⟨call, hmem, hguard⟩
      exact Bool.eq_true_of_not_eq_false fun hfree => by simp [h.warmup, hfree] at hpos
    have hsum := h.warmup
    rw [hcalls]
    omega
  · have hbefore : s.shared.warm = false := by
      cases hs : s.shared.warm with
      | false => rfl
      | true => simp [hmoved.warm hs] at hwarm
    rw [hcalls]
    intro other hother
    rcases List.mem_or_eq_of_mem_set hother with hother | rfl
    · exact h.cold hbefore other hother
    · exact hmoved.cold hwarm (h.cold hbefore call hmem)

theorem Gated.step (h : Gated s) {e : RunnerEvent} (hstep : s.step e = some s') : Gated s' := by
  rcases step_cases hstep with ⟨call, rfl | rfl, rfl⟩ | ⟨id, event, call, next, -, hcall, hnext, hcalls⟩
  · exact h.came rfl rfl
  · exact h.came rfl rfl
  · exact h.moved hcall (step_moved hnext) hcalls

/-- Only the call's own steps are taken. -/
def alone (id : Nat) : Runner → RunnerEvent → Prop := fun _ e => e = .call id .poll

end Runner

end CosmicPass
