import Mathlib.Data.List.Induction

/-!
# Labelled transition systems and guarded runs

A system whose next state is a partial function of the present state and an event. A *guarded* run is
one in which every step meets a condition on the state before it and the event; what holds of every
state a guarded run reaches is proved by `Reach.invariant`, from what holds at the start and what one
step preserves.

The step is a function, so a run on given events can be evaluated: `reach_of_run` turns such an
evaluation into a reachable state.
-/

/-- Starting states, and the state an event leads to, where it can happen at all. -/
structure TransitionSystem (σ ε : Type*) where
  init : σ → Prop
  step : σ → ε → Option σ

namespace TransitionSystem

variable {σ ε : Type*} (T : TransitionSystem σ ε)

/-- The states that runs reach in which every step meets the guard. -/
inductive Reach (guard : σ → ε → Prop) : σ → Prop
  | start {s : σ} : T.init s → Reach guard s
  | next {s s' : σ} {e : ε} : Reach guard s → guard s e → T.step s e = some s' → Reach guard s'

def startingAt (s : σ) : TransitionSystem σ ε := { T with init := fun s' => s' = s }

@[simp] theorem startingAt_step (s : σ) : (T.startingAt s).step = T.step := rfl

def anyStep : σ → ε → Prop := fun _ _ => True

instance (s : σ) (e : ε) : Decidable (anyStep s e) := inferInstanceAs (Decidable True)

variable {T} {guard : σ → ε → Prop}

theorem Reach.mono {weaker : σ → ε → Prop} (hguard : ∀ s e, guard s e → weaker s e) {s : σ}
    (h : T.Reach guard s) : T.Reach weaker s := by
  induction h with
  | start hinit => exact .start hinit
  | next _ hok hstep ih => exact .next ih (hguard _ _ hok) hstep

/-- **The invariant rule.** What holds at the start and survives every guarded step from a reachable
state holds of every reachable state. -/
theorem Reach.invariant {Inv : σ → Prop} (hinit : ∀ s, T.init s → Inv s)
    (hstep : ∀ s e s', T.Reach guard s → guard s e → T.step s e = some s' → Inv s → Inv s')
    {s : σ} (h : T.Reach guard s) : Inv s := by
  induction h with
  | start h => exact hinit _ h
  | next hreach hok h ih => exact hstep _ _ _ hreach hok h ih

variable (T guard)

/-- The state a list of events leads to, if every one of them can happen and meets the guard. -/
def run [∀ s e, Decidable (guard s e)] : σ → List ε → Option σ
  | s, [] => some s
  | s, e :: rest =>
      if guard s e then
        match T.step s e with
        | some s' => run s' rest
        | none => none
      else none

variable {T guard}

theorem Reach.run [∀ s e, Decidable (guard s e)] {events : List ε} :
    ∀ {s s' : σ}, T.Reach guard s → T.run guard s events = some s' → T.Reach guard s' := by
  induction events with
  | nil =>
      intro s s' hreach h
      obtain rfl : s = s' := by simpa [TransitionSystem.run] using h
      exact hreach
  | cons e rest ih =>
      intro s s' hreach h
      simp only [TransitionSystem.run] at h
      by_cases hok : guard s e
      · cases hstep : T.step s e with
        | none => simp [hok, hstep] at h
        | some next =>
            simp only [hok, hstep, if_true] at h
            exact ih (.next hreach hok hstep) h
      · simp [hok] at h

theorem reach_of_run [∀ s e, Decidable (guard s e)] {s s' : σ} {events : List ε}
    (hinit : T.init s) (h : T.run guard s events = some s') : T.Reach guard s' :=
  (Reach.start hinit).run h

theorem exists_reach_of_run [∀ s e, Decidable (guard s e)] {P : σ → Prop} [DecidablePred P] (s : σ)
    (events : List ε) (hinit : T.init s) (h : (T.run guard s events).any fun s' => P s') :
    ∃ s', T.Reach guard s' ∧ P s' := by
  obtain ⟨s', hrun, hp⟩ := (Option.any_eq_true _ _).mp h
  exact ⟨s', reach_of_run hinit hrun, of_decide_eq_true hp⟩

theorem run_startingAt [∀ s e, Decidable (guard s e)] (first : σ) (events : List ε) :
    ∀ s, (T.startingAt first).run guard s events = T.run guard s events := by
  induction events with
  | nil => exact fun _ => rfl
  | cons e rest ih =>
      intro s
      simp only [run, startingAt_step, ih]

/-- A later state, found by evaluation. -/
theorem exists_later_of_run [∀ s e, Decidable (guard s e)] {P : σ → Prop} [DecidablePred P] {s : σ}
    {events : List ε} (h : (T.run guard s events).any fun s' => P s') :
    ∃ s', (T.startingAt s).Reach guard s' ∧ P s' :=
  exists_reach_of_run s events rfl (by rwa [run_startingAt])

/-!
### Notes beside the state

A statement about a run often speaks of more than the state holds: the time, or what the user asked
for last. A note is kept beside the state and brought up to date by each event, which it can also rule
out.
-/

variable {γ : Type*}

/-- The system with a note beside its state; an event whose note is `none` does not happen. -/
def annotated (T : TransitionSystem σ ε) (first : γ → Prop) (note : σ → γ → ε → Option γ) :
    TransitionSystem (σ × γ) ε :=
  { init := fun s => T.init s.1 ∧ first s.2
    step := fun s e => (T.step s.1 e).bind fun s' => (note s.1 s.2 e).map fun g => (s', g) }

/-- The system with a clock that never goes back. -/
def timed (T : TransitionSystem σ ε) (time : ε → Int) : TransitionSystem (σ × Int) ε :=
  T.annotated (fun _ => True) fun _ clock e => if clock ≤ time e then some (time e) else none

variable {first : γ → Prop} {note : σ → γ → ε → Option γ}

theorem annotated_step_eq_some {s s' : σ × γ} {e : ε} :
    (T.annotated first note).step s e = some s' ↔
      T.step s.1 e = some s'.1 ∧ note s.1 s.2 e = some s'.2 := by
  obtain ⟨state, g⟩ := s'
  simp only [annotated, Option.bind_eq_some_iff, Option.map_eq_some_iff, Prod.mk.injEq]
  constructor
  · rintro ⟨_, hstep, _, hnote, rfl, rfl⟩
    exact ⟨hstep, hnote⟩
  · rintro ⟨hstep, hnote⟩
    exact ⟨_, hstep, _, hnote, rfl, rfl⟩

/-- Without its notes, a run is a run of the system itself. -/
theorem Reach.of_annotated {guard : σ × γ → ε → Prop} {s : σ × γ}
    (h : (T.annotated first note).Reach guard s) : T.Reach anyStep s.1 := by
  induction h with
  | start hinit => exact .start hinit.1
  | next _ _ hstep ih => exact .next ih trivial (annotated_step_eq_some.mp hstep).1

theorem timed_step_eq_some {time : ε → Int} {s s' : σ × Int} {e : ε} :
    (T.timed time).step s e = some s' ↔
      T.step s.1 e = some s'.1 ∧ s.2 ≤ time e ∧ s'.2 = time e := by
  rw [timed, annotated_step_eq_some]
  refine and_congr_right fun _ => ?_
  split
  next hle => simp [hle, eq_comm]
  next hlt => simp [hlt]

/-- Runs that go on from the end of a run. -/
theorem Reach.append {guard : σ → ε → Prop} {s s' : σ} (h : T.Reach guard s)
    (hlater : (T.startingAt s).Reach guard s') : T.Reach guard s' := by
  induction hlater with
  | start hinit => exact hinit ▸ h
  | next _ hok hstep ih => exact .next ih hok hstep

/-!
### Simulation

A system carries out another one when each of its steps is matched by a run of the other, from what
stands for the state before to what stands for the state after. The run may be empty.
-/

/-- **The simulation rule.** What is reachable stands for what is reachable in the simulated system. -/
theorem Reach.simulate {τ δ : Type*} {U : TransitionSystem τ δ} {guard : σ → ε → Prop}
    {allowed : τ → δ → Prop} (stands : σ → τ) (hinit : ∀ s, T.init s → U.Reach allowed (stands s))
    (hstep : ∀ s e s', T.Reach guard s → U.Reach allowed (stands s) → guard s e →
      T.step s e = some s' → (U.startingAt (stands s)).Reach allowed (stands s')) {s : σ}
    (h : T.Reach guard s) : U.Reach allowed (stands s) := by
  induction h with
  | start hstart => exact hinit _ hstart
  | next hreach hok hnext ih => exact ih.append (hstep _ _ _ hreach ih hok hnext)

theorem Reach.trans {guard : σ → ε → Prop} {a b c : σ} (h : (T.startingAt a).Reach guard b)
    (hlater : (T.startingAt b).Reach guard c) : (T.startingAt a).Reach guard c :=
  h.append hlater

/-- A run of one step. -/
theorem Reach.single {guard : σ → ε → Prop} {s s' : σ} {e : ε} (hok : guard s e)
    (hstep : T.step s e = some s') : (T.startingAt s).Reach guard s' :=
  .next (.start rfl) hok hstep

/-!
### Logs

A list of events read by a system from a given state: what was accepted piece by piece, and which event
led last into a set of states.
-/

section Logs

variable [∀ s e, Decidable (guard s e)]

theorem run_append {s : σ} (xs ys : List ε) :
    T.run guard s (xs ++ ys) = (T.run guard s xs).bind fun s' => T.run guard s' ys := by
  induction xs generalizing s with
  | nil => rfl
  | cons e rest ih =>
      simp only [List.cons_append, run]
      by_cases hok : guard s e
      · cases T.step s e <;> simp [hok, ih]
      · simp [hok]

theorem run_append_eq_some {s s' : σ} {xs ys : List ε} :
    T.run guard s (xs ++ ys) = some s' ↔
      ∃ mid, T.run guard s xs = some mid ∧ T.run guard mid ys = some s' := by
  rw [run_append, Option.bind_eq_some_iff]

theorem run_cons_eq_some {s s' : σ} {e : ε} {rest : List ε} :
    T.run guard s (e :: rest) = some s' ↔
      guard s e ∧ ∃ mid, T.step s e = some mid ∧ T.run guard mid rest = some s' := by
  simp only [run]
  by_cases hok : guard s e
  · cases T.step s e <;> simp [hok]
  · simp [hok]

/-- **The last entry into a set of states.** A log that leads into it from outside has an event that
does, and no event after that one leaves it. -/
theorem exists_entered_of_run {P : σ → Prop} {s s' : σ} {events : List ε}
    (h : T.run guard s events = some s') (hs : ¬ P s) (hs' : P s') :
    ∃ before e after mid mid', events = before ++ e :: after ∧ ¬ P mid ∧ T.step mid e = some mid' ∧
      P mid' ∧ ∀ later ∈ after, ∃ a b, P a ∧ T.step a later = some b ∧ P b := by
  induction events using List.reverseRecOn generalizing s' with
  | nil =>
      obtain rfl : s = s' := by simpa [run] using h
      exact absurd hs' hs
  | append_singleton events last ih =>
      obtain ⟨mid, hmid, hlast⟩ := run_append_eq_some.mp h
      obtain ⟨-, next, hstep, hnext⟩ := run_cons_eq_some.mp hlast
      obtain rfl : next = s' := by simpa [run] using hnext
      by_cases hP : P mid
      · obtain ⟨before, e, after, outside, inside, rfl, hnot, hentered, hinside, hkept⟩ := ih hmid hP
        refine ⟨before, e, after ++ [last], outside, inside, by simp, hnot, hentered, hinside, ?_⟩
        intro later hmem
        rcases List.mem_append.mp hmem with hold | hnew
        · exact hkept later hold
        · rw [List.mem_singleton.mp hnew]
          exact ⟨mid, next, hP, hstep, hs'⟩
      · exact ⟨events, last, [], mid, next, rfl, hP, hstep, hs', by simp⟩

/-- **Runs of a system whose steps each use up a measure** are no longer than it. -/
theorem length_le_of_run {measure : σ → Nat} {s s' : σ} {events : List ε}
    (hstep : ∀ s e s', guard s e → T.step s e = some s' → measure s' < measure s)
    (h : T.run guard s events = some s') : events.length + measure s' ≤ measure s := by
  induction events generalizing s with
  | nil =>
      obtain rfl : s = s' := by simpa [run] using h
      simp
  | cons e rest ih =>
      obtain ⟨hok, mid, hmid, hrest⟩ := run_cons_eq_some.mp h
      have hless := hstep s e mid hok hmid
      have hle := ih hrest
      simp only [List.length_cons]
      omega

end Logs

end TransitionSystem
