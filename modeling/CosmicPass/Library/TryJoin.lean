import CosmicPass.Library.Slots
import CosmicPass.Library.TransitionSystem

/-!
# Fallible tasks joined

Tasks that run beside each other and are joined: the join returns all their values, in the order of
the tasks, once each has come back with one, or the failure of one of them without waiting for the
rest, which are dropped. Which failure it is, where several tasks have failed, is left open.

`outcomes` is what each task comes back with, if it is let run. However the tasks are interleaved,
the join returns values just when running the tasks in turn does, and the same ones.
-/

structure TryJoin (ε β : Type*) where
  /-- What the tasks have come back with so far. -/
  answers : List (Option (Except ε β))
  result : Option (Except ε (List β))

inductive TryJoin.Event where
  | settle (id : Nat)
  | fail (id : Nat)
  | finish
deriving DecidableEq

namespace TryJoin

variable {ε β : Type*} {outcomes : List (Except ε β)} {s s' : TryJoin ε β} {values : List β}

def start (outcomes : List (Except ε β)) : TryJoin ε β :=
  { answers := outcomes.map fun _ => none, result := none }

/-- The values of the tasks, once all of them have one. -/
def gather : List (Option (Except ε β)) → Option (List β)
  | [] => some []
  | some (.ok value) :: rest => (gather rest).map (value :: ·)
  | _ => none

variable (outcomes) in
def step (s : TryJoin ε β) : Event → Option (TryJoin ε β)
  | .settle id =>
      match s.result, s.answers[id]?, outcomes[id]? with
      | none, some none, some outcome => some { s with answers := s.answers.set id (some outcome) }
      | _, _, _ => none
  | .fail id =>
      match s.result, s.answers[id]? with
      | none, some (some (.error error)) => some { s with result := some (.error error) }
      | _, _ => none
  | .finish =>
      match s.result, gather s.answers with
      | none, some values => some { s with result := some (.ok values) }
      | _, _ => none

variable (outcomes) in
def system : TransitionSystem (TryJoin ε β) Event :=
  { init := fun s => s = start outcomes
    step := step outcomes }

theorem gather_eq_some {answers : List (Option (Except ε β))} :
    gather answers = some values ↔ answers = values.map fun value => some (.ok value) := by
  induction answers generalizing values with
  | nil => cases values <;> simp [gather]
  | cons answer rest ih =>
      cases answer with
      | none => cases values <;> simp [gather]
      | some outcome =>
          cases outcome with
          | error error => cases values <;> simp [gather]
          | ok value =>
              cases values with
              | nil => simp [gather]
              | cons first later => simp [gather, ih, and_comm]

/-- Tasks run in turn return values just when each has one. -/
theorem mapM_id_eq_ok {outcomes : List (Except ε β)} :
    outcomes.mapM id = Except.ok values ↔ outcomes = values.map .ok := by
  induction outcomes generalizing values with
  | nil => cases values <;> simp [pure, Except.pure]
  | cons outcome rest ih =>
      rw [List.mapM_cons]
      cases outcome with
      | error error => cases values <;> simp [bind, Except.bind]
      | ok value =>
          cases hrest : rest.mapM id with
          | error error =>
              have hnot : ∀ later : List β, rest ≠ later.map .ok := by
                intro later heq
                simp [ih.mpr heq] at hrest
              cases values <;> simp [bind, Except.bind, hnot]
          | ok later =>
              have heq := ih.mp hrest
              cases values with
              | nil => simp [bind, Except.bind, pure, Except.pure]
              | cons first others =>
                  simp only [bind, Except.bind, id, pure, Except.pure, Except.ok.injEq, List.cons.injEq,
                    List.map_cons]
                  refine and_congr_right fun _ => ⟨fun h => h ▸ heq, fun h => ?_⟩
                  exact List.map_injective_iff.mpr (fun _ _ => Except.ok.inj) (heq.symm.trans h)

/-- What has come back is what the tasks come back with, and the result is drawn from it. -/
structure Agrees (outcomes : List (Except ε β)) (s : TryJoin ε β) : Prop where
  length : s.answers.length = outcomes.length
  answers : ∀ (id : Nat) outcome, s.answers[id]? = some (some outcome) → outcomes[id]? = some outcome
  ok : ∀ values, s.result = some (.ok values) → outcomes = values.map .ok
  error : ∀ error, s.result = some (.error error) → .error error ∈ outcomes

theorem Agrees.step (h : s.Agrees outcomes) {e : Event} (hstep : step outcomes s e = some s') :
    s'.Agrees outcomes := by
  cases e with
  | settle id =>
      simp only [TryJoin.step] at hstep
      split at hstep
      next outcome hresult hpending houtcome =>
        obtain rfl := Option.some.inj hstep
        refine ⟨by simpa using h.length, fun other found hfound => ?_, ?_, ?_⟩
        · rcases List.getElem?_set_cases hfound with ⟨rfl, heq⟩ | ⟨-, hold⟩
          · rw [Option.some.inj heq]
            exact houtcome
          · exact h.answers other found hold
        · simp [hresult]
        · simp [hresult]
      next => simp at hstep
  | fail id =>
      simp only [TryJoin.step] at hstep
      split at hstep
      next error hresult hfailed =>
        obtain rfl := Option.some.inj hstep
        refine ⟨h.length, h.answers, by simp, fun other hother => ?_⟩
        obtain rfl := Except.error.inj (Option.some.inj hother)
        exact List.mem_of_getElem? (h.answers id _ hfailed)
      next => simp at hstep
  | finish =>
      simp only [TryJoin.step] at hstep
      split at hstep
      next values hresult hgathered =>
        obtain rfl := Option.some.inj hstep
        refine ⟨h.length, h.answers, fun others hothers => ?_, by simp⟩
        obtain rfl := Except.ok.inj (Option.some.inj hothers)
        rw [gather_eq_some] at hgathered
        refine List.ext_getElem? fun id => ?_
        cases hvalue : values[id]? with
        | none =>
            have hlength : outcomes.length = values.length := by
              rw [← h.length, hgathered, List.length_map]
            rw [List.getElem?_map, hvalue, Option.map_none, List.getElem?_eq_none_iff, hlength]
            exact List.getElem?_eq_none_iff.mp hvalue
        | some value =>
            rw [List.getElem?_map, hvalue, Option.map_some]
            refine h.answers id _ ?_
            rw [hgathered, List.getElem?_map, hvalue, Option.map_some]
      next => simp at hstep

variable {guard : TryJoin ε β → Event → Prop}

theorem agrees_of_reach (h : (system outcomes).Reach guard s) : s.Agrees outcomes := by
  apply h.invariant
  · rintro _ rfl
    refine ⟨by simp [start], ?_, by simp [start], by simp [start]⟩
    intro id outcome hanswer
    rw [start, List.getElem?_map] at hanswer
    cases houtcome : outcomes[id]? <;> simp [houtcome] at hanswer
  · intro s e s' _ _ hstep hagrees
    exact hagrees.step hstep

/-- **Joined or in turn.** Whatever order the tasks come back in, the values are those of the tasks
run one after the other; and a failure is the failure of one of them. -/
theorem result_of_reach (h : (system outcomes).Reach guard s) {result : Except ε (List β)}
    (hresult : s.result = some result) :
    (∀ values, result = .ok values ↔ outcomes.mapM id = .ok values) ∧
      ∀ error, result = .error error → .error error ∈ outcomes := by
  have hagrees := agrees_of_reach h
  refine ⟨fun values => ?_, fun error herror => hagrees.error error (herror ▸ hresult)⟩
  rw [mapM_id_eq_ok]
  constructor
  · rintro rfl
    exact hagrees.ok values hresult
  · intro hall
    cases result with
    | ok others =>
        have heq := (hagrees.ok others hresult).symm.trans hall
        rw [List.map_injective_iff.mpr (fun _ _ => Except.ok.inj) heq]
    | error error =>
        have hmem := hagrees.error error hresult
        rw [hall] at hmem
        simp at hmem

/-- A join that has not returned can go on. -/
theorem exists_step (h : s.Agrees outcomes) (hopen : s.result = none) :
    ∃ e, (step outcomes s e).isSome := by
  by_cases hpending : ∃ id : Nat, s.answers[id]? = some none
  · obtain ⟨id, hid⟩ := hpending
    have hlt : id < outcomes.length := h.length ▸ (List.getElem?_eq_some_iff.mp hid).1
    refine ⟨.settle id, ?_⟩
    simp [step, hopen, hid, List.getElem?_eq_getElem hlt]
  · by_cases hfailed : ∃ (id : Nat) (error : ε), s.answers[id]? = some (some (.error error))
    · obtain ⟨id, error, hid⟩ := hfailed
      exact ⟨.fail id, by simp [step, hopen, hid]⟩
    · refine ⟨.finish, ?_⟩
      suffices hgathered : (gather s.answers).isSome by
        obtain ⟨values, hvalues⟩ := Option.isSome_iff_exists.mp hgathered
        simp [step, hopen, hvalues]
      have hall : ∀ answer ∈ s.answers, ∃ value, answer = some (.ok value) := by
        intro answer hmem
        obtain ⟨id, hid⟩ := List.mem_iff_getElem?.mp hmem
        cases answer with
        | none => exact absurd ⟨id, hid⟩ hpending
        | some outcome =>
            cases outcome with
            | error error => exact absurd ⟨id, error, hid⟩ hfailed
            | ok value => exact ⟨value, rfl⟩
      generalize s.answers = answers at hall
      induction answers with
      | nil => rfl
      | cons answer rest ih =>
          obtain ⟨value, rfl⟩ := hall answer (List.mem_cons_self ..)
          simpa [gather] using ih fun later hmem => hall later (List.mem_cons_of_mem _ hmem)

/-- The tasks that have not come back, and the result. -/
def pending (s : TryJoin ε β) : Nat :=
  s.answers.countP (·.isNone) + s.result.isNone.toNat

theorem pending_lt_of_step {e : Event} (hstep : step outcomes s e = some s') :
    s'.pending < s.pending := by
  cases e with
  | settle id =>
      simp only [TryJoin.step] at hstep
      split at hstep
      next outcome _ hpending _ =>
        obtain rfl := Option.some.inj hstep
        have hcount : (s.answers.set id (some outcome)).countP (·.isNone) + 1 =
            s.answers.countP (·.isNone) + 0 := List.countP_set_of_some hpending
        simp only [pending]
        omega
      next => simp at hstep
  | fail id =>
      simp only [TryJoin.step] at hstep
      split at hstep
      next hresult _ =>
        obtain rfl := Option.some.inj hstep
        simp [pending, hresult]
      next => simp at hstep
  | finish =>
      simp only [TryJoin.step] at hstep
      split at hstep
      next hresult _ =>
        obtain rfl := Option.some.inj hstep
        simp [pending, hresult]
      next => simp at hstep

end TryJoin
