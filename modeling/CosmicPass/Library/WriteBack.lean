import CosmicPass.Library.TransitionSystem
import Mathlib.Data.List.Basic

/-!
# A value written back, and the echoes of its writes

A client edits a value and has each new value written to a store. The writes are done in any order, and
the store reports each of them, in the order they were done, to the client, which takes what is reported
for its value. A report is *in step* if what it carries is the client's value already. In a run whose
reports are all in step no edit is taken back, and once every write is done and reported the store holds
the client's value.

The client never takes a value as it is, but what `accept` makes of it.
-/

structure WriteBack (α : Type*) where
  value : α
  stored : α
  /-- Values to be written, in any order. -/
  saving : List α
  /-- Values written and not reported yet, oldest first. -/
  echoes : List α

namespace WriteBack

variable {α : Type*}

inductive Event (α : Type*) where
  | edit (v : α)
  | write (i : Nat)
  | echo

section Runs

variable (accept : α → α)

def start (v : α) : WriteBack α := { value := accept v, stored := v, saving := [], echoes := [] }

def InStep (s : WriteBack α) (e : Event α) : Prop :=
  e = .echo → ∀ v ∈ s.echoes.head?, accept v = s.value

/-- What holds between the value, the store, which held `first` at the start, and what is on its
way. -/
structure Tracked (first : α) (s : WriteBack α) : Prop where
  accepted : ∀ v ∈ s.saving ++ s.echoes, accept v = v
  value : accept s.value = s.value
  newest : ∀ v ∈ s.echoes.getLast?, v = s.stored
  stored : s.stored = first ∨ accept s.stored = s.stored
  atRest : s.saving = [] → s.echoes = [] → accept s.stored = s.value

variable [DecidableEq α]

def step (s : WriteBack α) : Event α → Option (WriteBack α)
  | .edit v =>
      if accept v = s.value then some s
      else some { s with value := accept v, saving := s.saving ++ [accept v] }
  | .write i =>
      match s.saving[i]? with
      | none => none
      | some v =>
          some { s with stored := v, saving := s.saving.eraseIdx i, echoes := s.echoes ++ [v] }
  | .echo =>
      match s.echoes with
      | [] => none
      | v :: rest => some { s with value := accept v, echoes := rest }

def system (v : α) : TransitionSystem (WriteBack α) (Event α) :=
  { init := fun s => s = start accept v
    step := step accept }

variable {accept}

theorem Tracked.step (hidem : ∀ v, accept (accept v) = accept v) {first : α} {s s' : WriteBack α}
    {e : Event α} (h : Tracked accept first s) (hguard : InStep accept s e)
    (hstep : step accept s e = some s') : Tracked accept first s' := by
  cases e with
  | edit v =>
      simp only [WriteBack.step] at hstep
      split at hstep
      next => exact Option.some.inj hstep ▸ h
      next =>
        obtain rfl := Option.some.inj hstep
        refine ⟨?_, hidem v, h.newest, h.stored, by simp⟩
        intro x hmem
        simp only [List.append_assoc, List.mem_append, List.mem_singleton] at hmem
        rcases hmem with hsaving | rfl | hecho
        · exact h.accepted x (by simp [hsaving])
        · exact hidem v
        · exact h.accepted x (by simp [hecho])
  | write i =>
      simp only [WriteBack.step] at hstep
      split at hstep
      next => simp at hstep
      next v hsaving =>
        obtain rfl := Option.some.inj hstep
        have hmem : v ∈ s.saving := List.mem_of_getElem? hsaving
        have hv : accept v = v := h.accepted v (by simp [hmem])
        refine ⟨?_, h.value, by simp, Or.inr hv, by simp⟩
        intro x hx
        simp only [List.mem_append, List.mem_singleton] at hx
        rcases hx with hleft | hecho | rfl
        · exact h.accepted x (by simp [List.mem_of_mem_eraseIdx hleft])
        · exact h.accepted x (by simp [hecho])
        · exact hv
  | echo =>
      simp only [WriteBack.step] at hstep
      split at hstep
      next => simp at hstep
      next v rest hechoes =>
        obtain rfl := Option.some.inj hstep
        have hvalue : accept v = s.value := hguard rfl v (by simp [hechoes])
        refine ⟨fun x hx => h.accepted x ?_, hidem v, fun x hx => h.newest x ?_, h.stored,
          fun hsaving hrest => ?_⟩
        · rcases List.mem_append.mp hx with hsaving | hrest
          · simp [hsaving]
          · simp [hechoes, hrest]
        · cases rest with
          | nil => simp at hx
          | cons y rest => simpa [hechoes] using hx
        · -- the last report carries what is stored, and it was in step
          have hstored : v = s.stored := h.newest v (by simp_all)
          rw [← hstored]

/-- **Once nothing is on its way, the store holds the client's value**, if every report was in step. -/
theorem tracked_of_reach (hidem : ∀ v, accept (accept v) = accept v) {first : α} {s : WriteBack α}
    (h : (system accept first).Reach (InStep accept) s) : Tracked accept first s := by
  induction h with
  | start hinit =>
      obtain rfl : _ = start accept first := hinit
      exact ⟨by simp [start], hidem first, by simp [start], Or.inl rfl, fun _ _ => rfl⟩
  | next _ hguard hstep ih => exact ih.step hidem hguard hstep

end Runs

end WriteBack
