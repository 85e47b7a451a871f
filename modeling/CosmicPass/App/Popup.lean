import CosmicPass.App.Surface
import CosmicPass.Library.TransitionSystem

/-!
# What the compositor is asked for

The popup as the compositor and the log see it: one layer surface, which is created when it is not
there and at least the debounce time after it last went away, and destroyed when it is; and at most
one latency for each opening, the time from the request that led to it.
-/

namespace CosmicPass

inductive Popup where
  | off (since : Option Nat)
  /-- The surface was asked for at `since`; its latency has been reported or not. -/
  | on (since : Nat) (measured : Bool)
deriving DecidableEq

namespace Popup

def isOn : Popup → Bool
  | off _ => false
  | on _ _ => true

/-- The request whose latency is still to be reported. -/
def pending : Popup → Option Nat
  | on since false => some since
  | on _ true | off _ => none

def read (id : WindowId) (p : Popup) : Nat × AppTask → Option Popup
  | (instant, .createSurface created) =>
      match p with
      | off since =>
          if created = id ∧ ∀ hidden ∈ since, hidden + toggleDebounce ≤ instant then
            some (on instant false)
          else none
      | on _ _ => none
  | (instant, .destroySurface destroyed) =>
      match p with
      | on _ _ => if destroyed = id then some (off (some instant)) else none
      | off _ => none
  | (instant, .logOpenLatency elapsed) =>
      match p with
      | on since false => if elapsed = instant - since then some (on since true) else none
      | on _ true | off _ => none
  | (_, .focusSearch) | (_, .snapTo _ _) | (_, .openUrl _) => some p

def system (id : WindowId) : TransitionSystem Popup (Nat × AppTask) :=
  { init := fun p => p = off none
    step := read id }

/-- Reads a log from the start. -/
def readLog (id : WindowId) (log : List (Nat × AppTask)) : Option Popup :=
  (system id).run TransitionSystem.anyStep (off none) log

/-- Concerns the surface or its latency. -/
def concerns : AppTask → Bool
  | .createSurface _ | .destroySurface _ | .logOpenLatency _ => true
  | .focusSearch | .snapTo _ _ | .openUrl _ => false

variable {id : WindowId} {p p' : Popup} {instant : Nat} {task : AppTask}

theorem read_of_not_concerns (h : concerns task = false) : read id p (instant, task) = some p := by
  cases task <;> simp_all [concerns, read]

theorem of_read_create {created : WindowId}
    (h : read id p (instant, .createSurface created) = some p') :
    created = id ∧ p' = on instant false ∧
      ∃ since, p = off since ∧ ∀ hidden ∈ since, hidden + toggleDebounce ≤ instant := by
  cases p with
  | off since =>
      simp only [read, Option.ite_none_right_eq_some, Option.some.injEq] at h
      exact ⟨h.1.1, h.2.symm, since, rfl, h.1.2⟩
  | on => simp [read] at h

theorem of_read_latency {elapsed : Nat}
    (h : read id p (instant, .logOpenLatency elapsed) = some p') :
    ∃ since, p = on since false ∧ elapsed = instant - since ∧ p' = on since true := by
  simp only [read] at h
  split at h
  next since =>
      simp only [Option.ite_none_right_eq_some, Option.some.injEq] at h
      exact ⟨since, rfl, h.1, h.2.symm⟩
  next => simp at h
  next => simp at h

theorem of_read_destroy {destroyed : WindowId}
    (h : read id p (instant, .destroySurface destroyed) = some p') :
    destroyed = id ∧ p' = off (some instant) := by
  cases p with
  | off => simp [read] at h
  | on =>
      simp only [read, Option.ite_none_right_eq_some, Option.some.injEq] at h
      exact ⟨h.1, h.2.symm⟩

/-- Only a task that concerns the surface changes what is read. -/
theorem concerns_of_ne (h : read id p (instant, task) = some p') (hne : p ≠ p') : concerns task := by
  cases hconcerns : concerns task with
  | true => rfl
  | false =>
      rw [read_of_not_concerns hconcerns] at h
      exact absurd (Option.some.inj h) hne

/-- The popup goes off the screen when its surface is destroyed. -/
theorem destroyed_of_read {since : Option Nat} (h : read id p (instant, task) = some (off since))
    (hne : p ≠ off since) : since = some instant ∧ task = .destroySurface id := by
  have hconcerns := concerns_of_ne h hne
  cases task with
  | createSurface => cases (of_read_create h).2.1
  | destroySurface =>
      obtain ⟨rfl, hoff⟩ := of_read_destroy h
      exact ⟨off.inj hoff, rfl⟩
  | logOpenLatency =>
      obtain ⟨_, -, -, hon⟩ := of_read_latency h
      cases hon
  | _ => simp [concerns] at hconcerns

/-- It comes on the screen, not measured yet, when its surface is created. -/
theorem created_of_read {since : Nat} (h : read id p (instant, task) = some (on since false))
    (hne : p ≠ on since false) : since = instant ∧ task = .createSurface id := by
  have hconcerns := concerns_of_ne h hne
  cases task with
  | createSurface =>
      obtain ⟨rfl, hon, -⟩ := of_read_create h
      exact ⟨(on.inj hon).1, rfl⟩
  | destroySurface => cases (of_read_destroy h).2
  | logOpenLatency =>
      obtain ⟨_, -, -, hon⟩ := of_read_latency h
      cases hon
  | _ => simp [concerns] at hconcerns

/-- What leaves an opening as it is does not concern it. -/
theorem not_concerns_of_read {since : Nat}
    (h : read id (on since false) (instant, task) = some (on since false)) :
    concerns task = false := by
  cases task with
  | createSurface =>
      obtain ⟨-, -, _, hoff, -⟩ := of_read_create h
      cases hoff
  | destroySurface => cases (of_read_destroy h).2
  | logOpenLatency =>
      obtain ⟨_, -, -, hon⟩ := of_read_latency h
      cases hon
  | _ => rfl

end Popup

end CosmicPass
