import Mathlib.Data.List.Induction
import Mathlib.Tactic.TypeStar

/-!
# A register that can be locked

A register holds the value last written to it, until it is cleared. While it is locked, a write is
lost; clearing it works all the same. `content_eq_some_iff` says what it holds in terms of the
operations performed, so a store that follows the register can be specified by its history.
-/

structure Register (α : Type*) where
  content : Option α
  locked : Bool

namespace Register

variable {α : Type*}

inductive Op (α : Type*) where
  | write (value : α)
  | read
  | clear
  | lock (locked : Bool)
deriving DecidableEq

def perform (r : Register α) : Op α → Register α
  | .write value => if r.locked then r else { r with content := some value }
  | .read => r
  | .clear => { r with content := none }
  | .lock locked => { r with locked }

def performAll (r : Register α) (ops : List (Op α)) : Register α := ops.foldl perform r

/-- Whether the register is locked after these operations. -/
def lockedAfter (locked : Bool) (ops : List (Op α)) : Bool :=
  ops.foldl (fun locked op => match op with
    | .lock now => now
    | _ => locked) locked

/-- The last write that was not lost, with no clear after it. -/
def LastWrite (locked : Bool) (ops : List (Op α)) (value : α) : Prop :=
  ∃ before after, ops = before ++ .write value :: after ∧ lockedAfter locked before = false ∧
    .clear ∉ after ∧ ∀ earlier later other, after = earlier ++ .write other :: later →
      lockedAfter locked (before ++ .write value :: earlier) = true

@[simp] theorem lockedAfter_append (locked : Bool) (ops rest : List (Op α)) :
    lockedAfter locked (ops ++ rest) = lockedAfter (lockedAfter locked ops) rest :=
  List.foldl_append

@[simp] theorem performAll_append (r : Register α) (ops rest : List (Op α)) :
    r.performAll (ops ++ rest) = (r.performAll ops).performAll rest :=
  List.foldl_append

theorem locked_performAll (r : Register α) (ops : List (Op α)) :
    (r.performAll ops).locked = lockedAfter r.locked ops := by
  induction ops using List.reverseRecOn with
  | nil => rfl
  | append_singleton ops op ih =>
      rw [performAll_append, lockedAfter_append, ← ih]
      cases op with
      | write value =>
          simp only [performAll, List.foldl_cons, List.foldl_nil, perform, lockedAfter]
          split <;> rfl
      | _ => rfl

/-- An operation that is neither a clear nor a write that takes leaves the last write as it was. -/
theorem lastWrite_append_iff {locked : Bool} {ops : List (Op α)} {op : Op α} {value : α}
    (hclear : op ≠ .clear) (hlost : ∀ other, op = .write other → lockedAfter locked ops = true) :
    LastWrite locked (ops ++ [op]) value ↔ LastWrite locked ops value := by
  constructor
  · rintro ⟨before, after, heq, hopen, hkept, hwrites⟩
    rcases List.eq_nil_or_concat after with rfl | ⟨rest, last, rfl⟩
    · obtain ⟨rfl, hop⟩ := List.append_inj' heq rfl
      have hlocked := hlost value (List.cons.inj hop).1
      rw [hopen] at hlocked
      exact absurd hlocked (by simp)
    · rw [List.concat_eq_append, ← List.cons_append, ← List.append_assoc] at heq
      obtain ⟨rfl, -⟩ := List.append_inj' heq rfl
      refine ⟨before, rest, rfl, hopen, fun hmem => hkept (by simp [hmem]), ?_⟩
      intro earlier later other hrest
      exact hwrites earlier (later ++ [last]) other (by simp [hrest])
  · rintro ⟨before, after, rfl, hopen, hkept, hwrites⟩
    refine ⟨before, after ++ [op], by simp, hopen, by simp [hkept, hclear.symm], ?_⟩
    intro earlier later other heq
    rcases List.eq_nil_or_concat later with rfl | ⟨rest, last, rfl⟩
    · obtain ⟨rfl, hop⟩ := List.append_inj' heq rfl
      exact hlost other (List.cons.inj hop).1
    · rw [List.concat_eq_append, ← List.cons_append, ← List.append_assoc] at heq
      obtain ⟨hafter, -⟩ := List.append_inj' heq rfl
      exact hwrites earlier rest other hafter

theorem not_lastWrite_append_clear {locked : Bool} {ops : List (Op α)} {value : α} :
    ¬ LastWrite locked (ops ++ [.clear]) value := by
  rintro ⟨before, after, heq, -, hkept, -⟩
  rcases List.eq_nil_or_concat after with rfl | ⟨rest, last, rfl⟩
  · obtain ⟨-, hop⟩ := List.append_inj' heq rfl
    cases (List.cons.inj hop).1
  · rw [List.concat_eq_append, ← List.cons_append, ← List.append_assoc] at heq
    obtain ⟨-, hlast⟩ := List.append_inj' heq rfl
    obtain rfl := (List.cons.inj hlast).1
    exact hkept (by simp)

theorem lastWrite_append_write {locked : Bool} {ops : List (Op α)} {value other : α}
    (hopen : lockedAfter locked ops = false) :
    LastWrite locked (ops ++ [.write other]) value ↔ other = value := by
  constructor
  · rintro ⟨before, after, heq, -, -, hwrites⟩
    rcases List.eq_nil_or_concat after with rfl | ⟨rest, last, rfl⟩
    · obtain ⟨-, hop⟩ := List.append_inj' heq rfl
      exact Op.write.inj (List.cons.inj hop).1
    · rw [List.concat_eq_append, ← List.cons_append, ← List.append_assoc] at heq
      obtain ⟨rfl, hlast⟩ := List.append_inj' heq rfl
      obtain rfl := (List.cons.inj hlast).1
      have hlocked := hwrites rest [] other (by simp)
      rw [hopen] at hlocked
      exact absurd hlocked (by simp)
  · rintro rfl
    exact ⟨ops, [], rfl, hopen, by simp, by simp⟩

/-- **What the register holds** is its last write. -/
theorem content_eq_some_iff (locked : Bool) (ops : List (Op α)) (value : α) :
    (performAll ⟨none, locked⟩ ops).content = some value ↔ LastWrite locked ops value := by
  induction ops using List.reverseRecOn with
  | nil => simp [performAll, LastWrite]
  | append_singleton ops op ih =>
      have hlocked := locked_performAll ⟨none, locked⟩ ops
      rw [performAll_append]
      cases op with
      | write other =>
          simp only [performAll, List.foldl_cons, List.foldl_nil, perform] at hlocked ih ⊢
          split
          next hlost =>
            rw [ih, lastWrite_append_iff (by simp)]
            intro _ _
            rw [← hlocked, hlost]
          next hopen =>
            rw [lastWrite_append_write (by rw [← hlocked]; simpa using hopen)]
            simp
      | read | lock => rw [lastWrite_append_iff (by simp) (by simp), ← ih]; rfl
      | clear => exact iff_of_false (by simp [performAll, perform]) not_lastWrite_append_clear

end Register
