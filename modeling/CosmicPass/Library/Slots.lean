import Mathlib.Data.List.Basic
import Mathlib.Data.List.Count

/-!
# Lists as numbered slots

A list that only grows at its end numbers what it holds. What is at a slot after one more entry, or
after one slot has changed, is what was there before or the new entry.
-/

namespace List

variable {α : Type*} {l : List α} {i j : Nat} {a b : α}

theorem getElem?_append_of_some {rest : List α} (h : l[i]? = some a) : (l ++ rest)[i]? = some a := by
  rw [getElem?_append_left (getElem?_eq_some_iff.mp h).1, h]

theorem getElem?_concat_cases (h : (l ++ [b])[i]? = some a) :
    l[i]? = some a ∨ i = l.length ∧ a = b := by
  rcases Nat.lt_or_ge i l.length with hlt | hge
  · exact .inl (by rwa [getElem?_append_left hlt] at h)
  · rw [getElem?_append_right hge] at h
    have hzero := (getElem?_eq_some_iff.mp h).1
    rw [length_singleton, Nat.lt_one_iff] at hzero
    rw [hzero] at h
    exact .inr ⟨by omega, (Option.some.inj h).symm⟩

theorem getElem?_set_cases (h : (l.set i b)[j]? = some a) :
    i = j ∧ a = b ∨ i ≠ j ∧ l[j]? = some a := by
  by_cases hij : i = j
  · subst hij
    rw [getElem?_set_self'] at h
    obtain ⟨_, -, rfl⟩ := Option.map_eq_some_iff.mp h
    exact .inl ⟨rfl, rfl⟩
  · exact .inr ⟨hij, by rwa [getElem?_set_ne hij] at h⟩

theorem getElem?_set_of_some (h : l[i]? = some a) : (l.set i b)[i]? = some b :=
  getElem?_set_self (getElem?_eq_some_iff.mp h).1

/-- Where nothing is left out, each slot is filled from the same one. -/
theorem getElem?_filterMap_of_isSome {β : Type*} {f : α → Option β} (h : ∀ a ∈ l, (f a).isSome)
    (i : Nat) : (l.filterMap f)[i]? = l[i]?.bind f := by
  induction l generalizing i with
  | nil => rfl
  | cons first rest ih =>
      obtain ⟨b, hb⟩ := Option.isSome_iff_exists.mp (h first mem_cons_self)
      rw [filterMap_cons_some hb]
      cases i with
      | zero => simp [hb]
      | succ i => simpa using ih (fun a hmem => h a (mem_cons_of_mem _ hmem)) i

theorem countP_set_of_some {p : α → Bool} (h : l[i]? = some a) :
    (l.set i b).countP p + (p a).toNat = l.countP p + (p b).toNat := by
  obtain ⟨hlt, rfl⟩ := getElem?_eq_some_iff.mp h
  rw [countP_set hlt]
  cases hp : p l[i] with
  | true =>
      have hpos : 0 < l.countP p := countP_pos_iff.mpr ⟨_, getElem_mem hlt, hp⟩
      cases p b <;> simp <;> omega
  | false => cases p b <;> simp

theorem modify_of_some {f : α → α} (h : l[i]? = some a) : l.modify i f = l.set i (f a) := by
  refine ext_getElem? fun j => ?_
  rw [getElem?_modify]
  by_cases hij : i = j
  · subst hij
    rw [getElem?_set_of_some h]
    simp [h]
  · simp [hij]

/-- One slot counts for one at most. -/
theorem countP_le_modify (p : α → Bool) (f : α → α) (l : List α) (i : Nat) :
    l.countP p ≤ (l.modify i f).countP p + 1 := by
  cases h : l[i]? with
  | none => simp [modify_eq_self (getElem?_eq_none_iff.mp h)]
  | some a =>
      have hset := countP_set_of_some (p := p) (b := f a) h
      have hone := Bool.toNat_le (p a)
      rw [modify_of_some h]
      omega

end List
