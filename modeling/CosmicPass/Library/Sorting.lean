import Mathlib.Data.List.Sort

/-!
# Lists with one sorted arrangement

An order that ties no two different elements of a list sorts it in one way, whatever algorithm does it
and in whatever order the elements are given.
-/

namespace Sorting

variable {α : Type*} {r : α → α → Prop} {l other : List α}

/-- Two elements that come before each other are the same. -/
def Separates (r : α → α → Prop) (l : List α) : Prop :=
  ∀ a ∈ l, ∀ b ∈ l, r a b → r b a → a = b

theorem Separates.mono (h : Separates r l) (hsub : other ⊆ l) : Separates r other :=
  fun a ha b hb => h a (hsub ha) b (hsub hb)

theorem Separates.eq_of_perm (h : Separates r l) (hperm : other.Perm l) (hother : other.Pairwise r)
    (hl : l.Pairwise r) : other = l :=
  hperm.eq_of_pairwise (fun a b ha hb => h a (hperm.subset ha) b hb) hother hl

theorem Separates.pairwise_strict (h : Separates r l) (hnodup : l.Nodup) (hl : l.Pairwise r) :
    l.Pairwise fun a b => r a b ∧ ¬ r b a := by
  induction l with
  | nil => exact .nil
  | cons first rest ih =>
      obtain ⟨hfirst, hrest⟩ := List.pairwise_cons.mp hl
      obtain ⟨hnew, hnodup⟩ := List.nodup_cons.mp hnodup
      refine List.pairwise_cons.mpr ⟨fun b hb => ⟨hfirst b hb, fun hback => hnew ?_⟩,
        ih (h.mono (List.subset_cons_self _ _)) hnodup hrest⟩
      have heq : first = b :=
        h first List.mem_cons_self b (List.mem_cons_of_mem _ hb) (hfirst b hb) hback
      rwa [heq]

section Sorted

variable [DecidableRel r] [Std.Total r] [IsTrans α r]

/-- **The sorted arrangement is one**: a list that is sorted and holds the same elements is it. -/
theorem Separates.eq_insertionSort (h : Separates r l) (hperm : other.Perm l)
    (hother : other.Pairwise r) : other = l.insertionSort r :=
  (h.mono (List.perm_insertionSort r l).subset).eq_of_perm
    (hperm.trans (List.perm_insertionSort r l).symm) hother (List.pairwise_insertionSort r l)

theorem Separates.insertionSort_perm (h : Separates r l) (hperm : other.Perm l) :
    other.insertionSort r = l.insertionSort r :=
  h.eq_insertionSort ((List.perm_insertionSort r other).trans hperm)
    (List.pairwise_insertionSort r other)

theorem Separates.pairwise_insertionSort (h : Separates r l) (hnodup : l.Nodup) :
    (l.insertionSort r).Pairwise fun a b => r a b ∧ ¬ r b a :=
  (h.mono (List.perm_insertionSort r l).subset).pairwise_strict
    ((List.perm_insertionSort r l).nodup_iff.mpr hnodup) (List.pairwise_insertionSort r l)

end Sorted

/-! ### Orders given by a comparison -/

section Comparison

variable {cmp : α → α → Ordering}

instance total_of_orientedCmp [Std.OrientedCmp cmp] : Std.Total fun a b => cmp a b ≠ .gt where
  total a b := by
    by_contra hboth
    rw [not_or, not_not, not_not] at hboth
    rw [@Std.OrientedCmp.eq_swap _ cmp _ a b, hboth.2] at hboth
    simp at hboth

instance isTrans_of_transCmp [Std.TransCmp cmp] : IsTrans α fun a b => cmp a b ≠ .gt where
  trans a b c hab hbc := by
    have hle : (cmp a c).isLE := Std.TransCmp.isLE_trans
      (Ordering.isLE_iff_ne_gt.mpr hab) (Ordering.isLE_iff_ne_gt.mpr hbc)
    exact Ordering.isLE_iff_ne_gt.mp hle

theorem separates_of_eq [Std.OrientedCmp cmp] (h : ∀ a ∈ l, ∀ b ∈ l, cmp a b = .eq → a = b) :
    Separates (fun a b => cmp a b ≠ .gt) l := by
  intro a ha b hb hab hba
  apply h a ha b hb
  rw [@Std.OrientedCmp.eq_swap _ cmp _ b a] at hba
  cases hcmp : cmp a b with
  | lt => simp [hcmp] at hba
  | eq => rfl
  | gt => exact absurd hcmp hab

theorem eq_lt_of_strict [Std.OrientedCmp cmp] {a b : α}
    (h : cmp a b ≠ .gt ∧ ¬ cmp b a ≠ .gt) : cmp a b = .lt := by
  rw [not_not] at h
  rw [@Std.OrientedCmp.eq_swap _ cmp _ a b, h.2]
  rfl

end Comparison

end Sorting
