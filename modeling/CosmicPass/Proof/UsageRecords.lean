import CosmicPass.Library.Sorting
import CosmicPass.Library.TransitionSystem
import CosmicPass.Proof.UsageTable
import Mathlib.Data.Prod.Lex

/-!
# The table as a bounded set of the most recent records

The `HashMap` of the source hands its values out in an order of its own, which may change with every
round of an eviction. `Evicts` is the loop with that order left open. No two records of a table have the
same key, so the least record is the same in every order, and so is what the loop leaves behind.
-/

namespace CosmicPass

/-- What `min_by` returns, where the comparison is that of a key. -/
theorem not_lt_minBy {α β : Type*} [LinearOrder β] {compareOf : α → α → Ordering} {key : α → β}
    (hcompare : ∀ a b, compareOf a b = .gt ↔ key b < key a) {list : List α} {least : α}
    (h : minBy compareOf list = some least) : ∀ a ∈ list, ¬ key a < key least := by
  have hfold : ∀ (rest : List α) (best : α), ∀ a ∈ best :: rest,
      ¬ key a < key (rest.foldl
        (fun best next => if compareOf best next = .gt then next else best) best) := by
    intro rest
    induction rest with
    | nil => simp
    | cons next rest ih =>
        intro best
        rw [List.foldl_cons]
        by_cases hlt : key next < key best
        · rw [if_pos ((hcompare best next).mpr hlt)]
          have hnext := ih next next List.mem_cons_self
          intro a hmem
          rcases List.mem_cons.mp hmem with rfl | hmem
          · exact fun hless => hnext (hlt.trans hless)
          · exact ih next a hmem
        · rw [if_neg fun hgt => hlt ((hcompare best next).mp hgt)]
          have hbest := ih best best List.mem_cons_self
          intro a hmem
          rcases List.mem_cons.mp hmem with rfl | hmem
          · exact hbest
          · rcases List.mem_cons.mp hmem with rfl | hmem
            · exact fun hless => hbest (lt_of_le_of_lt (not_lt.mp hlt) hless)
            · exact ih best a (List.mem_cons_of_mem _ hmem)
  cases list with
  | nil => simp [minBy] at h
  | cons first rest =>
      obtain rfl := Option.some.inj h
      exact hfold rest first

/-- When the item was last used, and which item it is. -/
def UsageRecord.age (r : UsageRecord) : Int ×ₗ ItemKey := toLex (r.lastUsed, r.key)

namespace UsageTable

/-- The comparison of `evict`. -/
def byAge (left right : UsageRecord) : Ordering :=
  (compare left.lastUsed right.lastUsed).then (compare left.key right.key)

theorem byAge_eq_gt (left right : UsageRecord) : byAge left right = .gt ↔ right.age < left.age := by
  simp only [byAge, UsageRecord.age, Ordering.then_eq_gt, compare_gt_iff_gt, compare_eq_iff_eq,
    Prod.Lex.toLex_lt_toLex]
  exact or_congr_right (and_congr_left fun _ => eq_comm)

/-- The loop of `evict`, each round of which sees the records in some order. -/
inductive Evicts : UsageTable → UsageTable → Prop
  | done {t : UsageTable} : t.records.size ≤ maxRecords → Evicts t t
  | round {t left : UsageTable} {order : List UsageRecord} {r : UsageRecord} :
      maxRecords < t.records.size → order.Perm t.records.values → minBy byAge order = some r →
      Evicts ⟨t.records.remove r.key⟩ left → Evicts t left

/-- The table left behind holds the newest records of the table before, and as many as it may. -/
structure KeepsNewest (t left : UsageTable) : Prop where
  size : left.records.size = min t.records.size maxRecords
  kept : ∀ key r, left.records.get? key = some r → t.records.get? key = some r
  newest : ∀ r ∈ left.records.values, ∀ s ∈ t.records.values, s ∉ left.records.values → s.age < r.age

theorem Keyed.get?_key {t : UsageTable} (h : t.Keyed) {r : UsageRecord}
    (hmem : r ∈ t.records.values) : t.records.get? r.key = some r := by
  obtain ⟨key, hget⟩ := OrderedMap.mem_values_iff.mp hmem
  rwa [h key r hget]

theorem Keyed.eq_of_age {t : UsageTable} (h : t.Keyed) {left right : UsageRecord}
    (hleft : left ∈ t.records.values) (hright : right ∈ t.records.values)
    (hage : left.age = right.age) : left = right :=
  h.eq_of_mem_values hleft hright (congrArg (fun age => (ofLex age).2) hage)

/-- The least record is the same in every order. -/
theorem Keyed.minBy_perm {t : UsageTable} (h : t.Keyed) {order : List UsageRecord} {r : UsageRecord}
    (hperm : order.Perm t.records.values) (hleast : minBy byAge order = some r) :
    minBy byAge t.records.values = some r := by
  have hmem : r ∈ t.records.values := hperm.subset (minBy_mem hleast)
  cases hvalues : minBy byAge t.records.values with
  | none =>
      cases hlist : t.records.values with
      | nil => simp [hlist] at hmem
      | cons first rest => simp [hlist, minBy] at hvalues
  | some s =>
      have hs : s ∈ t.records.values := minBy_mem hvalues
      have hle : ¬ s.age < r.age := not_lt_minBy byAge_eq_gt hleast s (hperm.symm.subset hs)
      have hge : ¬ r.age < s.age := not_lt_minBy byAge_eq_gt hvalues r hmem
      rw [h.eq_of_age hs hmem (le_antisymm (not_lt.mp hge) (not_lt.mp hle))]

theorem Keyed.removeOldest_eq {t : UsageTable} (h : t.Keyed) {order : List UsageRecord}
    {r : UsageRecord} (hperm : order.Perm t.records.values) (hleast : minBy byAge order = some r) :
    t.removeOldest = ⟨t.records.remove r.key⟩ := by
  have holdest : t.oldest = some r.key :=
    Option.map_eq_some_iff.mpr ⟨r, h.minBy_perm hperm hleast, rfl⟩
  simp only [UsageTable.removeOldest, holdest]

theorem Keyed.evict_removeOldest {t : UsageTable} (h : t.Keyed) (hsize : maxRecords < t.records.size) :
    t.removeOldest.evict = t.evict := by
  obtain ⟨key, holdest⟩ := t.oldest_isSome (Nat.zero_lt_of_lt hsize)
  have hremoved : t.removeOldest.records.size = t.records.size - 1 := by
    simp only [UsageTable.removeOldest, holdest]
    exact OrderedMap.size_remove (h.oldest_mem holdest)
  have hrounds : t.records.size - maxRecords = (t.records.size - 1 - maxRecords) + 1 := by omega
  rw [UsageTable.evict, UsageTable.evict, hremoved, hrounds, Function.iterate_succ_apply]

theorem Keyed.evicts_evict {t : UsageTable} (h : t.Keyed) : Evicts t t.evict := by
  induction hrank : t.records.size using Nat.strong_induction_on generalizing t with
  | _ n ih =>
      subst hrank
      by_cases hsize : t.records.size ≤ maxRecords
      · rw [evict_eq_self hsize]
        exact .done hsize
      · rw [not_le] at hsize
        obtain ⟨key, holdest⟩ := t.oldest_isSome (Nat.zero_lt_of_lt hsize)
        obtain ⟨r, hleast, -⟩ := Option.map_eq_some_iff.mp holdest
        have hless := h.size_removeOldest
        refine .round hsize (.refl _) hleast ?_
        rw [← h.removeOldest_eq (.refl _) hleast, ← h.evict_removeOldest hsize]
        exact ih _ (by omega) h.removeOldest rfl

/-- **What an eviction leaves behind does not depend on the order of iteration.** -/
theorem Keyed.evicts_iff {t left : UsageTable} (h : t.Keyed) : Evicts t left ↔ left = t.evict := by
  constructor
  · intro hevicts
    induction hevicts with
    | done hsize => exact (evict_eq_self hsize).symm
    | round hsize hperm hleast _ ih =>
        rw [ih (h.remove _), ← h.removeOldest_eq hperm hleast, h.evict_removeOldest hsize]
  · intro hleft
    rw [hleft]
    exact h.evicts_evict

/-- A round takes out the least record, so those left are newer than it. -/
theorem Keyed.keepsNewest_round {t left : UsageTable} (h : t.Keyed) {r : UsageRecord}
    {order : List UsageRecord} (hsize : maxRecords < t.records.size)
    (hperm : order.Perm t.records.values) (hleast : minBy byAge order = some r)
    (hleft : KeepsNewest ⟨t.records.remove r.key⟩ left) : KeepsNewest t left := by
  have hmem : r ∈ t.records.values := hperm.subset (minBy_mem hleast)
  have hget : t.records.get? r.key = some r := h.get?_key hmem
  have hremoved : (t.records.remove r.key).size = t.records.size - 1 :=
    OrderedMap.size_remove (OrderedMap.mem_keys_iff.mpr (by simp [hget]))
  have hkept : ∀ key s, left.records.get? key = some s →
      key ≠ r.key ∧ t.records.get? key = some s := by
    intro key s hs
    have hbefore := hleft.kept key s hs
    rw [OrderedMap.get?_remove] at hbefore
    split at hbefore
    next => simp at hbefore
    next hne => exact ⟨hne, hbefore⟩
  refine ⟨?_, fun key s hs => (hkept key s hs).2, fun s hs dropped hdropped hgone => ?_⟩
  · have hmin := hleft.size
    simp only [hremoved] at hmin
    omega
  · obtain ⟨key, hkey⟩ := OrderedMap.mem_values_iff.mp hs
    obtain ⟨hne, hbefore⟩ := hkept key s hkey
    have hsmem : s ∈ t.records.values := OrderedMap.mem_values_of_get? hbefore
    by_cases heq : dropped = r
    · rw [heq]
      have hle : ¬ s.age < r.age := not_lt_minBy byAge_eq_gt hleast s (hperm.symm.subset hsmem)
      refine lt_of_le_of_ne (not_lt.mp hle) fun hage => hne ?_
      rw [h.eq_of_age hmem hsmem hage, h key s hbefore]
    · have hother : dropped ∈ (t.records.remove r.key).values := by
        apply @OrderedMap.mem_values_of_get? _ _ _ _ dropped.key
        rw [OrderedMap.get?_remove, if_neg fun hkey => heq (h.eq_of_mem_values hdropped hmem hkey)]
        exact h.get?_key hdropped
      exact hleft.newest s hs dropped hother hgone

/-- **An eviction keeps the newest records.** -/
theorem Keyed.keepsNewest {t left : UsageTable} (h : t.Keyed) (hevicts : Evicts t left) :
    KeepsNewest t left := by
  induction hevicts with
  | done hsize =>
      exact ⟨(min_eq_left hsize).symm, fun _ _ hget => hget, fun _ _ _ hmem hgone =>
        absurd hmem hgone⟩
  | round hsize hperm hleast _ ih => exact h.keepsNewest_round hsize hperm hleast (ih (h.remove _))

/-! ### The records written out -/

/-- The order of `records`, which no two records of a table share a place in. -/
def comesBefore (left right : UsageRecord) : Prop :=
  right.lastUsed < left.lastUsed ∨ right.lastUsed = left.lastUsed ∧ left.key < right.key

theorem comesBefore_of_precedes {left right : UsageRecord} (h : precedes left right)
    (hback : ¬ precedes right left) : comesBefore left right := by
  rcases h with hlt | ⟨heq, hkey⟩
  · exact .inl hlt
  · exact .inr ⟨heq, lt_of_not_ge fun hge => hback (.inr ⟨heq.symm, hge⟩)⟩

theorem Keyed.nodup_keys {t : UsageTable} (h : t.Keyed) :
    (t.records.values.map (·.key)).Nodup := by
  have hkeys : t.records.values.map (·.key) = t.records.keys := by
    rw [OrderedMap.values, List.map_map]
    exact List.map_congr_left fun entry hmem => h.key_of_mem hmem
  rw [hkeys]
  exact t.records.nodup_keys

theorem Keyed.pairwise_sortedRecords {t : UsageTable} (h : t.Keyed) :
    t.sortedRecords.Pairwise comesBefore :=
  (h.separates.pairwise_insertionSort h.nodup_keys.of_map).imp fun hbefore =>
    comesBefore_of_precedes hbefore.1 hbefore.2

theorem Keyed.nodup_sortedRecords {t : UsageTable} (h : t.Keyed) :
    (t.sortedRecords.map (·.key)).Nodup :=
  ((List.perm_insertionSort precedes t.records.values).map _).nodup_iff.mpr h.nodup_keys

/-! ### Runs -/

inductive Op where
  | load (records : List UsageRecord)
  | record (key : ItemKey) (now : Int)
  | prune (items : List ItemSummary)

def apply (t : UsageTable) : Op → UsageTable
  | .load records => fromRecords records
  | .record key now => t.record key now
  | .prune items => t.prune items

/-- The table an operation leaves to the eviction at its end. A `prune` has none, and needs none. -/
def beforeEviction (t : UsageTable) : Op → UsageTable
  | .load records => ⟨OrderedMap.ofList (records.map fun r => (r.key, r))⟩
  | .record key now =>
      let old := (t.records.get? key).getD { key, lastUsed := now, count := 0 }
      ⟨t.records.insert key { old with lastUsed := now, count := min (old.count + 1) u32Max }⟩
  | .prune items => t.prune items

/-- A table through any operations, at any times. -/
def history : TransitionSystem UsageTable Op :=
  { init := fun t => t = empty
    step := fun t op => some (t.apply op) }

theorem WellFormed.apply {t : UsageTable} (h : t.WellFormed) (op : Op) : (t.apply op).WellFormed := by
  cases op with
  | load records => exact wellFormed_fromRecords records
  | record key now => exact h.record key now
  | prune items => exact h.prune items

theorem WellFormed.keyed_beforeEviction {t : UsageTable} (h : t.WellFormed) (op : Op) :
    (t.beforeEviction op).Keyed := by
  cases op with
  | load records => exact keyed_ofList records
  | prune items => exact (h.prune items).keyed
  | record key now =>
      refine h.keyed.insert ?_
      cases hget : t.records.get? key with
      | none => rfl
      | some old => exact h.keyed key old hget

theorem WellFormed.apply_eq {t : UsageTable} (h : t.WellFormed) (op : Op) :
    t.apply op = (t.beforeEviction op).evict := by
  cases op with
  | load records => rfl
  | record key now => rfl
  | prune items => exact (evict_eq_self (h.prune items).bounded).symm

theorem wellFormed_of_reach {t : UsageTable} (h : history.Reach TransitionSystem.anyStep t) :
    t.WellFormed := by
  apply h.invariant
  · rintro _ rfl
    exact wellFormed_empty
  · intro t op t' _ _ hstep hwell
    obtain rfl := Option.some.inj hstep
    exact hwell.apply op

/-- **The table is a bounded set of the most recent records**, and its records say all that it is. -/
theorem usage_round_trips {t : UsageTable} (h : history.Reach TransitionSystem.anyStep t) :
    t.records.size ≤ maxRecords ∧
      (∀ key r, t.records.get? key = some r → r.key = key) ∧
      (∀ op left, (Evicts (t.beforeEviction op) left ↔ left = t.apply op) ∧
        KeepsNewest (t.beforeEviction op) (t.apply op)) ∧
      t.sortedRecords.Pairwise comesBefore ∧
      (t.sortedRecords.map (·.key)).Nodup ∧
      (∀ r, r ∈ t.sortedRecords ↔ ∃ key, t.records.get? key = some r) ∧
      fromRecords t.sortedRecords = t := by
  have hwell := wellFormed_of_reach h
  refine ⟨hwell.bounded, hwell.keyed, fun op left => ?_, hwell.keyed.pairwise_sortedRecords,
    hwell.keyed.nodup_sortedRecords, fun r => ?_, hwell.fromRecords_sortedRecords⟩
  · have hkeyed := hwell.keyed_beforeEviction op
    rw [hwell.apply_eq op]
    exact ⟨hkeyed.evicts_iff, hkeyed.keepsNewest hkeyed.evicts_evict⟩
  · rw [mem_sortedRecords, OrderedMap.mem_values_iff]

section Examples

def mailKey : ItemKey := ⟨⟨"personal"⟩, ⟨"mail"⟩⟩

def bankKey : ItemKey := ⟨⟨"personal"⟩, ⟨"bank"⟩⟩

/-- The clock went back between the two uses. -/
theorem usage_round_trips_two :
    ((empty.record mailKey 7).record bankKey 3).sortedRecords.Pairwise comesBefore ∧
    fromRecords ((empty.record mailKey 7).record bankKey 3).sortedRecords =
      (empty.record mailKey 7).record bankKey 3 := by
  have hreach : history.Reach TransitionSystem.anyStep ((empty.record mailKey 7).record bankKey 3) :=
    .next (e := .record bankKey 3) (.next (e := .record mailKey 7) (.start rfl) trivial rfl) trivial rfl
  obtain ⟨-, -, -, hsorted, -, -, hsame⟩ := usage_round_trips hreach
  exact ⟨hsorted, hsame⟩

end Examples

end UsageTable

end CosmicPass
