import CosmicPass.Core.Usage
import CosmicPass.Library.Sorting

/-!
# The usage table and its records

A table that only grew by `record` and `fromRecords` files every record under its own key and holds at
most `maxRecords` of them. Such a table is what its sorted records say, in any order they are read
back in, so writing it out and reading it in changes nothing.
-/

namespace CosmicPass

theorem minBy_mem {α : Type*} {compareOf : α → α → Ordering} {list : List α} {least : α}
    (h : minBy compareOf list = some least) : least ∈ list := by
  have hfold : ∀ (rest : List α) (best : α),
      (rest.foldl (fun best next => if compareOf best next = .gt then next else best) best) ∈
        best :: rest := by
    intro rest
    induction rest with
    | nil => simp
    | cons next rest ih =>
        intro best
        rw [List.foldl_cons]
        split
        · exact List.mem_cons_of_mem _ (ih next)
        · rcases List.mem_cons.mp (ih best) with heq | hmem
          · rw [heq]
            exact List.mem_cons_self
          · exact List.mem_cons_of_mem _ (List.mem_cons_of_mem _ hmem)
  cases list with
  | nil => simp [minBy] at h
  | cons first rest =>
      obtain rfl := Option.some.inj h
      exact hfold rest first

namespace UsageTable

/-- Every record is filed under the item it is about. -/
def Keyed (t : UsageTable) : Prop := ∀ key r, t.records.get? key = some r → r.key = key

structure WellFormed (t : UsageTable) : Prop where
  keyed : t.Keyed
  bounded : t.records.size ≤ maxRecords

theorem Keyed.remove {t : UsageTable} (h : t.Keyed) (key : ItemKey) :
    Keyed ⟨t.records.remove key⟩ := by
  intro other r hget
  rw [OrderedMap.get?_remove] at hget
  split at hget
  · simp at hget
  · exact h other r hget

theorem Keyed.insert {t : UsageTable} (h : t.Keyed) {key : ItemKey} {r : UsageRecord}
    (hkey : r.key = key) : Keyed ⟨t.records.insert key r⟩ := by
  intro other stored hget
  rw [OrderedMap.get?_insert] at hget
  split at hget
  next heq => rw [← Option.some.inj hget, hkey, heq]
  next => exact h other stored hget

theorem Keyed.oldest_mem {t : UsageTable} (h : t.Keyed) {key : ItemKey}
    (holdest : t.oldest = some key) : key ∈ t.records.keys := by
  obtain ⟨r, hleast, rfl⟩ := Option.map_eq_some_iff.mp holdest
  obtain ⟨stored, hget⟩ := OrderedMap.mem_values_iff.mp (minBy_mem hleast)
  rw [h stored r hget, OrderedMap.mem_keys_iff, hget]
  rfl

theorem Keyed.removeOldest {t : UsageTable} (h : t.Keyed) : t.removeOldest.Keyed := by
  unfold UsageTable.removeOldest
  split
  · exact h.remove _
  · exact h

theorem oldest_isSome {t : UsageTable} (hsize : 0 < t.records.size) : ∃ key, t.oldest = some key := by
  have hvalues : t.records.values ≠ [] := by
    intro hnil
    have hlength : t.records.values.length = t.records.size := List.length_map _
    rw [hnil, List.length_nil] at hlength
    omega
  obtain ⟨first, rest, hcons⟩ := List.exists_cons_of_ne_nil hvalues
  exact ⟨_, by rw [oldest, hcons]; rfl⟩

theorem Keyed.size_removeOldest {t : UsageTable} (h : t.Keyed) :
    t.removeOldest.records.size ≤ t.records.size - 1 := by
  unfold UsageTable.removeOldest
  split
  next key holdest =>
    exact (OrderedMap.size_remove (h.oldest_mem holdest)).le
  next hnone =>
    by_contra hsize
    obtain ⟨key, hsome⟩ := t.oldest_isSome (by omega)
    simp [hnone] at hsome

theorem evict_eq_self {t : UsageTable} (h : t.records.size ≤ maxRecords) : t.evict = t := by
  rw [evict, Nat.sub_eq_zero_of_le h]
  rfl

theorem Keyed.evict {t : UsageTable} (h : t.Keyed) : t.evict.WellFormed := by
  have hrounds : ∀ (rounds : Nat) (t : UsageTable), t.Keyed →
      (UsageTable.removeOldest^[rounds] t).Keyed ∧
        (UsageTable.removeOldest^[rounds] t).records.size ≤ t.records.size - rounds := by
    intro rounds
    induction rounds with
    | zero => exact fun t hkeyed => ⟨hkeyed, le_rfl⟩
    | succ rounds ih =>
        intro t hkeyed
        rw [Function.iterate_succ_apply]
        obtain ⟨hkept, hsize⟩ := ih t.removeOldest hkeyed.removeOldest
        have hround := hkeyed.size_removeOldest
        exact ⟨hkept, by omega⟩
  obtain ⟨hkeyed, hsize⟩ := hrounds (t.records.size - maxRecords) t h
  refine ⟨hkeyed, ?_⟩
  rw [UsageTable.evict]
  omega

theorem wellFormed_empty : empty.WellFormed := ⟨by simp [Keyed, empty], Nat.zero_le _⟩

theorem WellFormed.record {t : UsageTable} (h : t.WellFormed) (key : ItemKey) (now : Int) :
    (t.record key now).WellFormed := by
  refine (h.keyed.insert ?_).evict
  cases hget : t.records.get? key with
  | none => rfl
  | some old => exact h.keyed key old hget

theorem keyed_ofList (records : List UsageRecord) :
    Keyed ⟨OrderedMap.ofList (records.map fun r => (r.key, r))⟩ := by
  have hfold : ∀ (rest : List (ItemKey × UsageRecord)) (m : OrderedMap ItemKey UsageRecord),
      (∀ entry ∈ rest, entry.2.key = entry.1) → Keyed ⟨m⟩ →
      Keyed ⟨rest.foldl (fun m entry => m.insert entry.1 entry.2) m⟩ := by
    intro rest
    induction rest with
    | nil => exact fun _ _ hkeyed => hkeyed
    | cons entry rest ih =>
        intro m hrest hkeyed
        exact ih _ (fun other hmem => hrest other (List.mem_cons_of_mem _ hmem))
          (hkeyed.insert (hrest entry List.mem_cons_self))
  refine hfold _ _ ?_ wellFormed_empty.keyed
  simp

theorem wellFormed_fromRecords (records : List UsageRecord) : (fromRecords records).WellFormed :=
  (keyed_ofList records).evict

theorem get?_prune (t : UsageTable) (items : List ItemSummary) (key : ItemKey) :
    (t.prune items).records.get? key =
      if items.any fun item => item.key = key then t.records.get? key else none := by
  rw [prune, OrderedMap.get?_retain]
  cases hlisted : items.any fun item => item.key = key <;> cases t.records.get? key <;> simp

theorem WellFormed.prune {t : UsageTable} (h : t.WellFormed) (items : List ItemSummary) :
    (t.prune items).WellFormed := by
  refine ⟨fun key r hget => ?_, (OrderedMap.size_retain_le _ _).trans h.bounded⟩
  rw [get?_prune] at hget
  split at hget
  · exact h.keyed key r hget
  · simp at hget

/-- What is kept is about items that are listed. -/
theorem Keyed.listed_of_prune {t : UsageTable} (h : t.Keyed) {items : List ItemSummary}
    {r : UsageRecord} (hmem : r ∈ (t.prune items).records.values) :
    ∃ item ∈ items, item.key = r.key := by
  obtain ⟨key, hget⟩ := OrderedMap.mem_values_iff.mp hmem
  rw [get?_prune] at hget
  split at hget
  next hlisted =>
    obtain ⟨item, hitem, hkey⟩ := List.any_eq_true.mp hlisted
    exact ⟨item, hitem, by rw [h key r hget, of_decide_eq_true hkey]⟩
  next => simp at hget

theorem recency_prune_of_mem (t : UsageTable) {items : List ItemSummary} {item : ItemSummary}
    (hmem : item ∈ items) : (t.prune items).recency item.key = t.recency item.key := by
  rw [recency, get?_prune, if_pos (List.any_eq_true.mpr ⟨item, hmem, by simp⟩)]
  rfl

theorem Keyed.key_of_mem {t : UsageTable} (h : t.Keyed) {entry : ItemKey × UsageRecord}
    (hmem : entry ∈ t.records.entries) : entry.2.key = entry.1 :=
  h entry.1 entry.2 (OrderedMap.get?_eq_some_iff.mpr hmem)

theorem Keyed.entries_eq {t : UsageTable} (h : t.Keyed) :
    t.records.values.map (fun r => (r.key, r)) = t.records.entries := by
  calc
    t.records.values.map (fun r => (r.key, r)) =
        t.records.entries.map fun entry => (entry.2.key, entry.2) := List.map_map
    _ = t.records.entries.map id :=
        List.map_congr_left fun entry hmem => by rw [h.key_of_mem hmem]; rfl
    _ = t.records.entries := List.map_id _

/-- **Written out and read back in, a table is the same.** -/
theorem WellFormed.fromRecords_perm {t : UsageTable} (h : t.WellFormed) {records : List UsageRecord}
    (hperm : records.Perm t.records.values) : fromRecords records = t := by
  have hentries : (records.map fun r => (r.key, r)).Perm t.records.entries :=
    h.keyed.entries_eq ▸ hperm.map fun r => (r.key, r)
  rw [fromRecords, OrderedMap.ofList_perm hentries]
  exact evict_eq_self h.bounded

theorem WellFormed.fromRecords_sortedRecords {t : UsageTable} (h : t.WellFormed) :
    fromRecords t.sortedRecords = t :=
  h.fromRecords_perm (List.perm_insertionSort precedes _)

theorem Keyed.eq_of_mem_values {t : UsageTable} (h : t.Keyed) {left right : UsageRecord}
    (hleft : left ∈ t.records.values) (hright : right ∈ t.records.values)
    (hkey : left.key = right.key) : left = right := by
  obtain ⟨leftKey, hgetLeft⟩ := OrderedMap.mem_values_iff.mp hleft
  obtain ⟨rightKey, hgetRight⟩ := OrderedMap.mem_values_iff.mp hright
  obtain rfl := h leftKey left hgetLeft
  obtain rfl := h rightKey right hgetRight
  rw [hkey, hgetRight] at hgetLeft
  exact (Option.some.inj hgetLeft).symm

instance : Std.Total precedes where
  total left right := by
    unfold precedes
    rcases lt_trichotomy left.lastUsed right.lastUsed with h | h | h
    · exact Or.inr (Or.inl h)
    · rcases le_total left.key right.key with hkey | hkey
      · exact Or.inl (Or.inr ⟨h.symm, hkey⟩)
      · exact Or.inr (Or.inr ⟨h, hkey⟩)
    · exact Or.inl (Or.inl h)

instance : IsTrans UsageRecord precedes where
  trans a b c hab hbc := by
    unfold precedes at *
    rcases hab with hab | ⟨hab, hkey⟩ <;> rcases hbc with hbc | ⟨hbc, hkey'⟩
    · exact Or.inl (hbc.trans hab)
    · exact Or.inl (hbc ▸ hab)
    · exact Or.inl (hab ▸ hbc)
    · exact Or.inr ⟨hbc.trans hab, hkey.trans hkey'⟩

/-- No two records of a table share a place in the order they are written out in. -/
theorem Keyed.separates {t : UsageTable} (h : t.Keyed) :
    Sorting.Separates precedes t.records.values := by
  intro left hleft right hright hle hge
  refine h.eq_of_mem_values hleft hright ?_
  rcases hle with hlt | ⟨heq, hkey⟩
  · rcases hge with hgt | ⟨heq, -⟩
    · exact absurd hgt hlt.not_gt
    · exact absurd heq hlt.ne'
  · rcases hge with hgt | ⟨-, hkey'⟩
    · exact absurd heq hgt.ne'
    · exact le_antisymm hkey hkey'

theorem WellFormed.sortedRecords_prune {t : UsageTable} (h : t.WellFormed)
    (items : List ItemSummary) :
    (t.prune items).sortedRecords =
      t.sortedRecords.filter fun r => items.any fun item => item.key = r.key := by
  have hvalues : (t.prune items).records.values =
      t.records.values.filter fun r => items.any fun item => item.key = r.key := by
    rw [OrderedMap.values, OrderedMap.values, List.filter_map]
    refine congrArg (List.map Prod.snd) (List.filter_congr fun entry hmem => ?_)
    rw [Function.comp_apply, h.keyed.key_of_mem hmem]
  have hperm : (t.sortedRecords.filter fun r => items.any fun item => item.key = r.key).Perm
      (t.prune items).records.values := by
    rw [hvalues]
    exact (List.perm_insertionSort precedes t.records.values).filter _
  exact ((h.prune items).keyed.separates.eq_insertionSort hperm
    ((List.pairwise_insertionSort precedes _).filter _)).symm

end UsageTable

end CosmicPass
