import CosmicPass.Config
import CosmicPass.Model
import Mathlib.Data.List.Sort

/-!
# Recently used item records

The usage table of `src/core/usage.rs`. Its `HashMap` is an `OrderedMap`: the table is only read by
key, sorted, filtered by key, or searched for the least record of a strict total order, so the order
of iteration is not observable.
-/

namespace CosmicPass

def maxRecords : Nat := 200

/-- `Iterator::min_by`: the first of the least elements. -/
def minBy {α : Type*} (compareOf : α → α → Ordering) : List α → Option α
  | [] => none
  | first :: rest =>
      some (rest.foldl (fun best next => if compareOf best next = .gt then next else best) first)

structure UsageTable where
  records : OrderedMap ItemKey UsageRecord
deriving DecidableEq

namespace UsageTable

def empty : UsageTable := ⟨OrderedMap.empty⟩

def oldest (t : UsageTable) : Option ItemKey :=
  (minBy (fun left right : UsageRecord =>
    (compare left.lastUsed right.lastUsed).then (compare left.key right.key))
    t.records.values).map (·.key)

def removeOldest (t : UsageTable) : UsageTable :=
  match t.oldest with
  | some key => ⟨t.records.remove key⟩
  | none => t

/-- The loop runs once for every record too many, since each round removes one. -/
def evict (t : UsageTable) : UsageTable :=
  removeOldest^[t.records.size - maxRecords] t

def fromRecords (records : List UsageRecord) : UsageTable :=
  evict ⟨OrderedMap.ofList (records.map fun r => (r.key, r))⟩

def precedes (left right : UsageRecord) : Prop :=
  right.lastUsed < left.lastUsed ∨ right.lastUsed = left.lastUsed ∧ left.key ≤ right.key

instance (left right : UsageRecord) : Decidable (precedes left right) :=
  inferInstanceAs (Decidable (_ ∨ _))

def sortedRecords (t : UsageTable) : List UsageRecord :=
  t.records.values.insertionSort precedes

def record (t : UsageTable) (key : ItemKey) (now : Int) : UsageTable :=
  let old := (t.records.get? key).getD { key, lastUsed := now, count := 0 }
  let new := { old with lastUsed := now, count := min (old.count + 1) u32Max }
  evict ⟨t.records.insert key new⟩

def recency (t : UsageTable) (key : ItemKey) : Option Int :=
  (t.records.get? key).map (·.lastUsed)

def prune (t : UsageTable) (items : List ItemSummary) : UsageTable :=
  ⟨t.records.retain fun key _ => items.any fun item => item.key = key⟩

theorem mem_sortedRecords {t : UsageTable} {r : UsageRecord} :
    r ∈ t.sortedRecords ↔ r ∈ t.records.values :=
  (List.perm_insertionSort precedes t.records.values).mem_iff

theorem mem_values_evict {t : UsageTable} {r : UsageRecord} (h : r ∈ t.evict.records.values) :
    r ∈ t.records.values := by
  rw [evict] at h
  generalize t.records.size - maxRecords = rounds at h
  induction rounds generalizing t with
  | zero => exact h
  | succ rounds ih =>
      rw [Function.iterate_succ_apply] at h
      have hround := ih h
      unfold removeOldest at hround
      split at hround
      · exact OrderedMap.mem_values_retain hround
      · exact hround

theorem mem_values_fromRecords {records : List UsageRecord} {r : UsageRecord}
    (h : r ∈ (fromRecords records).records.values) : r ∈ records := by
  have hlist := OrderedMap.mem_values_ofList (mem_values_evict h)
  simpa using hlist

theorem mem_values_prune {t : UsageTable} {items : List ItemSummary} {r : UsageRecord}
    (h : r ∈ (t.prune items).records.values) : r ∈ t.records.values :=
  OrderedMap.mem_values_retain h

theorem key_of_mem_values_record {t : UsageTable} {key : ItemKey} {now : Int} {r : UsageRecord}
    (h : r ∈ (t.record key now).records.values) :
    r.key = key ∨ ∃ old ∈ t.records.values, r.key = old.key := by
  rw [record] at h
  rcases OrderedMap.mem_values_insert (mem_values_evict h) with rfl | hold
  · cases hget : t.records.get? key with
    | none => exact Or.inl rfl
    | some old => exact Or.inr ⟨old, OrderedMap.mem_values_of_get? hget, rfl⟩
  · exact Or.inr ⟨r, hold, rfl⟩

theorem record_empty_ne_empty (key : ItemKey) (now : Int) : empty.record key now ≠ empty := by
  intro h
  have hentries := congrArg (fun t => t.records.entries) h
  simp [record, evict, empty, OrderedMap.insert, OrderedMap.insertEntry, OrderedMap.size,
    maxRecords] at hentries

end UsageTable

end CosmicPass
