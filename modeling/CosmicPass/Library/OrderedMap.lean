import Mathlib.Data.Finset.Card
import Mathlib.Data.List.Pairwise
import Mathlib.Data.List.Sort

/-!
# Finite maps as sorted association lists

A finite map over a linear order, held as the list of its entries in strictly increasing key order.
The order is a field, so two maps with the same lookups are the same value, and a map can be
compared, folded and evaluated like the list it is.

It stands for a tree map, whose iteration order this is, and for a hash map wherever nothing that is
computed from it depends on the order of iteration.
-/

namespace OrderedMap

def KeysSorted {α β : Type*} [LT α] (entries : List (α × β)) : Prop :=
  entries.Pairwise fun left right => left.1 < right.1

end OrderedMap

/-- A finite map: its entries, in strictly increasing key order. -/
structure OrderedMap (α β : Type*) [LinearOrder α] where
  entries : List (α × β)
  sorted : OrderedMap.KeysSorted entries

namespace OrderedMap

variable {α β : Type*} [LinearOrder α]

instance [DecidableEq β] : DecidableEq (OrderedMap α β) := fun left right =>
  decidable_of_iff (left.entries = right.entries) <| by
    cases left
    cases right
    simp

def empty : OrderedMap α β := ⟨[], List.Pairwise.nil⟩

instance : Inhabited (OrderedMap α β) := ⟨empty⟩

def keys (m : OrderedMap α β) : List α := m.entries.map Prod.fst

def values (m : OrderedMap α β) : List β := m.entries.map Prod.snd

def size (m : OrderedMap α β) : Nat := m.entries.length

def get? (m : OrderedMap α β) (key : α) : Option β :=
  (m.entries.find? fun entry => entry.1 = key).map Prod.snd

/-- Puts an entry at its place in a sorted list, replacing the entry of the same key. -/
def insertEntry (key : α) (value : β) : List (α × β) → List (α × β)
  | [] => [(key, value)]
  | entry :: rest =>
      if key < entry.1 then (key, value) :: entry :: rest
      else if entry.1 < key then entry :: insertEntry key value rest
      else (key, value) :: rest

theorem mem_insertEntry_cases {key : α} {value : β} {entry : α × β} :
    ∀ {entries : List (α × β)}, entry ∈ insertEntry key value entries →
      entry = (key, value) ∨ entry ∈ entries
  | [], hmem => by simpa [insertEntry] using hmem
  | head :: rest, hmem => by
      unfold insertEntry at hmem
      split at hmem
      · simpa using hmem
      · split at hmem
        · rcases List.mem_cons.mp hmem with heq | hrest
          · exact Or.inr (by simp [heq])
          · rcases mem_insertEntry_cases hrest with heq | hold
            · exact Or.inl heq
            · exact Or.inr (List.mem_cons_of_mem _ hold)
        · rcases List.mem_cons.mp hmem with heq | hrest
          · exact Or.inl heq
          · exact Or.inr (List.mem_cons_of_mem _ hrest)

theorem keysSorted_insertEntry {key : α} {value : β} :
    ∀ {entries : List (α × β)}, KeysSorted entries → KeysSorted (insertEntry key value entries)
  | [], _ => by simp [insertEntry, KeysSorted]
  | head :: rest, hsorted => by
      obtain ⟨hhead, hrest⟩ := List.pairwise_cons.mp hsorted
      unfold insertEntry
      split
      next hlt =>
        refine List.pairwise_cons.mpr ⟨?_, hsorted⟩
        intro entry hmem
        rcases List.mem_cons.mp hmem with heq | hold
        · simpa [heq] using hlt
        · exact hlt.trans (hhead entry hold)
      next hge =>
        split
        next hgt =>
          refine List.pairwise_cons.mpr ⟨?_, keysSorted_insertEntry hrest⟩
          intro entry hmem
          rcases mem_insertEntry_cases hmem with heq | hold
          · simpa [heq] using hgt
          · exact hhead entry hold
        next hle =>
          have heq : head.1 = key := le_antisymm (not_lt.mp hge) (not_lt.mp hle)
          refine List.pairwise_cons.mpr ⟨?_, hrest⟩
          intro entry hmem
          simpa [← heq] using hhead entry hmem

def insert (m : OrderedMap α β) (key : α) (value : β) : OrderedMap α β :=
  ⟨insertEntry key value m.entries, keysSorted_insertEntry m.sorted⟩

def retain (m : OrderedMap α β) (keep : α → β → Bool) : OrderedMap α β :=
  ⟨m.entries.filter fun entry => keep entry.1 entry.2, m.sorted.filter _⟩

def remove (m : OrderedMap α β) (key : α) : OrderedMap α β :=
  m.retain fun other _ => other ≠ key

/-- The map of a list of entries; a later entry replaces an earlier one of the same key. -/
def ofList (entries : List (α × β)) : OrderedMap α β :=
  entries.foldl (fun m entry => m.insert entry.1 entry.2) empty

@[simp] theorem entries_empty : (empty : OrderedMap α β).entries = [] := rfl

@[simp] theorem get?_empty (key : α) : (empty : OrderedMap α β).get? key = none := rfl

@[simp] theorem values_empty : (empty : OrderedMap α β).values = [] := rfl

theorem mem_values_insert {m : OrderedMap α β} {key : α} {value stored : β}
    (h : stored ∈ (m.insert key value).values) : stored = value ∨ stored ∈ m.values := by
  obtain ⟨entry, hmem, rfl⟩ := List.mem_map.mp h
  rcases mem_insertEntry_cases hmem with heq | hold
  · exact Or.inl (by simp [heq])
  · exact Or.inr (List.mem_map_of_mem hold)

theorem mem_values_retain {m : OrderedMap α β} {keep : α → β → Bool} {stored : β}
    (h : stored ∈ (m.retain keep).values) : stored ∈ m.values := by
  obtain ⟨entry, hmem, rfl⟩ := List.mem_map.mp h
  exact List.mem_map_of_mem (List.mem_filter.mp hmem).1

theorem mem_values_of_get? {m : OrderedMap α β} {key : α} {stored : β}
    (h : m.get? key = some stored) : stored ∈ m.values := by
  obtain ⟨entry, hfound, rfl⟩ := Option.map_eq_some_iff.mp h
  exact List.mem_map_of_mem (List.mem_of_find?_eq_some hfound)

theorem mem_values_ofList {entries : List (α × β)} {stored : β}
    (h : stored ∈ (ofList entries).values) : stored ∈ entries.map Prod.snd := by
  have hfold : ∀ (rest : List (α × β)) (m : OrderedMap α β),
      stored ∈ (rest.foldl (fun m entry => m.insert entry.1 entry.2) m).values →
        stored ∈ m.values ∨ stored ∈ rest.map Prod.snd := by
    intro rest
    induction rest with
    | nil => exact fun m hmem => Or.inl hmem
    | cons entry rest ih =>
        intro m hmem
        rcases ih _ hmem with hinsert | hrest
        · rcases mem_values_insert hinsert with rfl | hold
          · exact Or.inr (by simp)
          · exact Or.inl hold
        · exact Or.inr (List.mem_cons_of_mem _ hrest)
  simpa using hfold entries empty h

/-!
### Lookups

A map is what its lookups say, so an equation between maps is proved one key at a time.
-/

theorem nodup_keys (m : OrderedMap α β) : m.keys.Nodup :=
  List.pairwise_map.mpr (m.sorted.imp ne_of_lt)

theorem nodup_entries (m : OrderedMap α β) : m.entries.Nodup := m.nodup_keys.of_map

theorem get?_eq_some_iff {m : OrderedMap α β} {key : α} {value : β} :
    m.get? key = some value ↔ (key, value) ∈ m.entries := by
  constructor
  · intro h
    obtain ⟨entry, hfound, rfl⟩ := Option.map_eq_some_iff.mp h
    have hkey : entry.1 = key := by simpa using List.find?_some hfound
    rw [← hkey]
    exact List.mem_of_find?_eq_some hfound
  · intro hmem
    cases hfound : m.entries.find? fun entry => entry.1 = key with
    | none => simpa using List.find?_eq_none.mp hfound _ hmem
    | some entry =>
        have hkey : entry.1 = key := by simpa using List.find?_some hfound
        have heq := List.inj_on_of_nodup_map m.nodup_keys (List.mem_of_find?_eq_some hfound) hmem hkey
        rw [get?, hfound, heq]
        rfl

theorem mem_values_iff {m : OrderedMap α β} {value : β} :
    value ∈ m.values ↔ ∃ key, m.get? key = some value := by
  simp [values, get?_eq_some_iff]

theorem ext_get? {left right : OrderedMap α β} (h : ∀ key, left.get? key = right.get? key) :
    left = right := by
  have hmem : ∀ entry, entry ∈ left.entries ↔ entry ∈ right.entries := by
    intro entry
    rw [← get?_eq_some_iff, ← get?_eq_some_iff, h]
  have hperm := (List.perm_ext_iff_of_nodup left.nodup_entries right.nodup_entries).mpr hmem
  have hentries := hperm.eq_of_pairwise (fun _ _ _ _ hlt hgt => absurd hgt hlt.not_gt)
    left.sorted right.sorted
  cases left
  cases right
  simpa using hentries

theorem mem_insertEntry_iff {key other : α} {value stored : β} :
    ∀ {entries : List (α × β)}, KeysSorted entries →
      ((other, stored) ∈ insertEntry key value entries ↔
        other = key ∧ stored = value ∨ other ≠ key ∧ (other, stored) ∈ entries)
  | [], _ => by
      simp only [insertEntry, List.mem_singleton, Prod.mk.injEq, List.not_mem_nil, and_false,
        or_false]
  | head :: rest, hsorted => by
      obtain ⟨hhead, hrest⟩ := List.pairwise_cons.mp hsorted
      have hlater : ∀ {entry}, entry ∈ rest → head.1 < entry.1 := hhead _
      unfold insertEntry
      split
      next hlt =>
        have habsent : ∀ {entry}, entry ∈ head :: rest → entry.1 ≠ key := by
          intro entry hmem
          rcases List.mem_cons.mp hmem with rfl | hmem
          · exact hlt.ne'
          · exact (hlt.trans (hlater hmem)).ne'
        rw [List.mem_cons, Prod.mk.injEq]
        exact or_congr_right ⟨fun hmem => ⟨habsent hmem, hmem⟩, And.right⟩
      next hge =>
        split
        next hgt =>
          rw [List.mem_cons, mem_insertEntry_iff hrest, List.mem_cons]
          have hother : (other, stored) = head → other ≠ key := by
            rintro rfl
            exact hgt.ne
          tauto
        next hle =>
          have hkey : head.1 = key := le_antisymm (not_lt.mp hge) (not_lt.mp hle)
          rw [List.mem_cons, List.mem_cons, Prod.mk.injEq]
          have hother : (other, stored) = head → other = key := by
            rintro rfl
            exact hkey
          have habsent : (other, stored) ∈ rest → other ≠ key := fun hmem =>
            (hkey ▸ hlater hmem).ne'
          tauto

@[simp] theorem get?_insert (m : OrderedMap α β) (key other : α) (value : β) :
    (m.insert key value).get? other = if other = key then some value else m.get? other := by
  refine Option.ext fun stored => ?_
  have hiff : (other, stored) ∈ insertEntry key value m.entries ↔
      other = key ∧ stored = value ∨ other ≠ key ∧ (other, stored) ∈ m.entries :=
    mem_insertEntry_iff m.sorted
  rw [get?_eq_some_iff]
  split
  next heq => simpa [insert, heq, eq_comm] using hiff
  next hne => simpa [insert, hne, get?_eq_some_iff] using hiff

@[simp] theorem get?_retain (m : OrderedMap α β) (keep : α → β → Bool) (key : α) :
    (m.retain keep).get? key = (m.get? key).filter (keep key) := by
  refine Option.ext fun stored => ?_
  rw [get?_eq_some_iff, Option.filter_eq_some_iff, get?_eq_some_iff]
  exact List.mem_filter

theorem get?_remove (m : OrderedMap α β) (key other : α) :
    (m.remove key).get? other = if other = key then none else m.get? other := by
  rw [remove, get?_retain]
  by_cases heq : other = key <;> cases m.get? other <;> simp [heq]

theorem mem_keys_iff {m : OrderedMap α β} {key : α} : key ∈ m.keys ↔ (m.get? key).isSome := by
  simp [keys, Option.isSome_iff_exists, get?_eq_some_iff]

/-- In a list whose keys differ, each entry is looked up in the map of the list. -/
theorem get?_ofList {entries : List (α × β)} (hnodup : (entries.map Prod.fst).Nodup) {key : α}
    {value : β} : (ofList entries).get? key = some value ↔ (key, value) ∈ entries := by
  have hfold : ∀ (rest : List (α × β)) (m : OrderedMap α β), (rest.map Prod.fst).Nodup →
      ((rest.foldl (fun m entry => m.insert entry.1 entry.2) m).get? key = some value ↔
        (key, value) ∈ rest ∨ key ∉ rest.map Prod.fst ∧ m.get? key = some value) := by
    intro rest
    induction rest with
    | nil => simp
    | cons entry rest ih =>
        intro m hnodup
        obtain ⟨hfirst, hrest⟩ := List.nodup_cons.mp hnodup
        rw [List.foldl_cons, ih _ hrest, get?_insert]
        by_cases hkey : key = entry.1
        · have habsent : (key, value) ∉ rest := fun hmem =>
            hfirst (hkey ▸ List.mem_map_of_mem (f := Prod.fst) hmem)
          have hvalue : entry.2 = value ↔ (key, value) = entry := by
            rw [hkey, Prod.ext_iff]
            simp [eq_comm]
          simp [hkey ▸ habsent, hkey, hfirst, hkey ▸ hvalue]
        · have hother : (key, value) ≠ entry := by
            rintro rfl
            exact hkey rfl
          simp [hkey, hother]
  simpa [ofList] using hfold entries empty hnodup

theorem ofList_perm {m : OrderedMap α β} {entries : List (α × β)} (h : entries.Perm m.entries) :
    ofList entries = m := by
  have hnodup : (entries.map Prod.fst).Nodup := (h.map Prod.fst).nodup_iff.mpr m.nodup_keys
  refine ext_get? fun key => Option.ext fun value => ?_
  rw [get?_ofList hnodup, get?_eq_some_iff, h.mem_iff]

/-! ### Sizes -/

theorem size_retain_le (m : OrderedMap α β) (keep : α → β → Bool) :
    (m.retain keep).size ≤ m.size := List.length_filter_le _ _

theorem keys_remove (m : OrderedMap α β) (key : α) : (m.remove key).keys = m.keys.erase key := by
  rw [m.nodup_keys.erase_eq_filter, keys, keys, List.filter_map, remove, retain]
  refine congrArg (List.map Prod.fst) (List.filter_congr fun entry _ => ?_)
  rw [Bool.eq_iff_iff]
  simp

theorem size_remove {m : OrderedMap α β} {key : α} (hmem : key ∈ m.keys) :
    (m.remove key).size = m.size - 1 := by
  have hlength : (m.remove key).keys.length = m.keys.length - 1 := by
    rw [keys_remove, List.length_erase_of_mem hmem]
  simpa only [keys, size, List.length_map] using hlength

/-- A map has no more entries than there are keys to choose from. -/
theorem size_le_card {m : OrderedMap α β} {domain : Finset α} (h : ∀ key ∈ m.keys, key ∈ domain) :
    m.size ≤ domain.card := by
  have hle : m.keys.toFinset ⊆ domain := fun key hmem => h key (List.mem_toFinset.mp hmem)
  calc
    m.size = m.keys.length := (List.length_map _).symm
    _ = m.keys.toFinset.card := (List.toFinset_card_of_nodup m.nodup_keys).symm
    _ ≤ domain.card := Finset.card_le_card hle

end OrderedMap
