import CosmicPass.Core.Search
import CosmicPass.Library.Sorting

/-!
# What a search finds, and in which order

A search scores each entry on its own, so what it finds is a set of rows, one for each entry that every
fragment matches; the order it then puts them in ties no two of them, since the position decides last.
The rows shown are the first of the one list this order makes.
-/

namespace CosmicPass

theorem map_filterMap_sublist {α β γ : Type*} {f : α → Option β} {g : β → γ} {h : α → γ}
    (hfg : ∀ a b, f a = some b → g b = h a) (l : List α) :
    ((l.filterMap f).map g).Sublist (l.map h) := by
  induction l with
  | nil => exact .slnil
  | cons a rest ih =>
      cases hf : f a with
      | none => simpa [List.filterMap_cons, hf] using ih.cons (h a)
      | some b => simpa [List.filterMap_cons, hf, hfg a b hf] using ih.cons_cons (h a)

section Searching

variable [TextSupport]

theorem scoreEntry_item {atoms : List TextSupport.Atom} {entry : Entry} {item : Nat} {row : ResultRow}
    (h : scoreEntry atoms entry item = some row) : row.item = item := by
  unfold scoreEntry at h
  split at h
  · simp at h
  · rw [← Option.some.inj h]

namespace SearchIndex

theorem candidates_sublist (index : SearchIndex) (query : String) :
    ((index.candidates query).map (·.item)).Sublist (List.range index.entries.length) := by
  unfold candidates
  dsimp only
  split
  · simp [Function.comp_def]
  · refine (map_filterMap_sublist (h := Prod.snd) ?_ _).trans ?_
    · rintro ⟨entry, item⟩ row hrow
      exact scoreEntry_item hrow
    · rw [List.zipIdx_map_snd, ← List.range_eq_range']

theorem search_subperm (index : SearchIndex) (query : String) (recency : ItemKey → Option Int)
    (items : List ItemSummary) (limit : Nat) :
    ((index.search query recency items limit).map (·.item)).Subperm
      (List.range index.entries.length) := by
  refine ((List.take_sublist _ _).map _).subperm.trans ?_
  exact ((List.perm_insertionSort _ _).map _).subperm.trans (index.candidates_sublist query).subperm

theorem search_lt (index : SearchIndex) (query : String) (recency : ItemKey → Option Int)
    (items : List ItemSummary) (limit : Nat) {row : ResultRow}
    (hmem : row ∈ index.search query recency items limit) : row.item < index.entries.length := by
  have hrange := (index.search_subperm query recency items limit).subset (List.mem_map_of_mem hmem)
  exact List.mem_range.mp hrange

theorem search_nodup (index : SearchIndex) (query : String) (recency : ItemKey → Option Int)
    (items : List ItemSummary) (limit : Nat) :
    ((index.search query recency items limit).map (·.item)).Nodup := by
  obtain ⟨kept, hperm, hsublist⟩ := index.search_subperm query recency items limit
  exact hperm.nodup_iff.mp (hsublist.nodup List.nodup_range)

theorem length_search_le (index : SearchIndex) (query : String) (recency : ItemKey → Option Int)
    (items : List ItemSummary) (limit : Nat) :
    (index.search query recency items limit).length ≤ limit :=
  List.length_take_le _ _

theorem length_build (items : List ItemSummary) : (build items).entries.length = items.length := by
  simp [build]

end SearchIndex

/-! ### What is found -/

variable {items : List ItemSummary} {query : String} {recency : ItemKey → Option Int}

/-- The row of an item that every fragment of the query matches. -/
def Matches (items : List ItemSummary) (query : String) (row : ResultRow) : Prop :=
  ∃ item, items[row.item]? = some item ∧
    scoreEntry (TextSupport.patternAtoms query) (SearchIndex.buildEntry item) row.item = some row

theorem scoreEntry_nil (entry : Entry) (item : Nat) :
    scoreEntry [] entry item = some { item, score := 0, titleIndices := [] } := rfl

/-- Without fragments every item is found, with nothing to its score. -/
theorem matches_of_no_atoms (h : TextSupport.patternAtoms query = []) (row : ResultRow) :
    Matches items query row ↔
      row.item < items.length ∧ row = { item := row.item, score := 0, titleIndices := [] } := by
  simp only [Matches, h, scoreEntry_nil, Option.some.injEq]
  constructor
  · rintro ⟨item, hitem, hrow⟩
    obtain ⟨hlt, -⟩ := List.getElem?_eq_some_iff.mp hitem
    exact ⟨hlt, hrow.symm⟩
  · rintro ⟨hlt, hrow⟩
    exact ⟨items[row.item], List.getElem?_eq_getElem hlt, hrow.symm⟩

theorem mem_candidates {row : ResultRow} :
    row ∈ (SearchIndex.build items).candidates query ↔ Matches items query row := by
  unfold SearchIndex.candidates
  dsimp only
  split
  next hempty =>
    rw [matches_of_no_atoms (List.isEmpty_iff.mp hempty), List.mem_map, SearchIndex.length_build]
    constructor
    · rintro ⟨item, hmem, rfl⟩
      exact ⟨List.mem_range.mp hmem, rfl⟩
    · rintro ⟨hlt, hrow⟩
      exact ⟨row.item, List.mem_range.mpr hlt, hrow.symm⟩
  next =>
    simp only [List.mem_filterMap, Prod.exists, List.mem_zipIdx_iff_getElem?, SearchIndex.build,
      List.getElem?_map, Option.map_eq_some_iff, Matches]
    constructor
    · rintro ⟨entry, position, ⟨item, hitem, rfl⟩, hrow⟩
      obtain rfl := scoreEntry_item hrow
      exact ⟨item, hitem, hrow⟩
    · rintro ⟨item, hitem, hrow⟩
      exact ⟨_, row.item, ⟨item, hitem, rfl⟩, hrow⟩

theorem candidates_nodup (index : SearchIndex) (query : String) :
    ((index.candidates query).map (·.item)).Nodup :=
  (index.candidates_sublist query).nodup List.nodup_range

/-! ### The order -/

def recencyOf (items : List ItemSummary) (recency : ItemKey → Option Int) (row : ResultRow) :
    Option Int :=
  items[row.item]?.bind fun item => recency item.key

def sortTitleOf (items : List ItemSummary) (row : ResultRow) : String :=
  (items[row.item]?.map fun item => TextSupport.toLowercase item.displayTitle).getD ""

/-- Used more recently; what was never used comes last. -/
def UsedLater : Option Int → Option Int → Prop
  | some left, some right => right < left
  | some _, none => True
  | none, _ => False

/-- The higher score first, then the item used last, then by title, then by position. -/
def RanksAbove (items : List ItemSummary) (recency : ItemKey → Option Int)
    (left right : ResultRow) : Prop :=
  right.score < left.score ∨ left.score = right.score ∧
    (UsedLater (recencyOf items recency left) (recencyOf items recency right) ∨
      recencyOf items recency left = recencyOf items recency right ∧
        (sortTitleOf items left < sortTitleOf items right ∨
          sortTitleOf items left = sortTitleOf items right ∧ left.item < right.item))

omit [TextSupport] in
theorem compare_recency_eq_lt (left right : Option Int) :
    compare right left = .lt ↔ UsedLater left right := by
  cases left with
  | none => cases right <;> simp [UsedLater, compare]
  | some left =>
      cases right with
      | none => simp [UsedLater, compare]
      | some right =>
          have hsome : compare (some right) (some left) = compare right left := rfl
          rw [hsome]
          exact Std.compare_eq_lt

theorem sortTitle_build {row : ResultRow} (h : row.item < items.length) :
    (SearchIndex.build items).entries[row.item]?.map Entry.sortTitle =
      some (sortTitleOf items row) := by
  simp [SearchIndex.build, SearchIndex.buildEntry, sortTitleOf, List.getElem?_eq_getElem h]

theorem compareRows_eq_lt {left right : ResultRow} (hleft : left.item < items.length)
    (hright : right.item < items.length) :
    compareRows (SearchIndex.build items).entries (recencyOf items recency) left right = .lt ↔
      RanksAbove items recency left right := by
  have htitle : compare (some (sortTitleOf items left)) (some (sortTitleOf items right)) = .lt ↔
      sortTitleOf items left < sortTitleOf items right := compareOfLessAndEq_eq_lt
  rw [compareRows, sortTitle_build hleft, sortTitle_build hright, Ordering.then_eq_lt,
    Ordering.then_eq_lt, Ordering.then_eq_lt, compare_recency_eq_lt, htitle, Std.compare_eq_lt,
    Std.compare_eq_iff_eq, Std.compare_eq_iff_eq, Std.compare_eq_iff_eq, Nat.compare_eq_lt,
    Option.some.injEq, eq_comm, @eq_comm _ (recencyOf items recency right)]
  rfl

omit [TextSupport] in
/-- Four comparisons, one after the other, two of them the other way round. -/
instance (entries : List Entry) (recencyOf : ResultRow → Option Int) :
    Std.TransCmp (compareRows entries recencyOf) := by
  have hscore : Std.TransCmp fun left right : ResultRow => compare right.score left.score :=
    @Std.TransCmp.opposite _ (compareOn ResultRow.score) _
  have hrecency : Std.TransCmp fun left right => compare (recencyOf right) (recencyOf left) :=
    @Std.TransCmp.opposite _ (compareOn recencyOf) _
  have htitle : Std.TransCmp
      (compareOn fun row : ResultRow => entries[row.item]?.map Entry.sortTitle) := inferInstance
  have hposition : Std.TransCmp (compareOn ResultRow.item) := inferInstance
  exact inferInstanceAs (Std.TransCmp (compareLex
    (fun left right : ResultRow => compare right.score left.score)
    (compareLex (fun left right => compare (recencyOf right) (recencyOf left))
      (compareLex (compareOn fun row : ResultRow => entries[row.item]?.map Entry.sortTitle)
        (compareOn ResultRow.item)))))

theorem lt_of_matches {row : ResultRow} (h : Matches items query row) : row.item < items.length := by
  obtain ⟨item, hitem, -⟩ := h
  exact (List.getElem?_eq_some_iff.mp hitem).1

/-- The comparison that a search of these items sorts by. -/
abbrev compareFound (items : List ItemSummary) (recency : ItemKey → Option Int) :
    ResultRow → ResultRow → Ordering :=
  compareRows (SearchIndex.build items).entries (recencyOf items recency)

theorem compareFound_eq_lt {left right : ResultRow} (hleft : Matches items query left)
    (hright : Matches items query right) :
    compareFound items recency left right = .lt ↔ RanksAbove items recency left right :=
  compareRows_eq_lt (lt_of_matches hleft) (lt_of_matches hright)

theorem compareFound_self (row : ResultRow) : compareFound items recency row row = .eq :=
  Std.ReflCmp.compare_self

/-- Two rows of different items are never tied. -/
theorem separates_candidates : Sorting.Separates
    (fun left right => compareFound items recency left right ≠ .gt)
    ((SearchIndex.build items).candidates query) := by
  apply Sorting.separates_of_eq
  intro left hleft right hright heq
  have hitem : left.item = right.item := by
    simp only [compareFound, compareRows, Ordering.then_eq_eq] at heq
    exact Std.compare_eq_iff_eq.mp heq.2.2.2
  exact List.inj_on_of_nodup_map (candidates_nodup _ query) hleft hright hitem

/-- All the rows found, in the order they are shown in. -/
def ranked (items : List ItemSummary) (query : String) (recency : ItemKey → Option Int) :
    List ResultRow :=
  ((SearchIndex.build items).candidates query).insertionSort fun left right =>
    compareRows (SearchIndex.build items).entries (recencyOf items recency) left right ≠ .gt

theorem mem_ranked {row : ResultRow} : row ∈ ranked items query recency ↔ Matches items query row := by
  rw [ranked, List.mem_insertionSort, mem_candidates]

theorem pairwise_ranked : (ranked items query recency).Pairwise (RanksAbove items recency) := by
  have hstrict := (@separates_candidates _ items query recency).pairwise_insertionSort
    (candidates_nodup _ query).of_map
  refine hstrict.imp_of_mem fun {left right} hleft hright hbefore => ?_
  apply (compareFound_eq_lt (mem_ranked.mp hleft) (mem_ranked.mp hright)).mp
  exact Sorting.eq_lt_of_strict hbefore

theorem search_eq_take (limit : Nat) :
    (SearchIndex.build items).search query recency items limit =
      (ranked items query recency).take limit := rfl

/-! ### The order is strict and total -/

theorem RanksAbove.irrefl {row : ResultRow} (h : Matches items query row) :
    ¬ RanksAbove items recency row row := by
  rw [← compareFound_eq_lt h h, compareFound_self]
  simp

theorem RanksAbove.trans {a b c : ResultRow} (ha : Matches items query a) (hb : Matches items query b)
    (hc : Matches items query c) (hab : RanksAbove items recency a b)
    (hbc : RanksAbove items recency b c) : RanksAbove items recency a c := by
  rw [← compareFound_eq_lt ha hb] at hab
  rw [← compareFound_eq_lt hb hc] at hbc
  rw [← compareFound_eq_lt ha hc]
  exact Std.TransCmp.lt_trans hab hbc

theorem RanksAbove.total {a b : ResultRow} (ha : Matches items query a) (hb : Matches items query b)
    (hne : a ≠ b) : RanksAbove items recency a b ∨ RanksAbove items recency b a := by
  rw [← compareFound_eq_lt ha hb, ← compareFound_eq_lt hb ha]
  have hseparates := @separates_candidates _ items query recency a (mem_candidates.mpr ha) b
    (mem_candidates.mpr hb)
  have hback : compareFound items recency b a = (compareFound items recency a b).swap :=
    Std.OrientedCmp.eq_swap
  cases hcmp : compareFound items recency a b with
  | lt => exact .inl rfl
  | eq => exact absurd (hseparates (by simp [hcmp]) (by simp [hback, hcmp])) hne
  | gt => exact .inr (by simp [hback, hcmp])

/-- Whatever sorts the rows found by this order makes the same list. -/
theorem eq_ranked {sorted : List ResultRow} (hmem : ∀ row, row ∈ sorted ↔ Matches items query row)
    (hsorted : sorted.Pairwise (RanksAbove items recency)) : sorted = ranked items query recency := by
  have hcompared : sorted.Pairwise fun left right => compareFound items recency left right = .lt :=
    hsorted.imp_of_mem fun hleft hright habove =>
      (compareFound_eq_lt ((hmem _).mp hleft) ((hmem _).mp hright)).mpr habove
  have hnodup : sorted.Nodup := hcompared.imp fun {left right} hbefore heq => by
    rw [heq, compareFound_self] at hbefore
    simp at hbefore
  have hperm : sorted.Perm ((SearchIndex.build items).candidates query) := by
    refine (List.perm_ext_iff_of_nodup hnodup (candidates_nodup _ query).of_map).mpr fun row => ?_
    rw [hmem, mem_candidates]
  apply (@separates_candidates _ items query recency).eq_insertionSort hperm
  exact hcompared.imp fun hbefore => by simp [hbefore]

/-- **A search returns the exact top of a strict total order** of the rows that match. -/
theorem search_is_top (items : List ItemSummary) (query : String) (recency : ItemKey → Option Int) :
    (∃ sorted : List ResultRow,
      (∀ row, row ∈ sorted ↔ Matches items query row) ∧
      sorted.Pairwise (RanksAbove items recency) ∧
      (∀ other : List ResultRow, (∀ row, row ∈ other ↔ Matches items query row) →
        other.Pairwise (RanksAbove items recency) → other = sorted) ∧
      (sorted.map (·.item)).Nodup ∧
      ∀ limit, (SearchIndex.build items).search query recency items limit =
        sorted.take (min limit sorted.length)) ∧
      (∀ few many, few ≤ many →
        (SearchIndex.build items).search query recency items few <+:
          (SearchIndex.build items).search query recency items many) ∧
      (∀ a, Matches items query a → ¬ RanksAbove items recency a a) ∧
      (∀ a b c, Matches items query a → Matches items query b → Matches items query c →
        RanksAbove items recency a b → RanksAbove items recency b c → RanksAbove items recency a c) ∧
      (∀ a b, Matches items query a → Matches items query b → a ≠ b →
        RanksAbove items recency a b ∨ RanksAbove items recency b a) ∧
      (TextSupport.patternAtoms query = [] → ∀ row, Matches items query row ↔
        row.item < items.length ∧ row = { item := row.item, score := 0, titleIndices := [] }) := by
  refine ⟨⟨ranked items query recency, fun _ => mem_ranked, pairwise_ranked,
    fun _ => eq_ranked, ?_, fun limit => ?_⟩, fun few many hle => ?_, fun _ => RanksAbove.irrefl,
    fun _ _ _ => RanksAbove.trans, fun _ _ => RanksAbove.total, matches_of_no_atoms⟩
  · exact ((List.perm_insertionSort _ _).map _).nodup_iff.mpr (candidates_nodup _ query)
  · rw [search_eq_take, List.take_eq_take_iff]
    omega
  · rw [search_eq_take, search_eq_take]
    exact List.take_prefix_take_left hle

end Searching

end CosmicPass
