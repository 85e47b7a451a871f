import CosmicPass.Proof.Ranking

/-!
# The fragments of a query

Each fragment adds its best score and its title positions to the row of an entry, whatever the other
fragments are: the row is a sum and a union, which no order of the fragments changes and which only
grows with more of them. The sum is one of `u32` and stays below its bound for as many fragments as
any query that can be typed has.
-/

namespace CosmicPass

section Fragments

variable [TextSupport] {entry : Entry} {item : Nat} {atoms other : List TextSupport.Atom}

def matchedScore (entry : Entry) (atom : TextSupport.Atom) : UInt32 :=
  ((scoreAtom entry atom).map Prod.fst).getD 0

def matchedTitle (entry : Entry) (atom : TextSupport.Atom) : List UInt32 :=
  ((TextSupport.indices atom entry.title).map Prod.snd).getD []

def totalScore (entry : Entry) : List TextSupport.Atom → UInt32
  | [] => 0
  | atom :: rest => matchedScore entry atom + totalScore entry rest

/-- The sum of the scores, with no bound to run into. -/
def nominalScore (entry : Entry) : List TextSupport.Atom → Nat
  | [] => 0
  | atom :: rest => (matchedScore entry atom).toNat + nominalScore entry rest

/-- The row of an entry that all the fragments match. -/
def matchedRow (entry : Entry) (item : Nat) (atoms : List TextSupport.Atom) : ResultRow :=
  { item
    score := totalScore entry atoms
    titleIndices :=
      ((atoms.flatMap (matchedTitle entry)).insertionSort (· ≤ ·)).destutter (· ≠ ·) }

theorem scoreAtom_eq {atom : TextSupport.Atom} (h : (scoreAtom entry atom).isSome) :
    scoreAtom entry atom = some (matchedScore entry atom, matchedTitle entry atom) := by
  obtain ⟨⟨score, found⟩, hscore⟩ := Option.isSome_iff_exists.mp h
  have hfound : found = matchedTitle entry atom := by
    simp only [scoreAtom, Option.map_eq_some_iff, Prod.mk.injEq] at hscore
    obtain ⟨_, _, _, rfl⟩ := hscore
    rfl
  rw [matchedScore, hscore, hfound]
  rfl

theorem scoreAtoms_eq (total : UInt32) (positions : List UInt32) :
    scoreAtoms entry atoms total positions =
      if ∀ atom ∈ atoms, (scoreAtom entry atom).isSome then
        some (total + totalScore entry atoms, positions ++ atoms.flatMap (matchedTitle entry))
      else none := by
  induction atoms generalizing total positions with
  | nil => simp [scoreAtoms, totalScore]
  | cons atom rest ih =>
      unfold scoreAtoms
      cases hatom : scoreAtom entry atom with
      | none => simp [hatom]
      | some found =>
          have hsome : (scoreAtom entry atom).isSome := by rw [hatom]; rfl
          rw [scoreAtom_eq hsome] at hatom
          obtain rfl := Option.some.inj hatom
          simp only [ih, totalScore, List.flatMap_cons, List.append_assoc, UInt32.add_assoc,
            List.forall_mem_cons, hsome, true_and]

theorem scoreEntry_eq (atoms : List TextSupport.Atom) (entry : Entry) (item : Nat) :
    scoreEntry atoms entry item =
      if ∀ atom ∈ atoms, (scoreAtom entry atom).isSome then some (matchedRow entry item atoms)
      else none := by
  rw [scoreEntry, scoreAtoms_eq]
  by_cases hall : ∀ atom ∈ atoms, (scoreAtom entry atom).isSome
  · rw [if_pos hall, if_pos hall, UInt32.zero_add, List.nil_append]
    rfl
  · rw [if_neg hall, if_neg hall]

theorem scoreEntry_eq_some {row : ResultRow} :
    scoreEntry atoms entry item = some row ↔
      (∀ atom ∈ atoms, (scoreAtom entry atom).isSome) ∧ row = matchedRow entry item atoms := by
  rw [scoreEntry_eq]
  split
  next hall => exact ⟨fun heq => ⟨hall, (Option.some.inj heq).symm⟩, fun h => congrArg some h.2.symm⟩
  next hsome => exact ⟨fun heq => absurd heq (by simp), fun h => absurd h.1 hsome⟩

/-! ### The order of the fragments -/

theorem totalScore_perm (h : other.Perm atoms) : totalScore entry other = totalScore entry atoms := by
  induction h with
  | nil => rfl
  | cons atom _ ih => rw [totalScore, totalScore, ih]
  | swap left right rest =>
      simp only [totalScore]
      rw [← UInt32.add_assoc, ← UInt32.add_assoc, UInt32.add_comm (matchedScore entry right)]
  | trans _ _ hleft hright => exact hleft.trans hright

omit [TextSupport] in
theorem separates_positions (positions : List UInt32) :
    Sorting.Separates (fun left right : UInt32 => left ≤ right) positions :=
  fun _ _ _ _ hle hge => UInt32.le_antisymm hle hge

theorem matchedRow_perm (h : other.Perm atoms) :
    matchedRow entry item other = matchedRow entry item atoms := by
  have hpositions := h.flatMap_right (matchedTitle entry)
  rw [matchedRow, matchedRow, totalScore_perm h,
    (separates_positions _).insertionSort_perm hpositions]

theorem scoreEntry_perm (h : other.Perm atoms) :
    scoreEntry other entry item = scoreEntry atoms entry item := by
  rw [scoreEntry_eq, scoreEntry_eq, matchedRow_perm h]
  simp only [h.mem_iff]

/-! ### The positions -/

omit [TextSupport] in
theorem destutter_sorted (positions : List UInt32) :
    (positions.insertionSort (· ≤ ·)).destutter (· ≠ ·) = (positions.insertionSort (· ≤ ·)).dedup :=
  (List.pairwise_insertionSort _ positions).destutter_eq_dedup

theorem pairwise_titleIndices : (matchedRow entry item atoms).titleIndices.Pairwise (· < ·) := by
  have hsorted := List.pairwise_insertionSort (· ≤ ·) (atoms.flatMap (matchedTitle entry))
  rw [matchedRow, destutter_sorted]
  refine ((hsorted.sublist (List.dedup_sublist _)).and (List.nodup_dedup _)).imp ?_
  rintro left right ⟨hle, hne⟩
  exact UInt32.lt_of_le_of_ne hle hne

theorem mem_titleIndices {position : UInt32} :
    position ∈ (matchedRow entry item atoms).titleIndices ↔
      ∃ atom ∈ atoms, ∃ score found,
        TextSupport.indices atom entry.title = some (score, found) ∧ position ∈ found := by
  rw [matchedRow, destutter_sorted, List.mem_dedup, List.mem_insertionSort, List.mem_flatMap]
  refine exists_congr fun atom => and_congr_right fun _ => ?_
  cases hfound : TextSupport.indices atom entry.title with
  | none => simp [matchedTitle, hfound]
  | some found => simp [matchedTitle, hfound, Prod.ext_iff]

/-! ### The sum -/

omit [TextSupport] in
theorem bestScore_le {left right : Option UInt32} {bound score : UInt32}
    (hleft : ∀ s, left = some s → s ≤ bound) (hright : ∀ s, right = some s → s ≤ bound)
    (h : bestScore left right = some score) : score ≤ bound := by
  cases left with
  | none => exact hright score h
  | some l =>
      cases right with
      | none => exact hleft score h
      | some r =>
          obtain rfl := Option.some.inj h
          change (if l ≤ r then r else l) ≤ bound
          split
          · exact hright r rfl
          · exact hleft l rfl

/-- Twice the highest `u16`. -/
theorem matchedScore_le (entry : Entry) (atom : TextSupport.Atom) :
    matchedScore entry atom ≤ 131070 := by
  cases hscore : scoreAtom entry atom with
  | none => simp [matchedScore, hscore]
  | some found =>
      simp only [scoreAtom, Option.map_eq_some_iff] at hscore
      obtain ⟨score, hbest, rfl⟩ := hscore
      have hscore : matchedScore entry atom = score := by simp [matchedScore, scoreAtom, hbest]
      rw [hscore]
      refine bestScore_le ?_ ?_ hbest
      · intro s hs
        obtain ⟨title, -, rfl⟩ := Option.map_eq_some_iff.mp hs
        have hlt := title.1.toNat_lt
        rw [UInt32.le_iff_toNat_le]
        simp [titleWeight]
        omega
      · intro s hs
        obtain ⟨highest, -, rfl⟩ := Option.map_eq_some_iff.mp hs
        have hlt := highest.toNat_lt
        rw [UInt32.le_iff_toNat_le]
        simp
        omega

theorem nominalScore_le (atoms : List TextSupport.Atom) :
    nominalScore entry atoms ≤ 131070 * atoms.length := by
  induction atoms with
  | nil => exact Nat.zero_le _
  | cons atom rest ih =>
      have hatom := UInt32.le_iff_toNat_le.mp (matchedScore_le entry atom)
      rw [nominalScore, List.length_cons, Nat.mul_succ, Nat.add_comm]
      exact Nat.add_le_add ih hatom

theorem nominalScore_lt (hfew : atoms.length ≤ 32768) : nominalScore entry atoms < 2 ^ 32 := by
  have hle := @nominalScore_le _ entry atoms
  omega

theorem totalScore_toNat (h : nominalScore entry atoms < 2 ^ 32) :
    (totalScore entry atoms).toNat = nominalScore entry atoms := by
  induction atoms with
  | nil => rfl
  | cons atom rest ih =>
      rw [nominalScore] at h ⊢
      rw [totalScore, UInt32.toNat_add, ih (by omega), Nat.mod_eq_of_lt h]

theorem nominalScore_sublist (h : other.Sublist atoms) :
    nominalScore entry other ≤ nominalScore entry atoms := by
  induction h with
  | slnil => exact le_rfl
  | cons atom _ ih => exact ih.trans (Nat.le_add_left _ _)
  | cons_cons atom _ ih => exact Nat.add_le_add_left ih _

/-! ### Fewer fragments -/

theorem scoreEntry_of_subset (h : other ⊆ atoms) {row : ResultRow}
    (hrow : scoreEntry atoms entry item = some row) :
    scoreEntry other entry item = some (matchedRow entry item other) := by
  obtain ⟨hall, -⟩ := scoreEntry_eq_some.mp hrow
  exact scoreEntry_eq_some.mpr ⟨fun atom hmem => hall atom (h hmem), rfl⟩

theorem score_le_of_sublist (h : other.Sublist atoms) (hfew : atoms.length ≤ 32768) :
    (matchedRow entry item other).score ≤ (matchedRow entry item atoms).score := by
  have hless := h.length_le
  rw [UInt32.le_iff_toNat_le, matchedRow, matchedRow, totalScore_toNat (nominalScore_lt hfew),
    totalScore_toNat (nominalScore_lt (hless.trans hfew))]
  exact nominalScore_sublist h

variable {items : List ItemSummary} {query longer : String} {recency : ItemKey → Option Int}

theorem mem_search_of_length_le {limit : Nat} (h : items.length ≤ limit) {row : ResultRow} :
    row ∈ (SearchIndex.build items).search query recency items limit ↔ Matches items query row := by
  have hlength : (ranked items query recency).length ≤ limit := by
    have hsub := (SearchIndex.build items).candidates_sublist query
    have hle := hsub.length_le
    rw [List.length_map, List.length_range, SearchIndex.length_build] at hle
    rw [ranked, List.length_insertionSort]
    exact hle.trans h
  rw [search_eq_take, List.take_of_length_le hlength, mem_ranked]

/-- Adding a fragment never adds a row. -/
theorem search_narrows (h : TextSupport.patternAtoms query ⊆ TextSupport.patternAtoms longer)
    {limit : Nat} (hlimit : items.length ≤ limit) {row : ResultRow}
    (hrow : row ∈ (SearchIndex.build items).search longer recency items limit) :
    ∃ row' ∈ (SearchIndex.build items).search query recency items limit, row'.item = row.item := by
  obtain ⟨item, hitem, hscore⟩ := (mem_search_of_length_le hlimit).mp hrow
  refine ⟨matchedRow (SearchIndex.buildEntry item) row.item (TextSupport.patternAtoms query),
    (mem_search_of_length_le hlimit).mpr ⟨item, hitem, ?_⟩, rfl⟩
  exact scoreEntry_of_subset h hscore

/-- **The fragments of a query commute and only narrow.** -/
theorem fragments_commute (entry : Entry) (item : Nat) {atoms : List TextSupport.Atom}
    (hfew : atoms.length ≤ 32768) :
    nominalScore entry atoms < 2 ^ 32 ∧
      (∀ row, scoreEntry atoms entry item = some row →
        row.score.toNat = nominalScore entry atoms ∧
        row.titleIndices.Pairwise (· < ·) ∧
        ∀ position, position ∈ row.titleIndices ↔ ∃ atom ∈ atoms, ∃ score found,
          TextSupport.indices atom entry.title = some (score, found) ∧ position ∈ found) ∧
      (∀ other : List TextSupport.Atom, other.Perm atoms →
        scoreEntry other entry item = scoreEntry atoms entry item) ∧
      (∀ fewer : List TextSupport.Atom, fewer.Sublist atoms → ∀ row,
        scoreEntry atoms entry item = some row →
        ∃ row', scoreEntry fewer entry item = some row' ∧ row'.score ≤ row.score) ∧
      ∀ items query longer recency limit, items.length ≤ limit →
        (TextSupport.patternAtoms query).Sublist (TextSupport.patternAtoms longer) →
        ∀ row ∈ (SearchIndex.build items).search longer recency items limit,
          ∃ row' ∈ (SearchIndex.build items).search query recency items limit,
            row'.item = row.item := by
  refine ⟨nominalScore_lt hfew, fun row hrow => ?_, fun _ => scoreEntry_perm,
    fun fewer hsub row hrow => ?_, fun _ _ _ _ _ hlimit hsub _ => search_narrows hsub.subset hlimit⟩
  · obtain ⟨-, rfl⟩ := scoreEntry_eq_some.mp hrow
    exact ⟨totalScore_toNat (nominalScore_lt hfew), pairwise_titleIndices, fun _ => mem_titleIndices⟩
  · refine ⟨_, scoreEntry_of_subset hsub.subset hrow, ?_⟩
    obtain ⟨-, rfl⟩ := scoreEntry_eq_some.mp hrow
    exact score_le_of_sublist hsub hfew

end Fragments

section Examples

/-- Fragments of one letter, each of which matches where the letter first stands. -/
abbrev letterText : TextSupport where
  Atom := Char
  patternAtoms query := query.toList.filter fun c => c ≠ ' '
  score letter text := if letter ∈ text.toList then some 16 else none
  indices letter text :=
    if letter ∈ text.toList then some (16, [UInt32.ofNat (text.toList.idxOf letter)]) else none
  toLowercase text := text
  toUppercase text := text

attribute [local instance] letterText

/-- `h b g` and `g h b` find the same in the title `github`. -/
theorem fragments_commute_github :
    scoreEntry ['h', 'b', 'g'] ⟨"github", [], "github"⟩ 0 =
        some { item := 0, score := 96, titleIndices := [0, 3, 5] } ∧
      scoreEntry ['g', 'h', 'b'] ⟨"github", [], "github"⟩ 0 =
        scoreEntry ['h', 'b', 'g'] ⟨"github", [], "github"⟩ 0 := by
  obtain ⟨-, -, hperm, -⟩ := fragments_commute ⟨"github", [], "github"⟩ 0
    (show (['h', 'b', 'g'] : List Char).length ≤ 32768 by decide)
  exact ⟨by decide, hperm ['g', 'h', 'b'] (@List.perm_append_comm _ ['g'] ['h', 'b'])⟩

end Examples

end CosmicPass
