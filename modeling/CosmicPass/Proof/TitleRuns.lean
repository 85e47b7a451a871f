import CosmicPass.Proof.Highlight

/-!
# A title is cut into runs between its characters

`title_runs` keeps an offset in bytes, a position in characters and a place among the indices in step.
Each offset it slices at is the length of the characters before it, so the slices are those of the
runs over characters.
-/

namespace CosmicPass

open ByteText
open String (utf8Len)

/-! ### The loop over bytes -/

section Loop

variable {title : String} {indices : List UInt32}

theorem drop_skip (position next : Nat) :
    indices.drop (TitleLoop.skip indices position next) =
      (indices.drop next).dropWhile fun i => i.toNat < position := by
  induction next using TitleLoop.skip.induct indices position with
  | case1 next hpassed ih =>
      rw [TitleLoop.skip, if_pos hpassed, ih]
      obtain ⟨hlt, hpast⟩ := hpassed
      rw [List.drop_eq_getElem_cons hlt, List.dropWhile_cons_of_pos]
      simpa [List.getElem?_eq_getElem hlt] using hpast
  | case2 next hleft =>
      rw [TitleLoop.skip, if_neg hleft]
      by_cases hlt : next < indices.length
      · have hnot : ¬ indices[next].toNat < position := by
          simpa [hlt, List.getElem?_eq_getElem hlt] using hleft
        rw [List.drop_eq_getElem_cons hlt, List.dropWhile_cons_of_neg (by simpa using hnot)]
      · rw [List.drop_eq_nil_of_le (not_lt.mp hlt), List.dropWhile_nil]

theorem finish_eq {before current : List Char} (htitle : title.toList = before ++ current)
    (runs : List (List Char × Bool)) (matched : Bool) (next position : Nat) :
    TitleLoop.finish title { runs, start := utf8Len before, matched, next } =
      some (runs ++ titleRunsFrom position (indices.drop next) current matched []) := by
  have hsize : title.utf8ByteSize = utf8Len (before ++ current) := by
    rw [← htitle, ← String.utf8ByteSize_ofList, String.ofList_toList]
  rw [TitleLoop.finish, hsize, titleRunsFrom]
  dsimp only
  by_cases hempty : current = []
  · rw [if_neg (by simp [hempty]), if_pos hempty, List.append_nil]
  · have hlt : utf8Len before < utf8Len (before ++ current) := by
      have hpos : utf8Len current ≠ 0 := fun hzero => hempty (String.utf8Len_eq_zero.mp hzero)
      rw [String.utf8Len_append]
      omega
    have hslice : slice title (utf8Len before) (utf8Len (before ++ current)) = some current :=
      @slice_of_append _ _ _ [] (by rw [htitle, List.append_nil])
    rw [if_pos hlt, if_neg hempty, hslice]
    rfl

/-- From any point of the title the loop pushes the runs that the characters have. -/
theorem foldlM_step (rest before current : List Char)
    (htitle : title.toList = before ++ current ++ rest) (runs : List (List Char × Bool))
    (matched : Bool) (next position : Nat) :
    (((charIndices (utf8Len (before ++ current)) rest).zipIdx position).foldlM
        (TitleLoop.step title indices) { runs, start := utf8Len before, matched, next }).bind
        (TitleLoop.finish title) =
      some (runs ++ titleRunsFrom position (indices.drop next) current matched rest) := by
  induction rest generalizing before current runs matched next position with
  | nil => exact finish_eq (by rw [htitle, List.append_nil]) runs matched next position
  | cons c rest ih =>
      have hbefore : utf8Len before < utf8Len (before ++ current) ↔ current ≠ [] := by
        have hzero := @String.utf8Len_eq_zero current
        rw [String.utf8Len_append, ← not_iff_not, not_not, ← hzero]
        omega
      have hnext : utf8Len (before ++ current) + c.utf8Size = utf8Len (before ++ (current ++ [c])) := by
        simp [Nat.add_assoc]
      have hhere : (indices[TitleLoop.skip indices position next]?.any fun i => i.toNat = position) =
          (((indices.drop next).dropWhile fun i => i.toNat < position).head?.any fun i =>
            i.toNat = position) := by
        rw [← drop_skip, List.head?_drop]
      rw [charIndices, List.zipIdx_cons, List.foldlM_cons, titleRunsFrom, TitleLoop.step, ← hhere,
        ← drop_skip]
      dsimp only
      by_cases hcut : current ≠ [] ∧
          (indices[TitleLoop.skip indices position next]?.any fun i => i.toNat = position) ≠ matched
      · rw [if_pos hcut, if_pos (by rwa [hbefore]),
          slice_of_append htitle]
        have htitle' : title.toList = before ++ current ++ [c] ++ rest := by simp [htitle]
        rw [hnext, ← List.append_assoc]
        refine (ih (before ++ current) [c] htitle' _ _ _ _).trans ?_
        rw [List.append_assoc]
        rfl
      · rw [if_neg hcut, if_neg (by rwa [hbefore])]
        rw [hnext]
        exact ih before (current ++ [c]) (by simp [htitle]) _ _ _ _

theorem slicedTitleRuns_eq (title : String) (indices : List UInt32) :
    slicedTitleRuns title indices = some (titleRuns title indices) :=
  foldlM_step title.toList [] [] rfl [] false 0 0

end Loop

/-! ### The runs over characters -/

section Runs

variable {position : Nat} {indices : List UInt32} {current : List Char} {matched : Bool}
  {chars : List Char}

theorem ne_nil_of_mem_titleRunsFrom {run : List Char × Bool}
    (hrun : run ∈ titleRunsFrom position indices current matched chars) : run.1 ≠ [] := by
  induction chars generalizing position indices current matched with
  | nil =>
      rw [titleRunsFrom] at hrun
      split at hrun
      next => cases hrun
      next hcurrent =>
        rw [List.mem_singleton.mp hrun]
        exact hcurrent
  | cons c rest ih =>
      rw [titleRunsFrom] at hrun
      split at hrun
      next hcut =>
        cases List.mem_cons.mp hrun with
        | inl hhere => exact hhere ▸ hcut.1
        | inr hlater => exact ih hlater
      next => exact ih hrun

/-- A run that is open at some point stays the first one, with its flag. -/
theorem head_titleRunsFrom {first : List Char × Bool} (hcurrent : current ≠ [])
    (hfirst : first ∈ (titleRunsFrom position indices current matched chars).head?) :
    first.2 = matched := by
  induction chars generalizing position indices current matched with
  | nil =>
      rw [titleRunsFrom, if_neg hcurrent] at hfirst
      exact congrArg Prod.snd (Option.some.inj hfirst).symm
  | cons c rest ih =>
      rw [titleRunsFrom] at hfirst
      split at hfirst
      next => exact congrArg Prod.snd (Option.some.inj hfirst).symm
      next hsame =>
        rw [ih (List.append_ne_nil_of_left_ne_nil hcurrent _) hfirst]
        by_contra hne
        exact hsame ⟨hcurrent, hne⟩

theorem isChain_titleRunsFrom :
    (titleRunsFrom position indices current matched chars).IsChain fun left right =>
      left.2 ≠ right.2 := by
  induction chars generalizing position indices current matched with
  | nil =>
      rw [titleRunsFrom]
      split
      next => exact List.isChain_nil
      next => exact List.isChain_singleton _
  | cons c rest ih =>
      rw [titleRunsFrom]
      split
      next hcut =>
        refine List.isChain_cons.mpr ⟨fun first hfirst => ?_, ih⟩
        rw [head_titleRunsFrom (List.cons_ne_nil c []) hfirst]
        exact hcut.2.symm
      next => exact ih

end Runs

/-! ### Where a character lies -/

theorem length_boldness (spans : List (List Char × Bool)) :
    (boldness spans).length = (spans.flatMap Prod.fst).length := by
  simp [boldness, List.length_flatMap]

/-- Every character of a run has the flag of the run. -/
theorem getElem?_boldness {left right : List (List Char × Bool)} {run : List Char × Bool} {p : Nat}
    (hstart : (left.flatMap Prod.fst).length ≤ p)
    (hstop : p < ((left ++ [run]).flatMap Prod.fst).length) :
    (boldness (left ++ run :: right))[p]? = some run.2 := by
  have hleft := length_boldness left
  have hplace : p - (boldness left).length < run.1.length := by
    simp only [List.flatMap_append, List.flatMap_singleton, List.length_append] at hstop
    omega
  have hsplit : boldness (left ++ run :: right) = boldness left ++ boldness (run :: right) :=
    List.flatMap_append
  rw [hsplit, List.getElem?_append_right (by omega), boldness_cons,
    List.getElem?_append_left (by rwa [List.length_replicate]), List.getElem?_replicate_of_lt hplace]

/-- **The runs partition the title.** -/
theorem title_cut_into_runs (title : String) {indices : List UInt32}
    (hsorted : indices.Pairwise (· < ·)) :
    ∃ runs, slicedTitleRuns title indices = some runs ∧
      runs.flatMap Prod.fst = title.toList ∧
      (∀ run ∈ runs, run.1 ≠ []) ∧
      (runs.IsChain fun left right => left.2 ≠ right.2) ∧
      ∀ left run right, runs = left ++ run :: right →
        String.Pos.Raw.IsValid title ⟨utf8Len (left.flatMap Prod.fst)⟩ ∧
        String.Pos.Raw.IsValid title ⟨utf8Len ((left ++ [run]).flatMap Prod.fst)⟩ ∧
        ∀ p, (left.flatMap Prod.fst).length ≤ p → p < ((left ++ [run]).flatMap Prod.fst).length →
          (run.2 = true ↔ ∃ i ∈ indices, i.toNat = p) := by
  have htext : (titleRuns title indices).flatMap Prod.fst = title.toList :=
    flatMap_titleRunsFrom [] false title.toList
  refine ⟨titleRuns title indices, slicedTitleRuns_eq title indices, htext,
    fun run => ne_nil_of_mem_titleRunsFrom, isChain_titleRunsFrom, ?_⟩
  intro left run right hruns
  have hcut : title.toList = (left ++ [run]).flatMap Prod.fst ++ right.flatMap Prod.fst := by
    rw [← htext, hruns, ← List.flatMap_append, List.append_assoc, List.singleton_append]
  refine ⟨?_, isValid_of_append hcut, fun p hstart hstop => ?_⟩
  · rw [List.flatMap_append, List.append_assoc] at hcut
    exact isValid_of_append hcut
  · have hbold : boldness (titleRuns title indices) = (List.range' 0 title.toList.length).map fun p =>
        decide (p ∈ indices.map UInt32.toNat) :=
      boldness_titleRunsFrom hsorted [] false title.toList
    have hp : p < title.toList.length := by
      rw [hcut, List.length_append]
      omega
    have hflag := @getElem?_boldness left right run p hstart hstop
    rw [← hruns, hbold, List.getElem?_map, List.getElem?_range' hp, Option.map_some,
      Option.some.injEq, Nat.one_mul, Nat.zero_add] at hflag
    rw [← hflag, decide_eq_true_iff, List.mem_map]

theorem title_cut_into_runs_of_accents :
    ∃ runs, slicedTitleRuns "été" [1, 7] = some runs ∧
      runs.flatMap Prod.fst = "été".toList ∧
      (∀ run ∈ runs, run.1 ≠ []) ∧
      (runs.IsChain fun left right => left.2 ≠ right.2) ∧
      ∀ left run right, runs = left ++ run :: right →
        String.Pos.Raw.IsValid "été" ⟨utf8Len (left.flatMap Prod.fst)⟩ ∧
        String.Pos.Raw.IsValid "été" ⟨utf8Len ((left ++ [run]).flatMap Prod.fst)⟩ ∧
        ∀ p, (left.flatMap Prod.fst).length ≤ p → p < ((left ++ [run]).flatMap Prod.fst).length →
          (run.2 = true ↔ ∃ i ∈ [(1 : UInt32), 7], i.toNat = p) :=
  title_cut_into_runs "été" (by decide)

end CosmicPass
