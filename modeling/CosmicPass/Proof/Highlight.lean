import CosmicPass.Library.Blocks
import CosmicPass.Proof.Fragments
import CosmicPass.Proof.Results
import CosmicPass.View.List

/-!
# What the bold characters of a title say

The matcher numbers the grapheme clusters of a title, and the runs on screen read its numbers as
positions of characters. The two agree as long as every cluster up to a match is one character; the
first longer one moves the bold away from what matched.
-/

namespace CosmicPass

/-- Whether each character of the spans is bold, in the order they are drawn in. -/
def boldness (spans : List (List Char × Bool)) : List Bool :=
  spans.flatMap fun span => List.replicate span.1.length span.2

theorem boldness_cons (run : List Char) (matched : Bool) (rest : List (List Char × Bool)) :
    boldness ((run, matched) :: rest) = List.replicate run.length matched ++ boldness rest := rfl

/-! ### The runs -/

section Runs

variable {position : Nat} {indices : List UInt32}

theorem mem_dropWhile_iff {here : UInt32} (hhere : position ≤ here.toNat) :
    here ∈ indices.dropWhile (fun i => i.toNat < position) ↔ here ∈ indices := by
  refine ⟨fun hmem => (List.dropWhile_suffix _).subset hmem, fun hmem => ?_⟩
  rw [← @List.takeWhile_append_dropWhile _ (fun i => i.toNat < position) indices,
    List.mem_append] at hmem
  cases hmem with
  | inl hpassed =>
      have hlt := List.mem_takeWhile_imp hpassed
      simp only [decide_eq_true_eq] at hlt
      omega
  | inr hleft => exact hleft

/-- Once what lies before a position is passed, the position is among the indices if it comes first. -/
theorem head_eq_iff (hsorted : indices.Pairwise (· < ·)) :
    ((indices.dropWhile fun i => i.toNat < position).head?.any fun i => i.toNat = position) =
      decide (position ∈ indices.map UInt32.toNat) := by
  rw [Bool.eq_iff_iff, decide_eq_true_eq, Option.any_eq_true, List.mem_map]
  constructor
  · rintro ⟨i, hhead, hi⟩
    have hmem := (List.dropWhile_suffix _).subset (List.mem_of_head? hhead)
    exact ⟨i, hmem, of_decide_eq_true hi⟩
  · rintro ⟨i, hmem, hi⟩
    have hleft := (mem_dropWhile_iff hi.ge).mpr hmem
    cases hrest : indices.dropWhile fun i => i.toNat < position with
    | nil => simp [hrest] at hleft
    | cons first rest =>
        have hfirst : ¬ first.toNat < position := by
          simpa [hrest] using List.head?_dropWhile_not (fun i : UInt32 => i.toNat < position) indices
        have hpairwise : (first :: rest).Pairwise (· < ·) :=
          hrest ▸ hsorted.sublist (List.dropWhile_suffix _).sublist
        rw [hrest, List.mem_cons] at hleft
        refine ⟨first, rfl, decide_eq_true ?_⟩
        cases hleft with
        | inl heq => rw [← heq, hi]
        | inr hlater =>
            have hlt := UInt32.lt_iff_toNat_lt.mp (List.rel_of_pairwise_cons hpairwise hlater)
            omega

theorem boldness_titleRunsFrom (hsorted : indices.Pairwise (· < ·)) (current : List Char)
    (matched : Bool) (chars : List Char) :
    boldness (titleRunsFrom position indices current matched chars) =
      List.replicate current.length matched ++
        (List.range' position chars.length).map fun p => decide (p ∈ indices.map UInt32.toNat) := by
  induction chars generalizing position indices current matched with
  | nil =>
      unfold titleRunsFrom
      split
      next hempty => simp [hempty, boldness]
      next => simp [boldness]
  | cons c rest ih =>
      have hleft : (indices.dropWhile fun i => i.toNat < position).Pairwise (· < ·) :=
        hsorted.sublist (List.dropWhile_suffix _).sublist
      have hrest : ((List.range' (position + 1) rest.length).map fun p =>
          decide (p ∈ (indices.dropWhile fun i => i.toNat < position).map UInt32.toNat)) =
          (List.range' (position + 1) rest.length).map fun p =>
            decide (p ∈ indices.map UInt32.toNat) := by
        apply List.map_congr_left
        intro p hp
        have hle := (List.mem_range'_1.mp hp).1
        rw [decide_eq_decide, List.mem_map, List.mem_map]
        refine exists_congr fun i => and_congr_left fun hi => mem_dropWhile_iff ?_
        omega
      rw [titleRunsFrom, List.length_cons, List.range'_succ, List.map_cons, head_eq_iff hsorted]
      split
      next => rw [boldness_cons, ih hleft, hrest, List.length_singleton]; rfl
      next hsame =>
        rw [ih hleft, hrest, List.length_append, List.length_singleton]
        by_cases hempty : current = []
        · rw [hempty]
          rfl
        · have hmatched : decide (position ∈ indices.map UInt32.toNat) = matched := by
            by_contra hne
            exact hsame ⟨hempty, hne⟩
          rw [hmatched, List.replicate_succ', List.append_assoc]
          rfl

theorem flatMap_titleRunsFrom (current : List Char) (matched : Bool) (chars : List Char) :
    (titleRunsFrom position indices current matched chars).flatMap Prod.fst = current ++ chars := by
  induction chars generalizing position indices current matched with
  | nil =>
      unfold titleRunsFrom
      split
      next hempty => simp [hempty]
      next => simp
  | cons c rest ih =>
      rw [titleRunsFrom]
      split
      next => rw [List.flatMap_cons, ih]; rfl
      next => rw [ih, List.append_assoc]; rfl

end Runs

theorem boldness_titleSpans {item : ItemSummary} {indices : List UInt32}
    (hshown : item.displayTitle = item.title) (hsorted : indices.Pairwise (· < ·)) :
    boldness (titleSpans item indices) = (List.range item.title.toList.length).map fun p =>
      decide (p ∈ indices.map UInt32.toNat) := by
  unfold titleSpans
  dsimp only
  split
  next hplain =>
    obtain rfl := hplain.resolve_right fun hne => hne hshown
    simp [boldness, hshown]
  next =>
    rw [titleRuns, boldness_titleRunsFrom hsorted, hshown, List.range_eq_range']
    rfl

theorem flatMap_titleSpans {item : ItemSummary} {indices : List UInt32}
    (hshown : item.displayTitle = item.title) :
    (titleSpans item indices).flatMap Prod.fst = item.title.toList := by
  unfold titleSpans
  dsimp only
  split
  next => simp [hshown]
  next => rw [titleRuns, flatMap_titleRunsFrom, hshown, List.nil_append]

example : titleRuns "GitHub" [0, 2, 3] =
    [(['G'], true), (['i'], false), (['t', 'H'], true), (['u', 'b'], false)] := by decide

/-! ### The clusters -/

section Clusters

variable [TextSupport]

/-- The extended grapheme clusters of a text. The matcher holds one character for each of them (a byte,
if the text is ASCII without a line break of two), and reports positions into that sequence. -/
structure Clusters where
  split : String → List (List Char)
  flatten_split : ∀ text, (split text).flatten = text.toList
  ne_nil : ∀ text, ∀ cluster ∈ split text, cluster ≠ []
  positions : ∀ atom text score found, TextSupport.indices atom text = some (score, found) →
    ∀ position ∈ found, position.toNat < (split text).length

/-- Some fragment of the query matched this cluster of the title. -/
def ClusterMatched (query title : String) (cluster : Nat) : Prop :=
  ∃ atom ∈ TextSupport.patternAtoms query, ∃ score found,
    TextSupport.indices atom title = some (score, found) ∧ ∃ position ∈ found, position.toNat = cluster

theorem mem_titleIndices_iff {items : List ItemSummary} {query : String} {row : ResultRow}
    {item : ItemSummary} (hmatches : Matches items query row) (hitem : items[row.item]? = some item)
    (cluster : Nat) :
    cluster ∈ row.titleIndices.map UInt32.toNat ↔ ClusterMatched query item.title cluster := by
  obtain ⟨item', hitem', hscore⟩ := hmatches
  obtain rfl : item' = item := Option.some.inj (hitem'.symm.trans hitem)
  obtain ⟨-, hrow⟩ := scoreEntry_eq_some.mp hscore
  rw [hrow, List.mem_map]
  constructor
  · rintro ⟨position, hmem, hposition⟩
    obtain ⟨atom, hatom, score, found, hfound, hmem⟩ := mem_titleIndices.mp hmem
    exact ⟨atom, hatom, score, found, hfound, position, hmem, hposition⟩
  · rintro ⟨atom, hatom, score, found, hfound, position, hmem, hposition⟩
    exact ⟨position, mem_titleIndices.mpr ⟨atom, hatom, score, found, hfound, hmem⟩, hposition⟩

namespace Clusters

variable (clusters : Clusters)

/-- The spans are the title, and its bold characters are those of the clusters that matched. -/
def Highlights (query title : String) (spans : List (List Char × Bool)) : Prop :=
  spans.flatMap Prod.fst = title.toList ∧
    ∀ place cluster : Nat, (Blocks.numbers 0 (clusters.split title))[place]? = some cluster →
      ((boldness spans)[place]? = some true ↔ ClusterMatched query title cluster)

theorem lt_of_clusterMatched {query title : String} {cluster : Nat}
    (h : ClusterMatched query title cluster) : cluster < (clusters.split title).length := by
  obtain ⟨atom, -, score, found, hfound, position, hmem, rfl⟩ := h
  exact clusters.positions atom title score found hfound position hmem

theorem lt_of_numbers {title : String} {place cluster : Nat}
    (h : (Blocks.numbers 0 (clusters.split title))[place]? = some cluster) :
    place < title.toList.length := by
  obtain ⟨hlt, -⟩ := List.getElem?_eq_some_iff.mp h
  rwa [Blocks.length_numbers, clusters.flatten_split] at hlt

/-- What is drawn bold are the positions that are numbers of matched clusters. -/
theorem highlights_titleSpans_iff {items : List ItemSummary} {query : String} {row : ResultRow}
    {item : ItemSummary} (hmatches : Matches items query row) (hitem : items[row.item]? = some item)
    (hshown : item.displayTitle = item.title) :
    clusters.Highlights query item.title (titleSpans item row.titleIndices) ↔
      ∀ place cluster : Nat, (Blocks.numbers 0 (clusters.split item.title))[place]? = some cluster →
        (ClusterMatched query item.title place ↔ ClusterMatched query item.title cluster) := by
  have hsorted : row.titleIndices.Pairwise (· < ·) := by
    obtain ⟨_, -, hscore⟩ := hmatches
    rw [(scoreEntry_eq_some.mp hscore).2]
    exact pairwise_titleIndices
  rw [Highlights, flatMap_titleSpans hshown, boldness_titleSpans hshown hsorted]
  refine (and_iff_right rfl).trans (forall_congr' fun place => forall_congr' fun cluster =>
    imp_congr_right fun hplace => ?_)
  have hlt := clusters.lt_of_numbers hplace
  rw [List.getElem?_map, List.getElem?_range hlt, Option.map_some, Option.some.injEq,
    decide_eq_true_iff, mem_titleIndices_iff hmatches hitem]

end Clusters

/-- **A drawn title highlights what matched** as far as its clusters are single characters: exactly
when each cluster up to any matched one is. -/
theorem highlights_iff (clusters : Clusters) {m : Model}
    (h : Model.system.Reach TransitionSystem.anyStep m) {item : ItemSummary}
    {spans : List (List Char × Bool)} (hdrawn : (item, spans) ∈ m.drawnTitles)
    (hshown : item.displayTitle = item.title) :
    clusters.Highlights m.view.query item.title spans ↔
      ∀ matched, ClusterMatched m.view.query item.title matched →
        ∀ cluster ∈ (clusters.split item.title).take (matched + 1), cluster.length = 1 := by
  obtain ⟨row, hrow, hspans⟩ := List.mem_filterMap.mp hdrawn
  obtain ⟨item', hitem, heq⟩ := Option.map_eq_some_iff.mp hspans
  obtain ⟨rfl, rfl⟩ := Prod.mk.inj heq
  have hmatches : Matches m.data.items m.view.query row := Model.found_of_reach h row hrow
  rw [clusters.highlights_titleSpans_iff hmatches hitem hshown]
  exact Blocks.marks_agree_iff (clusters.ne_nil _) fun _ => clusters.lt_of_clusterMatched

end Clusters

section Examples

def isMark (c : Char) : Bool := 0x300 ≤ c.toNat ∧ c.toNat ≤ 0x36F

/-- A combining mark belongs to the cluster of the character before it. -/
def joinMarks : List Char → List (List Char)
  | [] => []
  | c :: rest =>
      match joinMarks rest with
      | [] => [[c]]
      | cluster :: later =>
          if cluster.head?.any isMark then (c :: cluster) :: later else [c] :: cluster :: later

theorem flatten_joinMarks (chars : List Char) : (joinMarks chars).flatten = chars := by
  induction chars with
  | nil => rfl
  | cons c rest ih =>
      rw [joinMarks]
      split
      next hnone =>
        rw [← ih, hnone]
        rfl
      next cluster later hsome =>
        rw [hsome] at ih
        split
        · rw [← ih]
          rfl
        · rw [← ih]
          rfl

theorem joinMarks_ne_nil (chars : List Char) : ∀ cluster ∈ joinMarks chars, cluster ≠ [] := by
  induction chars with
  | nil => simp [joinMarks]
  | cons c rest ih =>
      rw [joinMarks]
      split
      next => simp
      next first later hsome =>
        rw [hsome] at ih
        split
        · exact List.forall_mem_cons.mpr ⟨List.cons_ne_nil _ _, (List.forall_mem_cons.mp ih).2⟩
        · exact List.forall_mem_cons.mpr ⟨List.cons_ne_nil _ _, ih⟩

def firstChars (text : String) : List Char := (joinMarks text.toList).filterMap List.head?

/-- Fragments of one letter, each of which matches the first cluster that starts with it. -/
abbrev clusterText : TextSupport where
  Atom := Char
  patternAtoms query := query.toList.filter fun c => c ≠ ' '
  score letter text := if letter ∈ firstChars text then some 16 else none
  indices letter text :=
    if letter ∈ firstChars text then some (16, [UInt32.ofNat ((firstChars text).idxOf letter)])
    else none
  toLowercase text := text
  toUppercase text := text

attribute [local instance] clusterText

def markClusters : Clusters where
  split text := joinMarks text.toList
  flatten_split text := flatten_joinMarks text.toList
  ne_nil text := joinMarks_ne_nil text.toList
  positions := by
    intro (letter : Char) text score found h position hmem
    simp only [TextSupport.indices] at h
    split at h
    next hletter =>
      obtain ⟨-, rfl⟩ := Prod.mk.inj (Option.some.inj h)
      have hlt := List.idxOf_lt_length_of_mem hletter
      have hle : (firstChars text).length ≤ (joinMarks text.toList).length :=
        List.length_filterMap_le _ _
      have hmod := Nat.mod_le ((firstChars text).idxOf letter) (2 ^ 32)
      rw [List.mem_singleton.mp hmem, UInt32.toNat_ofNat']
      omega
    next => simp at h

theorem clusterMatched_x {title : String} {score : UInt16} {position : UInt32}
    (h : TextSupport.indices 'x' title = some (score, [position])) (cluster : Nat) :
    ClusterMatched "x" title cluster ↔ position.toNat = cluster := by
  constructor
  · rintro ⟨atom, hatom, score', found, hfound, position', hmem, rfl⟩
    have hatom : atom ∈ ['x'] := hatom
    rw [List.mem_singleton.mp hatom, h] at hfound
    obtain ⟨-, rfl⟩ := Prod.mk.inj (Option.some.inj hfound)
    rw [List.mem_singleton.mp hmem]
  · intro hcluster
    have hquery : 'x' ∈ ['x'] := List.mem_singleton_self 'x'
    exact ⟨'x', hquery, score, [position], h, position, List.mem_singleton_self _, hcluster⟩

def titled (title : List Char) : ItemSummary :=
  { World.mailLogin with title := String.ofList title }

/-- One login comes in, and an `x` is searched. -/
def searchX (item : ItemSummary) : List (Msg × Int) :=
  [(.refreshRequested, 0), (.dataLoaded { vaults := [], items := [item] }, 0), (.queryChanged "x", 0)]

/-- In `xé` the match comes first. -/
theorem highlights_iff_x_first : ∃ m : Model, m.view.query = "x" ∧
    markClusters.Highlights "x" (titled ['x', 'e', '\u0301']).title
      [(['x'], true), (['e', '\u0301'], false)] := by
  have hrun : ∃ m, Model.system.Reach TransitionSystem.anyStep m ∧ m.view.query = "x" ∧
      (titled ['x', 'e', '\u0301'], [(['x'], true), (['e', '\u0301'], false)]) ∈ m.drawnTitles := by
    refine TransitionSystem.exists_reach_of_run (Model.new .default)
      (searchX (titled ['x', 'e', '\u0301'])) ⟨_, rfl⟩ ?_
    decide
  obtain ⟨m, hreach, hquery, hdrawn⟩ := hrun
  refine ⟨m, hquery, ?_⟩
  have hiff := highlights_iff markClusters hreach hdrawn (by decide)
  rw [hquery] at hiff
  refine hiff.mpr fun matched hmatched => ?_
  have hx : TextSupport.indices 'x' (titled ['x', 'e', '\u0301']).title = some (16, [0]) := by decide
  obtain rfl := (clusterMatched_x hx matched).mp hmatched
  decide

/-- In `éx` the accent is drawn bold and not the `x` behind it. -/
theorem highlight_on_accent : ∃ m : Model, Model.system.Reach TransitionSystem.anyStep m ∧
    ∃ item spans, (item, spans) ∈ m.drawnTitles ∧ item.displayTitle = item.title ∧
      ¬ markClusters.Highlights m.view.query item.title spans := by
  have hrun : ∃ m, Model.system.Reach TransitionSystem.anyStep m ∧ m.view.query = "x" ∧
      (titled ['e', '\u0301', 'x'], [(['e'], false), (['\u0301'], true), (['x'], false)]) ∈
        m.drawnTitles := by
    refine TransitionSystem.exists_reach_of_run (Model.new .default)
      (searchX (titled ['e', '\u0301', 'x'])) ⟨_, rfl⟩ ?_
    decide
  obtain ⟨m, hreach, hquery, hdrawn⟩ := hrun
  refine ⟨m, hreach, _, _, hdrawn, by decide, fun hmarks => ?_⟩
  rw [hquery] at hmarks
  have hx : TextSupport.indices 'x' (titled ['e', '\u0301', 'x']).title = some (16, [1]) := by decide
  have hbold := (hmarks.2 2 1 (by decide)).mpr ((clusterMatched_x hx 1).mpr rfl)
  simp [boldness] at hbold

end Examples

end CosmicPass
