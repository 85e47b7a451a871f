import CosmicPass.Core.State
import CosmicPass.Library.ByteText

/-!
# The result list on screen

The titles that `src/app/view/list.rs` draws, each as spans of characters that are bold or not.
-/

namespace CosmicPass

/-- The loop of `title_runs`: `indices` are those not passed yet, `current` the run not pushed yet. -/
def titleRunsFrom (position : Nat) (indices : List UInt32) (current : List Char) (matched : Bool) :
    List Char → List (List Char × Bool)
  | [] => if current = [] then [] else [(current, matched)]
  | c :: rest =>
      let indices := indices.dropWhile fun i => i.toNat < position
      let here := indices.head?.any fun i => i.toNat = position
      if current ≠ [] ∧ here ≠ matched then
        (current, matched) :: titleRunsFrom (position + 1) indices [c] here rest
      else titleRunsFrom (position + 1) indices (current ++ [c]) here rest

/-- Splits `title` into runs of characters that did and did not match the query. `indices` are
character positions into `title`, sorted and unique. -/
def titleRuns (title : String) (indices : List UInt32) : List (List Char × Bool) :=
  titleRunsFrom 0 indices [] false title.toList

/-- The variables of the loop in `title_runs`: the offset the open run starts at, whether it matched,
and where the first index not passed is. -/
structure TitleLoop where
  runs : List (List Char × Bool)
  start : Nat
  matched : Bool
  next : Nat

namespace TitleLoop

variable (title : String) (indices : List UInt32)

/-- The inner loop: past the indices that come before `position`. -/
def skip (position next : Nat) : Nat :=
  if next < indices.length ∧ (indices[next]?.any fun i => i.toNat < position) then
    skip position (next + 1)
  else next
termination_by indices.length - next

/-- The body of the loop: `none` where a slice panics. -/
def step (loop : TitleLoop) : (Nat × Char) × Nat → Option TitleLoop
  | ((offset, _), position) =>
      let next := skip indices position loop.next
      let here := indices[next]?.any fun i => i.toNat = position
      if loop.start < offset ∧ here ≠ loop.matched then
        (ByteText.slice title loop.start offset).map fun run =>
          { runs := loop.runs ++ [(run, loop.matched)], start := offset, matched := here, next }
      else some { loop with matched := here, next }

/-- What follows the loop: the last run goes to the end of the title. -/
def finish (loop : TitleLoop) : Option (List (List Char × Bool)) :=
  if loop.start < title.utf8ByteSize then
    (ByteText.slice title loop.start title.utf8ByteSize).map fun run =>
      loop.runs ++ [(run, loop.matched)]
  else some loop.runs

end TitleLoop

/-- `title_runs` over the bytes of the title: `none` where a slice is not of whole characters. -/
def slicedTitleRuns (title : String) (indices : List UInt32) : Option (List (List Char × Bool)) := do
  let loop ← (ByteText.charIndices 0 title.toList).zipIdx.foldlM (TitleLoop.step title indices)
    { runs := [], start := 0, matched := false, next := 0 }
  loop.finish title

/-- The item title, with the characters that matched the query in bold. The indices point into the raw
title; a blank title is shown as a placeholder instead. -/
def titleSpans (item : ItemSummary) (indices : List UInt32) : List (List Char × Bool) :=
  let shown := item.displayTitle
  if indices = [] ∨ shown ≠ item.title then [(shown.toList, false)]
  else titleRuns shown indices

/-- The titles of the rows drawn: a row of an item that is not held is left out. -/
def Model.drawnTitles (m : Model) : List (ItemSummary × List (List Char × Bool)) :=
  m.view.results.filterMap fun hit =>
    m.data.items[hit.item]?.map fun item => (item, titleSpans item hit.titleIndices)

end CosmicPass
