import Mathlib.Data.List.Basic

/-!
# Interleavings

Several streams merged into one: each entry of the merged list says which stream it is of, and
reading off one stream gives that stream back, in its order. Beside it, a stream read up to the
first entry that cannot be read.
-/

namespace Interleaving

variable {τ α : Type*} [DecidableEq τ]

/-- What a merged list holds of one stream. -/
def ofStream (stream : τ) (merged : List (τ × α)) : List α :=
  merged.filterMap fun entry => if entry.1 = stream then some entry.2 else none

@[simp] theorem ofStream_nil (stream : τ) : ofStream stream ([] : List (τ × α)) = [] := rfl

@[simp] theorem ofStream_append (stream : τ) (merged later : List (τ × α)) :
    ofStream stream (merged ++ later) = ofStream stream merged ++ ofStream stream later :=
  List.filterMap_append

theorem ofStream_concat (stream source : τ) (merged : List (τ × α)) (a : α) :
    ofStream stream (merged ++ [(source, a)]) =
      ofStream stream merged ++ if source = stream then [a] else [] := by
  rw [ofStream_append]
  by_cases h : source = stream <;> simp [ofStream, h]

end Interleaving

namespace List

variable {α : Type*}

/-- The entries before the first that is missing. -/
def readable : List (Option α) → List α
  | some a :: rest => a :: readable rest
  | none :: _ | [] => []

theorem readable_map_some (entries : List α) : readable (entries.map some) = entries := by
  induction entries with
  | nil => rfl
  | cons a rest ih => rw [map_cons, readable, ih]

/-- Nothing that comes after a missing entry is read. -/
theorem readable_map_some_append_none (entries : List α) (rest : List (Option α)) :
    readable (entries.map some ++ none :: rest) = entries := by
  induction entries with
  | nil => rfl
  | cons a later ih => rw [map_cons, cons_append, readable, ih]

end List
