import CosmicPass.Model
import CosmicPass.TextSupport
import Mathlib.Data.List.Destutter
import Mathlib.Data.List.Sort
import Mathlib.Order.Lattice

/-!
# Fuzzy search over non-secret item metadata

The index and the ranking of `src/core/search.rs`, over the matcher of `TextSupport`.
-/

namespace CosmicPass

structure ResultRow where
  item : Nat
  score : UInt32
  titleIndices : List UInt32
deriving DecidableEq

structure Entry where
  title : String
  /-- Username, email, URL hosts, and vault name. -/
  others : List String
  sortTitle : String
deriving DecidableEq

structure SearchIndex where
  entries : List Entry
deriving DecidableEq

def afterScheme : List Char → Option (List Char)
  | ':' :: '/' :: '/' :: rest => some rest
  | _ :: rest => afterScheme rest
  | [] => none

def afterLastAt (host : List Char) : List Char :=
  (host.reverse.takeWhile (· ≠ '@')).reverse

/-- `https://www.example.com/path` → `www.example.com`. -/
def urlHost (url : String) : Option String :=
  let rest := (afterScheme url.toList).getD url.toList
  let host := rest.takeWhile fun c => c ≠ '/' ∧ c ≠ '?' ∧ c ≠ '#'
  let host := afterLastAt host
  if host = [] then none else some (String.ofList host)

def titleWeight : UInt32 := 2

def bestScore : Option UInt32 → Option UInt32 → Option UInt32
  | none, score => score
  | score, none => score
  | some left, some right => some (max left right)

section Matching

variable [TextSupport]

namespace SearchIndex

def buildEntry (item : ItemSummary) : Entry :=
  { title := item.title
    others := item.username.toList ++ item.email.toList ++ item.urls.filterMap urlHost
      ++ [item.vaultName]
    sortTitle := TextSupport.toLowercase item.displayTitle }

def build (items : List ItemSummary) : SearchIndex := ⟨items.map buildEntry⟩

end SearchIndex

def scoreAtom (entry : Entry) (atom : TextSupport.Atom) : Option (UInt32 × List UInt32) :=
  let title := TextSupport.indices atom entry.title
  let other := (entry.others.filterMap (TextSupport.score atom)).max?
  let best := bestScore (title.map fun s => s.1.toUInt32 * titleWeight)
    (other.map UInt16.toUInt32)
  best.map fun score => (score, (title.map Prod.snd).getD [])

/-- The scores and title positions of the fragments, summed up; fails at the first fragment that
matches no field. -/
def scoreAtoms (entry : Entry) : List TextSupport.Atom → UInt32 → List UInt32 →
    Option (UInt32 × List UInt32)
  | [], total, positions => some (total, positions)
  | atom :: rest, total, positions =>
      match scoreAtom entry atom with
      | none => none
      | some (best, matched) => scoreAtoms entry rest (total + best) (positions ++ matched)

/-- Every atom must match at least one field; each atom contributes its best field score. -/
def scoreEntry (atoms : List TextSupport.Atom) (entry : Entry) (item : Nat) : Option ResultRow :=
  match scoreAtoms entry atoms 0 [] with
  | none => none
  | some (score, positions) =>
      some
        { item
          score
          titleIndices := (positions.insertionSort (· ≤ ·)).destutter (· ≠ ·) }

/-- Best score first, then most recently used, then by title, then by position. -/
def compareRows (entries : List Entry) (recencyOf : ResultRow → Option Int)
    (left right : ResultRow) : Ordering :=
  (compare right.score left.score).then <|
    (compare (recencyOf right) (recencyOf left)).then <|
      (compare (entries[left.item]?.map Entry.sortTitle)
        (entries[right.item]?.map Entry.sortTitle)).then <|
        compare left.item right.item

namespace SearchIndex

def candidates (index : SearchIndex) (query : String) : List ResultRow :=
  let atoms := TextSupport.patternAtoms query
  if atoms.isEmpty then
    (List.range index.entries.length).map fun item => { item, score := 0, titleIndices := [] }
  else
    index.entries.zipIdx.filterMap fun (entry, item) => scoreEntry atoms entry item

/-- Returns up to `limit` rows. An empty query lists items by recency, then by title. -/
def search (index : SearchIndex) (query : String) (recency : ItemKey → Option Int)
    (items : List ItemSummary) (limit : Nat) : List ResultRow :=
  let recencyOf := fun row : ResultRow => items[row.item]?.bind fun i => recency i.key
  ((index.candidates query).insertionSort
    fun left right => compareRows index.entries recencyOf left right ≠ .gt).take limit

end SearchIndex

end Matching

end CosmicPass
