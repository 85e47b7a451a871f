import CosmicPass.Library.TransitionSystem

/-!
# The value on its way to the helper

`copy_inner` of `src/clipboard/mod.rs` writes the value to the helper's stdin and drops it, while
`read_value` of `src/clipboard/serve.rs` reads to the end. The pipe between them hands the bytes on in
their order, in pieces of any size.
-/

namespace CosmicPass

/-- `read_value`, once its input has ended: `none` if it is empty. -/
def readValue (buf : List UInt8) : Option (List UInt8) := if buf ≠ [] then some buf else none

structure Handover where
  /-- Not written yet; `write_all` returns when nothing is left, or fails before. -/
  left : List UInt8
  pipe : List UInt8 := []
  /-- The writing end is dropped. -/
  closed : Bool := false
  buf : List UInt8 := []
  /-- What `read_value` returned. -/
  value : Option (Option (List UInt8)) := none
deriving DecidableEq

inductive HandoverEvent where
  | written (n : Nat)
  | closed
  | received (n : Nat)
  | ended
deriving DecidableEq

namespace Handover

def step (s : Handover) : HandoverEvent → Option Handover
  | .written n =>
      if s.closed = false ∧ 0 < n ∧ n ≤ s.left.length then
        some { s with left := s.left.drop n, pipe := s.pipe ++ s.left.take n }
      else none
  | .closed => if s.closed = false then some { s with closed := true } else none
  | .received n =>
      if s.value = none ∧ 0 < n ∧ n ≤ s.pipe.length then
        some { s with pipe := s.pipe.drop n, buf := s.buf ++ s.pipe.take n }
      else none
  | .ended =>
      if s.value = none ∧ s.closed = true ∧ s.pipe = [] then
        some { s with value := some (readValue s.buf) }
      else none

/-- The copy of a value with these bytes. -/
def system (bytes : List UInt8) : TransitionSystem Handover HandoverEvent :=
  { init := fun s => s = { left := bytes }
    step := step }

end Handover

end CosmicPass
