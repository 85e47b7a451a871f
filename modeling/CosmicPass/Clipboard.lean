import CosmicPass.Library.Slots
import CosmicPass.Library.TransitionSystem

/-!
# The clipboard

`HelperClipboard` of `src/clipboard/mod.rs` and the copies on it. A copy is named by what its future
does next; it starts when it is first polled, which takes the current job and cancels it, and its
number is its place in that order. The job of a copy goes by the number of the copy.

A helper owns the selection once it has printed its `ready` line, until another client takes the
selection or the helper is no more. The value, the environment and real time are left out.
-/

namespace CosmicPass

inductive ClipboardError where
  | unavailable
  | helper (message : String)
deriving DecidableEq

/-- How a copy job ended. -/
inductive JobEnd where
  | ownershipLost
  | cleared
  | replaced
deriving DecidableEq

structure Helper where
  alive : Bool
  /-- Has taken the selection and printed its `ready` line. -/
  ready : Bool
deriving DecidableEq

inductive CopyPhase where
  | spawning
  | writing
  | waitingReady
  /-- The job is started, and is to be stored. -/
  | storing
  | returned (result : Except ClipboardError Unit)
  | dropped
deriving DecidableEq

structure CopyCall where
  secret : Bool
  phase : CopyPhase := .spawning
  helper : Option Helper := none
  /-- The job's token is cancelled. -/
  cancelled : Bool := false
  ended : Option JobEnd := none
deriving DecidableEq

inductive CopyEvent where
  | spawned
  | spawnFailed (text : String)
  | written
  | writeFailed (text : String)
  /-- The helper takes the selection and prints its line. -/
  | serves
  | ready
  | notReady (code : Option Int)
  | stored
  /-- The future of the copy is dropped. -/
  | dropped
  /-- The helper exits by itself. -/
  | exits
  | ended (jobEnd : JobEnd)
deriving DecidableEq

inductive ClipboardEvent where
  | copy (secret : Bool)
  | call (id : Nat) (event : CopyEvent)
  | otherClient
deriving DecidableEq

def exitUnavailable : Int := 2

def codeText : Option Int → String
  | some code => "Some(" ++ toString code ++ ")"
  | none => "None"

def notReadyError (code : Option Int) : ClipboardError :=
  if code = some exitUnavailable then .unavailable
  else .helper ("helper did not become ready (exit " ++ codeText code ++ ")")

namespace CopyCall

def alive (call : CopyCall) : Bool := call.helper.any (·.alive)

def ready (call : CopyCall) : Bool := call.helper.any (·.ready)

def kill (call : CopyCall) : CopyCall :=
  { call with helper := call.helper.map fun helper => { helper with alive := false } }

/-- Leaves off before there is a job; the child is killed when it is dropped. -/
def leave (call : CopyCall) (phase : CopyPhase) : CopyCall := { call.kill with phase }

def fail (call : CopyCall) (error : ClipboardError) : CopyCall :=
  call.leave (.returned (.error error))

/-- What ends the task of a job. -/
def mayEnd (call : CopyCall) : JobEnd → Bool
  | .ownershipLost => !call.alive
  | .cleared => call.secret
  | .replaced => call.cancelled

def step (call : CopyCall) : CopyEvent → Option CopyCall
  | .spawned =>
      if call.phase = .spawning then
        some { call with phase := .writing, helper := some { alive := true, ready := false } }
      else none
  | .spawnFailed text =>
      if call.phase = .spawning then some (call.fail (.helper text)) else none
  | .written => if call.phase = .writing then some { call with phase := .waitingReady } else none
  | .writeFailed text => if call.phase = .writing then some (call.fail (.helper text)) else none
  | .serves =>
      if call.phase = .waitingReady ∧ call.alive ∧ ¬ call.ready then
        some { call with helper := some { alive := true, ready := true } }
      else none
  | .ready =>
      if call.phase = .waitingReady ∧ call.ready then some { call with phase := .storing } else none
  | .notReady code =>
      if call.phase = .waitingReady then some (call.fail (notReadyError code)) else none
  | .stored =>
      if call.phase = .storing then some { call with phase := .returned (.ok ()) } else none
  | .dropped =>
      if call.phase = .writing ∨ call.phase = .waitingReady then some (call.leave .dropped) else none
  | .exits => if call.alive then some call.kill else none
  | .ended jobEnd =>
      if (call.phase = .storing ∨ call.phase = .returned (.ok ())) ∧ call.ended = none ∧
          call.mayEnd jobEnd then
        some { call.kill with ended := some jobEnd }
      else none

end CopyCall

structure HelperClipboard where
  current : Option Nat := none
  copies : List CopyCall := []
  /-- The copy whose helper owns the selection. -/
  selection : Option Nat := none
deriving DecidableEq

namespace HelperClipboard

/-- Takes the current job and cancels it; what `drop` does as well. -/
def takeCurrent (s : HelperClipboard) : HelperClipboard :=
  match s.current with
  | none => s
  | some id =>
      { s with
        current := none
        copies := s.copies.modify id fun call => { call with cancelled := true } }

def step (s : HelperClipboard) : ClipboardEvent → Option HelperClipboard
  | .copy secret => some { s.takeCurrent with copies := s.takeCurrent.copies ++ [{ secret }] }
  | .call id event =>
      match s.copies[id]? with
      | none => none
      | some call =>
          (call.step event).map fun next =>
            { current := if event = .stored then some id else s.current
              copies := s.copies.set id next
              selection :=
                if event = .serves then some id
                else if s.selection = some id ∧ ¬ next.alive then none
                else s.selection }
  | .otherClient => some { s with selection := none }

def system : TransitionSystem HelperClipboard ClipboardEvent :=
  { init := fun s => s = {}
    step := step }

end HelperClipboard

end CosmicPass
