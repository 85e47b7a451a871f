import CosmicPass.Library.TransitionSystem
import CosmicPass.Pass.Error
import Mathlib.Data.List.Count

/-!
# Running `pass-cli`

`TokioRunner` of `src/pass/runner.rs` and the calls on it. A call is named by where it is: at an
`await`, or before its next access to what the calls share, the permits, the warm-up lock and the
`warm` flag. Calls are polled in any order, so a free permit and the free lock go to any call that
waits for them.

A kill ends a child at once. What a call hands to its child, arguments and environment, is left out.
-/

namespace CosmicPass

/-- Successful process output. -/
structure Output where
  stdout : List UInt8
deriving DecidableEq

structure TokioRunner where
  permits : Nat
  /-- Set once a `pass-cli` process has run to completion, whatever its exit status. -/
  warm : Bool
  /-- Whether the lock is taken. -/
  warmup : Bool
deriving DecidableEq

/-- What a call holds while its child runs. A call to `run_streaming` takes nothing. -/
inductive Grant where
  | nothing
  | permit
  | permitAndGuard
deriving DecidableEq

/-- How a call ended. -/
inductive Ended where
  | spawnFailed (kind : ErrorKind)
  | cancelled
  | timedOut
  | waitFailed (message : String)
  | exited (success : Bool) (stdout : List UInt8) (stderr : String)
deriving DecidableEq

inductive Call where
  | acquiring
  /-- Has a permit, and is to look at `warm`. -/
  | checking
  | locking
  /-- Has the lock, and is to look at `warm` again. -/
  | rechecking
  /-- Was late: drops the guard. -/
  | unlocking
  | spawning (grant : Grant)
  | running (grant : Grant)
  | killing (grant : Grant) (ended : Ended)
  | marking (grant : Grant) (ended : Ended)
  /-- Drops what it holds, the guard before the permit. -/
  | dropping (grant : Grant) (ended : Ended)
  | returned (ended : Ended)
deriving DecidableEq

inductive CallEvent where
  | poll
  | spawned
  | spawnFailed (kind : ErrorKind)
  | exited (success : Bool) (stdout : List UInt8) (stderr : String)
  | waitFailed (message : String)
  | timedOut
  /-- The token fires, or the future of the call is dropped. -/
  | cancelled
deriving DecidableEq

structure Runner where
  shared : TokioRunner
  calls : List Call
deriving DecidableEq

inductive RunnerEvent where
  | run
  | runStreaming
  | call (id : Nat) (event : CallEvent)
deriving DecidableEq

namespace Ended

/-- What the call returns. -/
def result [TextSupport] : Ended → Except PassError Output
  | .spawnFailed kind => .error (classify { spawnError := some kind })
  | .cancelled => .error .cancelled
  | .timedOut => .error .timeout
  | .waitFailed message => .error (.cli message)
  | .exited true stdout _ => .ok ⟨stdout⟩
  | .exited false _ stderr => .error (classify { stderr })

end Ended

namespace Call

/-- One step of a call by itself; `none` where it waits. -/
def poll (r : TokioRunner) : Call → Option (TokioRunner × Call)
  | .acquiring =>
      match r.permits with
      | 0 => none
      | permits + 1 => some ({ r with permits }, .checking)
  | .checking => some (r, if r.warm then .spawning .permit else .locking)
  | .locking => if r.warmup then none else some ({ r with warmup := true }, .rechecking)
  -- Another call may have finished while this one waited for the lock.
  | .rechecking => some (r, if r.warm then .unlocking else .spawning .permitAndGuard)
  | .unlocking => some ({ r with warmup := false }, .spawning .permit)
  | .killing grant ended => some (r, .dropping grant ended)
  | .marking grant ended => some ({ r with warm := true }, .dropping grant ended)
  | .dropping .permitAndGuard ended => some ({ r with warmup := false }, .dropping .permit ended)
  | .dropping .permit ended => some ({ r with permits := r.permits + 1 }, .dropping .nothing ended)
  | .dropping .nothing ended => some (r, .returned ended)
  | .spawning _ | .running _ | .returned _ => none

/-- Dropped at an `await`: a running child is killed first. -/
def cancel : Call → Option Call
  | .acquiring => some (.dropping .nothing .cancelled)
  | .checking | .locking => some (.dropping .permit .cancelled)
  | .rechecking => some (.dropping .permitAndGuard .cancelled)
  | .running grant => some (.killing grant .cancelled)
  | _ => none

def step (r : TokioRunner) (call : Call) : CallEvent → Option (TokioRunner × Call)
  | .poll => call.poll r
  | .cancelled => call.cancel.map fun next => (r, next)
  | .spawned =>
      match call with
      | .spawning grant => some (r, .running grant)
      | _ => none
  | .spawnFailed kind =>
      match call with
      | .spawning grant => some (r, .dropping grant (.spawnFailed kind))
      | _ => none
  | .exited success stdout stderr =>
      match call with
      | .running grant => some (r, .marking grant (.exited success stdout stderr))
      | _ => none
  | .waitFailed message =>
      match call with
      | .running grant => some (r, .killing grant (.waitFailed message))
      | _ => none
  | .timedOut =>
      match call with
      | .running grant => some (r, .killing grant .timedOut)
      | _ => none

end Call

namespace TokioRunner

def maxConcurrent : Nat := 4

def new : TokioRunner := { permits := maxConcurrent, warm := false, warmup := false }

end TokioRunner

namespace Runner

def step (s : Runner) : RunnerEvent → Option Runner
  | .run => some { s with calls := s.calls ++ [.acquiring] }
  | .runStreaming => some { s with calls := s.calls ++ [.spawning .nothing] }
  | .call id event =>
      match s.calls[id]? with
      | none => none
      | some call =>
          (call.step s.shared event).map fun (shared, next) =>
            { shared, calls := s.calls.set id next }

def system : TransitionSystem Runner RunnerEvent :=
  { init := fun s => s = { shared := .new, calls := [] }
    step := step }

end Runner

end CosmicPass
