import CosmicPass.Clipboard
import Mathlib.Algebra.Group.Nat.Defs

/-!
# The time a copied value has

One copy of `copy_inner` in `src/clipboard/mod.rs` beside `main` of `src/clipboard/serve.rs`, with
the time between them, in nanoseconds. The helper takes the value off its stdin, arms the watchdog
of a secret, takes the selection and prints its line; the application waits for the line and starts
a job that ends the helper when the time is up. Either of them may be no more at any moment. A
helper that is killed is gone at once; logging is left out.
-/

namespace CosmicPass

/-- One second. -/
def second : Nat := 1000000000

/-- Slack between the parent's timeout and the watchdog, in seconds. -/
def watchdogMargin : Nat := 1

/-- How long `wait_ready` waits for the line: 3 s. -/
def readyTimeout : Nat := 3 * second

structure CopyJob where
  secret : Bool
  clearAfter : Nat
deriving DecidableEq

namespace CopyJob

/-- What `helper_args` passes for `--timeout`, in seconds. -/
def timeout (job : CopyJob) : Nat := max (job.clearAfter / second) 1

/-- How long the helper waits before exiting on its own; only secret copies are time-limited. The
sum saturates. -/
def watchdogDelay (job : CopyJob) : Option Nat :=
  if job.secret then some (min (job.timeout + watchdogMargin) (2 ^ 64 - 1) * second) else none

end CopyJob

/-- Why the helper is no more. -/
inductive HelperExit where
  | empty
  | unavailable
  | failure
  /-- Another client took the selection. -/
  | lost
  | watchdog
  | killed
deriving DecidableEq

/-- The exit code; a process that is killed has none. -/
def HelperExit.code : HelperExit → Option Int
  | .empty => some 3
  | .unavailable => some exitUnavailable
  | .failure => some 1
  | .lost | .watchdog => some 0
  | .killed => none

/-- What the helper does next. -/
inductive HelperPhase where
  | reading
  | preparing
  /-- Owns the selection, and is to print its `ready` line. -/
  | announcing
  | serving
  | exited (exit : HelperExit)
deriving DecidableEq

/-- What the application does next about the copy. -/
inductive CopierPhase where
  | handing
  | awaiting (expiry : Nat)
  /-- The task of the job is spawned, and is to be polled. -/
  | starting
  | timing
  | ended (jobEnd : JobEnd)
  | failed (error : ClipboardError)
  | dropped
  /-- The application died without killing the helper. -/
  | died
deriving DecidableEq

structure ServedCopy where
  now : Nat
  helper : HelperPhase := .reading
  /-- When the helper had the whole value. -/
  readAt : Option Nat := none
  watchdog : Option Nat := none
  /-- When the helper took the selection. -/
  takenAt : Option Nat := none
  selected : Bool := false
  announced : Bool := false
  copier : CopierPhase := .handing
  /-- When the time of a secret is up, by the clock of the job. -/
  deadline : Option Nat := none
  stored : Bool := false
  cancelled : Bool := false
deriving DecidableEq

inductive ServeEvent where
  | tick (n : Nat)
  -- The helper.
  | read
  | readNothing (exit : HelperExit)
  | taken
  | notTaken (exit : HelperExit)
  | printed
  | notPrinted
  | served (exit : HelperExit)
  | watchdog
  | killed
  -- The application.
  | handed
  | notHanded (text : String)
  | heard
  | unheard
  | polled
  | ended (jobEnd : JobEnd)
  | stored
  | cancelled
  | dropped
  | died
  | otherClient
deriving DecidableEq

namespace ServedCopy

def alive (s : ServedCopy) : Bool :=
  match s.helper with
  | .exited _ => false
  | _ => true

/-- With the helper the selection is gone. -/
def exits (s : ServedCopy) (exit : HelperExit) : ServedCopy :=
  { s with helper := .exited exit, selected := false }

def kill (s : ServedCopy) : ServedCopy := if s.alive then s.exits .killed else s

/-- The code of the child that is waited for once it is killed. -/
def exitCode (s : ServedCopy) : Option Int :=
  match s.helper with
  | .exited exit => exit.code
  | _ => none

/-- What the job's task is woken by. -/
def mayEnd (s : ServedCopy) : JobEnd → Bool
  | .ownershipLost => !s.alive
  | .cleared => s.deadline.any fun deadline => deadline ≤ s.now
  | .replaced => s.cancelled

/-- The line did not come: the time is up, or the helper's output has ended without it. -/
def unheard (s : ServedCopy) (expiry : Nat) : Bool := expiry ≤ s.now ∨ (¬ s.alive ∧ ¬ s.announced)

def jobStarted (s : ServedCopy) : Bool :=
  match s.copier with
  | .starting | .timing | .ended _ => true
  | _ => false

def step (job : CopyJob) (s : ServedCopy) : ServeEvent → Option ServedCopy
  | .tick n => some { s with now := s.now + n }
  -- The input has ended once nobody writes to it any more.
  | .read =>
      if s.helper = .reading ∧ s.copier ≠ .handing then
        some { s with
          helper := .preparing
          readAt := some s.now
          watchdog := job.watchdogDelay.map fun delay => s.now + delay }
      else none
  | .readNothing exit =>
      if s.helper = .reading ∧ (exit = .empty ∧ s.copier ≠ .handing ∨ exit = .failure) then
        some (s.exits exit)
      else none
  | .taken =>
      if s.helper = .preparing then
        some { s with helper := .announcing, takenAt := some s.now, selected := true }
      else none
  | .notTaken exit =>
      if s.helper = .preparing ∧ (exit = .unavailable ∨ exit = .failure) then some (s.exits exit)
      else none
  | .printed =>
      if s.helper = .announcing then some { s with helper := .serving, announced := true } else none
  | .notPrinted => if s.helper = .announcing then some (s.exits .failure) else none
  | .served exit =>
      if s.helper = .serving ∧ (exit = .lost ∧ ¬ s.selected ∨ exit = .failure) then
        some (s.exits exit)
      else none
  | .watchdog =>
      if s.alive ∧ s.watchdog.any fun deadline => deadline ≤ s.now then some (s.exits .watchdog)
      else none
  | .killed => if s.alive then some (s.exits .killed) else none
  | .handed =>
      if s.copier = .handing then some { s with copier := .awaiting (s.now + readyTimeout) }
      else none
  | .notHanded text =>
      if s.copier = .handing then some { s.kill with copier := .failed (.helper text) } else none
  | .heard =>
      match s.copier with
      | .awaiting _ => if s.announced then some { s with copier := .starting } else none
      | _ => none
  | .unheard =>
      match s.copier with
      | .awaiting expiry =>
          if s.unheard expiry then
            some { s.kill with copier := .failed (notReadyError s.kill.exitCode) }
          else none
      | _ => none
  | .polled =>
      if s.copier = .starting then
        some { s with
          copier := .timing
          deadline := if job.secret then some (s.now + job.clearAfter) else none }
      else none
  | .ended jobEnd =>
      if s.copier = .timing ∧ s.mayEnd jobEnd then some { s.kill with copier := .ended jobEnd }
      else none
  | .stored => if s.jobStarted ∧ ¬ s.stored then some { s with stored := true } else none
  | .cancelled => if s.stored then some { s with cancelled := true } else none
  | .dropped =>
      match s.copier with
      | .handing | .awaiting _ => some { s.kill with copier := .dropped }
      | _ => none
  | .died => some { s with copier := .died }
  | .otherClient => some { s with selected := false }

/-- A copy whose helper is spawned. -/
def system (job : CopyJob) : TransitionSystem ServedCopy ServeEvent :=
  { init := fun s => ∃ now, s = { now }
    step := step job }

end ServedCopy

end CosmicPass
