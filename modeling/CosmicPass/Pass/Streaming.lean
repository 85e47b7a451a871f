import CosmicPass.Core.State
import CosmicPass.Library.TransitionSystem
import CosmicPass.Pass.Error

/-!
# Output forwarded while `pass-cli` runs

`run_streaming_inner` of `src/pass/runner.rs` and `login_stream` of `src/runtime.rs`. The task of
the sign-in reads lines off both pipes of its child, in whatever order they come, and sends each
through a channel with room for sixteen; the stream at its other end turns them into messages, and
reports the result once the channel has closed and is empty.

A pipe is the lines printed on it so far, as `next_line` reads them: `none` is one that is not
UTF-8. A kill ends the child at once. The child's arguments and environment are left out.
-/

namespace CosmicPass

/-- The pipe of one of the child's outputs, and how far it has been read. -/
structure OutputPipe where
  printed : List (Option String)
  taken : Nat
  closed : Bool
  /-- `out_done`, `err_done`. -/
  done : Bool
deriving DecidableEq

inductive OutputSource where
  | stdout
  | stderr
deriving DecidableEq

inductive Child where
  | unborn
  | running
  | exited (success : Bool)
  /-- Its process group has been sent a kill. -/
  | killed
deriving DecidableEq

/-- Where the task of the sign-in is. -/
inductive Reader where
  | spawning
  | selecting
  /-- Has read a line, and waits for room in the channel. -/
  | sending (line : String)
  /-- Both pipes have come to their end: waits for the child's. -/
  | waiting
  | returned (result : Except PassError Unit)
deriving DecidableEq

structure LoginFlow where
  out : OutputPipe
  err : OutputPipe
  child : Child
  reader : Reader
  errText : String
  warm : Bool
  channel : List String
  /-- The messages the stream has yielded. -/
  yielded : List Msg
deriving DecidableEq

inductive LoginEvent where
  | spawned
  | spawnFailed (kind : ErrorKind)
  /-- The child, or a descendant, prints a line. -/
  | print (source : OutputSource) (line : Option String)
  | close (source : OutputSource)
  | exit (success : Bool)
  | read (source : OutputSource)
  | send
  | finish
  | waitFailed (message : String)
  | timedOut
  | receive
  | report
deriving DecidableEq

namespace OutputPipe

def new : OutputPipe := { printed := [], taken := 0, closed := false, done := false }

/-- A branch of the `select!`: what `next_line` reads, `none` for the end of the output and for what
is not text. It is disabled once that has been read, and not ready while there is nothing to read.
-/
def nextLine (pipe : OutputPipe) : Option (Option String × OutputPipe) :=
  if pipe.done then none
  else
    match pipe.printed[pipe.taken]? with
    | some (some line) => some (some line, { pipe with taken := pipe.taken + 1 })
    | some none => some (none, { pipe with done := true })
    | none => if pipe.closed then some (none, { pipe with done := true }) else none

def print (pipe : OutputPipe) (line : Option String) : Option OutputPipe :=
  if pipe.closed then none else some { pipe with printed := pipe.printed ++ [line] }

end OutputPipe

namespace LoginFlow

def channelCapacity : Nat := 16

def new : LoginFlow :=
  { out := .new
    err := .new
    child := .unborn
    reader := .spawning
    errText := ""
    warm := false
    channel := []
    yielded := [] }

def pipe (s : LoginFlow) : OutputSource → OutputPipe
  | .stdout => s.out
  | .stderr => s.err

def setPipe (s : LoginFlow) (source : OutputSource) (pipe : OutputPipe) : LoginFlow :=
  match source with
  | .stdout => { s with out := pipe }
  | .stderr => { s with err := pipe }

/-- The child, or what it has left behind, can still print. -/
def printing (s : LoginFlow) : Bool := s.child ≠ .unborn ∧ s.child ≠ .killed

/-- The head of the loop, and what comes after it. -/
def loop (s : LoginFlow) : LoginFlow :=
  { s with reader := if s.out.done ∧ s.err.done then .waiting else .selecting }

/-- The errors so far, after a line. -/
def errTextAfter (s : LoginFlow) (line : String) : OutputSource → String
  | .stdout => s.errText
  | .stderr => s.errText ++ line ++ "\n"

def read (s : LoginFlow) (source : OutputSource) : Option LoginFlow :=
  match s.reader with
  | .selecting =>
      (s.pipe source).nextLine.map fun (line, pipe) =>
        let s := s.setPipe source pipe
        match line with
        | some line => { s with errText := s.errTextAfter line source, reader := .sending line }
        | none => s.loop
  | _ => none

def send (s : LoginFlow) : Option LoginFlow :=
  match s.reader with
  | .sending line =>
      if s.channel.length < channelCapacity then
        some (loop { s with channel := s.channel ++ [line] })
      else none
  | _ => none

variable [TextSupport]

/-- The child came to its end by itself. -/
def finish (s : LoginFlow) : Option LoginFlow :=
  match s.reader, s.child with
  | .waiting, .exited success =>
      let result := if success then .ok () else .error (classify { stderr := s.errText })
      some { s with warm := true, reader := .returned result }
  | _, _ => none

/-- The future of the work is dropped, and the child's group killed. -/
def abandon (s : LoginFlow) (error : PassError) : LoginFlow :=
  { s with child := .killed, reader := .returned (.error error) }

def receive (s : LoginFlow) : Option LoginFlow :=
  match s.channel with
  | [] => none
  | line :: channel => some { s with channel, yielded := s.yielded ++ [.loginLine line] }

def reported (s : LoginFlow) : Bool :=
  s.yielded.any fun
    | .loginFinished _ => true
    | _ => false

/-- The channel has closed, and nothing is left in it. -/
def report (s : LoginFlow) : Option LoginFlow :=
  match s.reader, s.channel with
  | .returned result, [] =>
      if s.reported then none else some { s with yielded := s.yielded ++ [.loginFinished result] }
  | _, _ => none

def step (s : LoginFlow) : LoginEvent → Option LoginFlow
  | .spawned =>
      if s.reader = .spawning then some { s with child := .running, reader := .selecting } else none
  | .spawnFailed kind =>
      if s.reader = .spawning then
        some { s with reader := .returned (.error (classify { spawnError := some kind })) }
      else none
  | .print source line =>
      if s.printing then ((s.pipe source).print line).map (s.setPipe source) else none
  | .close source =>
      if s.printing then some (s.setPipe source { s.pipe source with closed := true }) else none
  | .exit success =>
      if s.child = .running then some { s with child := .exited success } else none
  | .read source => s.read source
  | .send => s.send
  | .finish => s.finish
  | .waitFailed message =>
      if s.reader = .waiting then some (s.abandon (.cli message)) else none
  | .timedOut =>
      match s.reader with
      | .selecting | .sending _ | .waiting => some (s.abandon .timeout)
      | .spawning | .returned _ => none
  | .receive => s.receive
  | .report => s.report

def system : TransitionSystem LoginFlow LoginEvent :=
  { init := fun s => s = new
    step := step }

end LoginFlow

end CosmicPass
