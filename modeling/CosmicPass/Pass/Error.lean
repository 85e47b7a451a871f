import CosmicPass.Model
import CosmicPass.TextSupport
import Mathlib.Data.List.Infix
import Mathlib.Data.List.DropRight

/-!
# Errors from `pass-cli`

The error kinds of `src/pass/error.rs`, the texts they print, and the classification of a process that
failed.
-/

namespace CosmicPass

inductive PassError where
  | cliMissing
  | signedOut
  | locked
  | network
  | localData
  | timeout
  | notFound
  | fieldMissing
  | cancelled
  | protocol (command : String)
  | cli (message : String)
deriving DecidableEq

namespace PassError

def toText : PassError → String
  | cliMissing => "pass-cli is not installed"
  | signedOut => "not signed in to Proton Pass"
  | locked => "the Proton Pass session is locked"
  | network => "network error while talking to Proton Pass"
  | localData =>
      "pass-cli cannot open its local database; run `pass-cli logout --force` in a terminal, " ++
        "then sign in again"
  | timeout => "pass-cli did not respond in time"
  | notFound => "item or vault not found"
  | fieldMissing => "this item has no such field"
  | cancelled => "cancelled"
  | protocol command => "unexpected output from pass-cli (" ++ command ++ ")"
  | cli message => "pass-cli failed: " ++ message

end PassError

/-- `io::ErrorKind`; any kind but `NotFound` is only printed. -/
inductive ErrorKind where
  | notFound
  | other (text : String)
deriving DecidableEq

/-- How a `pass-cli` process ended, for classification. -/
structure Failure where
  spawnError : Option ErrorKind := none
  timedOut : Bool := false
  stderr : String := ""

def maxMessageChars : Nat := 200

/-- `str::trim`. -/
def trimmed (line : List Char) : List Char := (line.dropWhile isWhitespace).rdropWhile isWhitespace

/-- `str::lines`: a last line need not be ended, and is not there when it is empty. -/
def linesOf (text : String) : List (List Char) :=
  let pieces := text.toList.splitOn '\n'
  pieces.dropLast.map (fun line => if line.getLast? = some '\r' then line.dropLast else line) ++
    pieces.getLast?.toList.filter (· ≠ [])

/-- `str::strip_prefix`. -/
def withoutStart (start line : List Char) : Option (List Char) :=
  if start <+: line then some (line.drop start.length) else none

/-- The first `Error:` line without its prefix, else the last non-empty line. -/
def summaryLine (stderr : String) : String :=
  let lines := ((linesOf stderr).map trimmed).filter (· ≠ [])
  let line := (lines.findSome? fun line => (withoutStart "Error:".toList line).map trimmed)
    |>.or lines.getLast?
    |>.getD "pass-cli exited with an error".toList
  String.ofList (line.take maxMessageChars)

/-- Maps a failed `pass-cli` run to a `PassError` using the ordered table in `contracts/pass-cli.md`.
Only stderr is inspected; stdout may hold secrets. -/
def classify [TextSupport] (failure : Failure) : PassError :=
  match failure.spawnError with
  | some .notFound => .cliMissing
  | some (.other kind) => .cli ("could not start pass-cli: " ++ kind)
  | none =>
      if failure.timedOut then .timeout
      else
        let text := (TextSupport.toLowercase failure.stderr).toList
        let has (needles : List String) : Bool := needles.any fun needle => needle.toList <:+: text
        if has ["requires an authenticated client", "there is no session", "forcing logout"] then
          .signedOut
        -- `pass-cli`'s own store, not Proton: its chain says "Failed to get database connection",
        -- which the network rule below would otherwise claim.
        else if has ["file is not a database", "logout --force", "failed to initialize database"] then
          .localData
        else if has ["field does not exist"] then .fieldMissing
        else if has ["locked"] then .locked
        else if has ["could not find", "error finding item", "idformat"] then .notFound
        else if has ["connection", "timed out", "dns", "network"] then .network
        else .cli (summaryLine failure.stderr)

end CosmicPass
