import CosmicPass.Config
import CosmicPass.Core.Update
import CosmicPass.Pass.Error

/-!
# Outputs that are no documents

`parse_field` and `parse_version` of `src/pass/parse.rs`, and `CliVersion::from_str` of `src/model.rs`.
-/

namespace CosmicPass

/-- `str::parse::<u32>`: a plus sign may come first. -/
def parseU32 (text : List Char) : Option Nat :=
  let digits := if text.head? = some '+' then text.tail else text
  if digits ≠ [] ∧ (digits.all Char.isDigit) ∧ Nat.ofDigitChars 10 digits 0 ≤ u32Max then
    some (Nat.ofDigitChars 10 digits 0)
  else none

/-- Accepts a bare `MAJOR.MINOR.PATCH`. A missing patch reads as `.0`, because `pass-cli` has printed
both forms. -/
def CliVersion.fromStr (text : String) : Option CliVersion := do
  let parts := text.toList.splitOn '.'
  let num := fun part : Option (List Char) => parseU32 (trimmed (part.getD ['0']))
  let major ← num parts[0]?
  let minor ← num parts[1]?
  let patch ← match parts[2]? with
    | none => some 0
    | some part => parseU32 (trimmed part)
  if parts[3]?.isSome then none else some { major, minor, patch }

/-- `word.trim_start_matches('v')`. -/
def withoutLeadingV (word : List Char) : List Char := word.dropWhile (· = 'v')

/-- The version out of `pass-cli --version`: the first word that is one. -/
def parseVersion (bytes : ByteArray) : Except PassError CliVersion :=
  match String.fromUTF8? bytes with
  | none => .error (.protocol "--version")
  | some text =>
      match (splitWords text.toList []).findSome? fun word =>
        CliVersion.fromStr (String.ofList (withoutLeadingV word)) with
      | none => .error (.protocol "--version")
      | some version => .ok version

/-- `truncate`, after `ends_with("\r\n")` or else `ends_with('\n')`. -/
def withoutLineEnd (text : List Char) : List Char :=
  if ['\r', '\n'] <:+ text then text.take (text.length - 2)
  else if ['\n'] <:+ text then text.take (text.length - 1)
  else text

/-- Raw `item view --field` output: the value plus one trailing newline. -/
def parseField (bytes : ByteArray) : Except PassError String :=
  match String.fromUTF8? bytes with
  | none => .error (.protocol "item view")
  | some text => .ok (String.ofList (withoutLineEnd text.toList))

end CosmicPass
