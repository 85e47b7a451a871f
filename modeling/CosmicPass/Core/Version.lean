import CosmicPass.Model

/-!
# The `pass-cli` versions this app is known to drive
-/

namespace CosmicPass

def testedMin : CliVersion := { major := 2, minor := 3, patch := 0 }

/-- The warning line for a `pass-cli` outside the tested range, or `none` when it is inside. -/
def versionWarning (found : CliVersion) : Option String :=
  if found.olderThan testedMin then
    some ("pass-cli " ++ found.toText ++ " is older than the tested " ++ testedMin.toText ++
      "; some fields may not copy. Upgrade pass-cli.")
  else none

end CosmicPass
