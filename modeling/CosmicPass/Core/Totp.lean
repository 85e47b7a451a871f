import CosmicPass.Config

/-!
# One-time code countdown

The code on a revealed row and when it expires, as `src/core/totp.rs` computes it.
-/

namespace CosmicPass

structure SecretString where
  exposeSecret : String
deriving DecidableEq

/-- One-time codes by field name, as `pass-cli item totp` answers them. -/
abbrev Codes := OrderedMap String SecretString

/-- `pass-cli` does not report the period; standard TOTP uses 30 seconds. -/
def defaultPeriod : Nat := 30

/-- The next multiple of `period` strictly after `now`. -/
def validUntil (now : Int) (period : Nat) : Int :=
  let period : Int := max period 1
  (now / period + 1) * period

structure TotpDisplay where
  field : String
  code : SecretString
  period : Nat
  validUntil : Int
deriving DecidableEq

namespace TotpDisplay

def new (field : String) (code : SecretString) (now : Int) : TotpDisplay :=
  { field, code, period := defaultPeriod, validUntil := CosmicPass.validUntil now defaultPeriod }

def remaining (shown : TotpDisplay) (now : Int) : Nat :=
  let left := (max (saturateI64 (shown.validUntil - now)) 0).toNat
  if left ≤ u32Max then left else shown.period

def needsRefresh (shown : TotpDisplay) (now : Int) : Bool := shown.validUntil ≤ now

end TotpDisplay

end CosmicPass
