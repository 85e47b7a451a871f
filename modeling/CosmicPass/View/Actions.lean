import CosmicPass.Core.State

/-!
# The field list on screen

What `src/app/view/actions.rs` draws on the row of a field or one-time code, and beside it.
-/

namespace CosmicPass

def noValue : String := "—"

def mask : String := "••••••••"

def totpMask : String := "••••••"

inductive Reveal where
  | masked
  | shown
  | plain
deriving DecidableEq

namespace Model

/-- Which row of the list, if any, the value on screen belongs to. -/
def revealState (m : Model) (source : CopySource) (fieldIndex : Option Nat) : Reveal :=
  match source with
  | .totp field => if m.revealedTotp.any fun shown => shown.field = field then .shown else .masked
  | .field f =>
      if f.secret then
        if fieldIndex.any fun index => (m.revealedValue index).isSome then .shown else .masked
      else .plain

/-- The value line under an action's label. -/
def valueHint (m : Model) (source : CopySource) (fieldIndex : Option Nat) (now : Int) : String :=
  match source with
  | .totp field =>
      match m.revealedTotp with
      | some shown =>
          if shown.field = field then
            shown.code.exposeSecret ++ " · " ++ toString (shown.remaining now) ++ "s"
          else totpMask
      | none => totpMask
  | .field f =>
      if f.secret then
        ((fieldIndex.bind fun index => m.revealedValue index).map (·.exposeSecret)).getD mask
      else f.value.getD noValue

def fetching (m : Model) (source : CopySource) (fieldIndex : Option Nat) : Bool :=
  match source with
  | .totp _ => m.revealingTotp
  | .field _ => fieldIndex.any fun index => m.revealingField index

end Model

end CosmicPass
