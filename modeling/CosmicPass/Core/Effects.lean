import CosmicPass.Core.Totp
import CosmicPass.Model
import CosmicPass.Pass.Error

/-!
# Side effects requested by the reducer

The effects of `src/core/effects.rs`, and the cancellation tokens some of them share with the
reducer's state.
-/

namespace CosmicPass

/-- A `CancellationToken`: its clones share one flag, so the token is the name of that flag. -/
abbrev CancellationToken := Nat

/-- The flags behind the tokens created so far, each with a number never used twice. -/
structure Tokens where
  next : CancellationToken
  cancelled : List CancellationToken
deriving DecidableEq

namespace Tokens

def none : Tokens := { next := 0, cancelled := [] }

def fresh (tokens : Tokens) : CancellationToken := tokens.next

def advance (tokens : Tokens) : Tokens := { tokens with next := tokens.next + 1 }

/-- `take()` followed by `cancel()`: raises the flag of the token held, if one is. -/
def cancel (tokens : Tokens) (held : Option CancellationToken) : Tokens :=
  { tokens with cancelled := held.toList ++ tokens.cancelled }

def IsCancelled (tokens : Tokens) (token : CancellationToken) : Prop := token ∈ tokens.cancelled

instance (tokens : Tokens) (token : CancellationToken) : Decidable (tokens.IsCancelled token) :=
  inferInstanceAs (Decidable (_ ∈ _))

end Tokens

inductive Effect where
  | showWindow
  | hideWindow
  | refresh
  | probeSession
  | probeVersion
  | fetchAndCopy (key : ItemKey) (field : String) (secret : Bool) (cancel : CancellationToken)
  | fetchTotpAndCopy (key : ItemKey) (field : String) (cancel : CancellationToken)
  | copy (value : SecretString) (secret : Bool)
  | persist
  | loadCache
  | deleteCache
  | startLogin
  /-- Fetch a secret field for the field list. The result carries `index` and `generation` back,
  so the reducer can tell whose value it is. -/
  | fetchReveal (key : ItemKey) (field : String) (index generation : Nat)
      (cancel : CancellationToken)
  | fetchTotp (key : ItemKey) (cancel : CancellationToken)
  | savePreferences (prefs : Preferences)
  | expireNotice (id : Nat) (after : Nat)
deriving DecidableEq

namespace Effect

def token : Effect → Option CancellationToken
  | fetchAndCopy _ _ _ cancel => some cancel
  | fetchTotpAndCopy _ _ cancel => some cancel
  | fetchReveal _ _ _ _ cancel => some cancel
  | fetchTotp _ cancel => some cancel
  | _ => none

end Effect

end CosmicPass
