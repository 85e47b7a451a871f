import CosmicPass.Config
import CosmicPass.Model

/-!
# Copy actions available for each item kind

The rows of the action list and the field each copy shortcut stands for, as `src/core/actions.rs`
computes them.
-/

namespace CosmicPass

inductive CopySource where
  | field (f : FieldRef)
  | totp (field : String)
deriving DecidableEq

namespace CopySource

def isSecret : CopySource → Bool
  | field f => f.secret
  | totp _ => true

end CopySource

structure ActionEntry where
  source : CopySource
  label : String
  shortcut : Option Action
  /-- Where this row's field sits in the item's fields, or `none` for a one-time code. -/
  fieldIndex : Option Nat
deriving DecidableEq

def indexOf (item : ItemSummary) (name : String) : Option Nat :=
  item.fields.findIdx? fun f => f.name = name

def usernameIndex (item : ItemSummary) : Option Nat :=
  (indexOf item "username").or (indexOf item "email")

/-- The first website; the parser names it `url` and numbers the rest (`url2`, ...). -/
def urlIndex (item : ItemSummary) : Option Nat := indexOf item "url"

def usernameField (item : ItemSummary) : Option FieldRef :=
  (usernameIndex item).bind fun i => item.fields[i]?

def usernameAction (item : ItemSummary) : Option CopySource :=
  (usernameField item).map .field

def totpAction (item : ItemSummary) : Option CopySource :=
  item.totpFields.head?.map .totp

def urlAction (item : ItemSummary) : Option CopySource :=
  (urlIndex item).bind fun i => item.fields[i]?.map .field

def preferredName : ItemKind → Option String
  | .login => some "password"
  | .creditCard => some "number"
  | .note => some "note"
  | _ => none

/-- The field copied by Enter (FR-011). -/
def primaryAction (item : ItemSummary) : Option CopySource :=
  let field := ((preferredName item.kind).bind item.field).or
    ((item.fields.find? (·.secret)).or item.fields.head?)
  match field with
  | some f => some (.field f)
  | none => item.totpFields.head?.map .totp

def entry (source : CopySource) (shortcut : Option Action) (fieldIndex : Option Nat) :
    ActionEntry :=
  let label := match source with
    | .field f => f.label
    | .totp field => if field = "totp_uri" then "One-time code" else field
  { source, label, shortcut, fieldIndex }

def primaryEntry (item : ItemSummary) : List ActionEntry :=
  match primaryAction item with
  | none => []
  | some (.field f) =>
      [entry (.field f) (some .copyPrimary) (item.fields.findIdx? fun other => other = f)]
  | some (.totp field) => [entry (.totp field) (some .copyPrimary) none]

def fieldEntry (item : ItemSummary) (field : FieldRef) (i : Nat) : Option ActionEntry :=
  if primaryAction item = some (.field field) then none
  else
    let shortcut :=
      if some i = usernameIndex item then some Action.copyUsername
      else if some i = urlIndex item then some Action.copyUrl
      else none
    some (entry (.field field) shortcut (some i))

def totpEntry (item : ItemSummary) (field : String) (i : Nat) : Option ActionEntry :=
  if primaryAction item = some (.totp field) then none
  else some (entry (.totp field) (if i = 0 then some .copyTotp else none) none)

/-- Every copyable field of an item, primary first (FR-013). -/
def allActions (item : ItemSummary) : List ActionEntry :=
  primaryEntry item
    ++ item.fields.zipIdx.filterMap (fun (field, i) => fieldEntry item field i)
    ++ item.totpFields.zipIdx.filterMap (fun (field, i) => totpEntry item field i)

end CosmicPass
