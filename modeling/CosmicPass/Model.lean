import CosmicPass.Library.OrderedMap
import Mathlib.Data.Prod.Lex
import Mathlib.Data.String.Basic
import Mathlib.Order.Lattice

/-!
# Domain types

Vaults, items and field references, as `src/model.rs` declares them. Everything here is non-secret
metadata: a secret value never enters these types.
-/

namespace CosmicPass

structure ShareId where
  id : String
deriving DecidableEq

structure ItemId where
  id : String
deriving DecidableEq

structure AccountId where
  id : String
deriving DecidableEq

structure ItemKey where
  share : ShareId
  item : ItemId
deriving DecidableEq

namespace ItemKey

def toPair (key : ItemKey) : String ×ₗ String := toLex (key.share.id, key.item.id)

theorem toPair_injective : Function.Injective toPair := by
  rintro ⟨⟨leftShare⟩, ⟨leftItem⟩⟩ ⟨⟨rightShare⟩, ⟨rightItem⟩⟩ h
  have hpair : (leftShare, leftItem) = (rightShare, rightItem) := toLex.injective h
  simpa using hpair

/-- Share first, then item, both by code points, which is the byte order of their UTF-8. -/
instance : LinearOrder ItemKey := LinearOrder.lift' toPair toPair_injective

end ItemKey

structure Vault where
  shareId : ShareId
  name : String
deriving DecidableEq

inductive ItemKind where
  | login
  | note
  | creditCard
  | identity
  | alias
  | sshKey
  | wifi
  | custom
  | unknown (name : String)
deriving DecidableEq

/-- Parses both the `item_type` form (`credit_card`) and the content key form (`CreditCard`). Case, `-`,
and `_` are ignored. -/
def ItemKind.fromCli (name : String) : ItemKind :=
  let normalized := String.ofList
    ((name.toList.filter fun c => c ≠ '_' ∧ c ≠ '-').map Char.toLower)
  match normalized with
  | "login" => login
  | "note" => note
  | "creditcard" => creditCard
  | "identity" => identity
  | "alias" => .alias
  | "sshkey" => sshKey
  | "wifi" => wifi
  | "custom" => custom
  | _ => unknown name

/-- A copyable field of an item. Holds a value only for non-secret fields. -/
structure FieldRef where
  name : String
  label : String
  secret : Bool
  value : Option String
deriving DecidableEq

namespace FieldRef

def secretField (name label : String) : FieldRef :=
  { name, label, secret := true, value := none }

def plain (name label value : String) : FieldRef :=
  { name, label, secret := false, value := some value }

def unstored (name label : String) : FieldRef :=
  { name, label, secret := false, value := none }

end FieldRef

structure ItemSummary where
  key : ItemKey
  vaultName : String
  kind : ItemKind
  title : String
  username : Option String
  email : Option String
  subtitle : Option String
  urls : List String
  /-- Names of fields that produce one-time codes (`totp_uri`, custom TOTP names). -/
  totpFields : List String
  /-- Standard and custom copyable fields, in display order. Excludes TOTP fields. -/
  fields : List FieldRef
  modifiedAt : Int
deriving DecidableEq

/-- The characters `char::is_whitespace` accepts: the `White_Space` property of Unicode. -/
def isWhitespace (c : Char) : Bool :=
  let n := c.toNat
  (9 ≤ n ∧ n ≤ 13) ∨ n = 0x20 ∨ n = 0x85 ∨ n = 0xA0 ∨ n = 0x1680 ∨ (0x2000 ≤ n ∧ n ≤ 0x200A) ∨
    n = 0x2028 ∨ n = 0x2029 ∨ n = 0x202F ∨ n = 0x205F ∨ n = 0x3000

/-- `text.trim().is_empty()`. -/
def isBlank (text : String) : Bool := text.toList.all isWhitespace

/-- `str::eq_ignore_ascii_case`. -/
def eqIgnoreAsciiCase (left right : String) : Bool :=
  left.toList.map Char.toLower = right.toList.map Char.toLower

namespace ItemSummary

def displayTitle (item : ItemSummary) : String :=
  if isBlank item.title then "(untitled)" else item.title

def field (item : ItemSummary) (name : String) : Option FieldRef :=
  item.fields.find? fun f => f.name = name

end ItemSummary

structure UsageRecord where
  key : ItemKey
  lastUsed : Int
  count : Nat
deriving DecidableEq

def cacheFormatVersion : Nat := 2

structure CacheFile where
  formatVersion : Nat
  account : AccountId
  fetchedAt : Int
  vaults : List Vault
  items : List ItemSummary
  usage : List UsageRecord
deriving DecidableEq

structure Listing where
  vaults : List Vault
  items : List ItemSummary
deriving DecidableEq

structure CliVersion where
  major : Nat
  minor : Nat
  patch : Nat
deriving DecidableEq

namespace CliVersion

def toText (v : CliVersion) : String :=
  toString v.major ++ "." ++ toString v.minor ++ "." ++ toString v.patch

def olderThan (left right : CliVersion) : Bool :=
  left.major < right.major ∨
    left.major = right.major ∧
      (left.minor < right.minor ∨ left.minor = right.minor ∧ left.patch < right.patch)

end CliVersion

def parseDigits (bytes : List UInt8) : Option Int :=
  if bytes ≠ [] ∧ bytes.all fun b => 0x30 ≤ b ∧ b ≤ 0x39 then
    some (bytes.foldl (fun value b => value * 10 + (b.toNat - 0x30 : Nat)) 0)
  else none

/-- `str::parse::<i64>`, for texts too short to overflow: a sign may come first. -/
def parseInt : List UInt8 → Option Int
  | 0x2B :: digits => parseDigits digits
  | 0x2D :: digits => (parseDigits digits).map fun value => -value
  | digits => parseDigits digits

/-- Days since 1970-01-01 for a proleptic Gregorian date (Howard Hinnant's algorithm). -/
def daysFromCivil (y m d : Int) : Int :=
  let y := if m ≤ 2 then y - 1 else y
  let era := y / 400
  let yoe := y - era * 400
  let mp := (m + 9) % 12
  let doy := (153 * mp + 2) / 5 + d - 1
  let doe := yoe * 365 + yoe / 4 - yoe / 100 + doy
  era * 146097 + doe - 719468

/-- Parses `YYYY-MM-DDTHH:MM:SS` (UTC) into Unix seconds. A range that does not fall on characters has
a byte in it that is no digit, and is rejected as one that is no number. -/
def parseTimestamp (text : String) : Option Int := do
  let b := text.toList.flatMap String.utf8EncodeChar
  if b.length < 19 ∨ b[4]? ≠ some 0x2D ∨ b[7]? ≠ some 0x2D ∨ b[10]? ≠ some 0x54 then none
  let num := fun start stop => parseInt (b.extract start stop)
  let y ← num 0 4
  let m ← num 5 7
  let d ← num 8 10
  let hh ← num 11 13
  let mm ← num 14 16
  let ss ← num 17 19
  if ¬ (1 ≤ m ∧ m ≤ 12) ∨ ¬ (1 ≤ d ∧ d ≤ 31) ∨ 23 < hh ∨ 59 < mm ∨ 60 < ss then none
  else some (daysFromCivil y m d * 86400 + hh * 3600 + mm * 60 + ss)

end CosmicPass
