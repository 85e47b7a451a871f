import CosmicPass.Core.Totp
import CosmicPass.Library.TryJoin
import CosmicPass.Pass.Output
import CosmicPass.Pass.Parse
import CosmicPass.Pass.Runner

/-!
# The operations on `pass-cli`

`PassCli` of `src/pass/backend.rs`: every command line the app sends and what is made of its output;
and the parsers of `src/pass/parse.rs` that the operations need beside those of listings and fields.

`run` is what `TokioRunner::run` returns for a command line. `list_all` runs the listings of the
vaults beside each other, so it is a transition system; everything else is one call.
-/

namespace CosmicPass

open Json

/-! ### Parsing -/

/-- The `id` of what `pass-cli info` prints. -/
def Info.shape : Shape := { fields := ["id"] }

def Info.decode : Decoder String := fun v =>
  (asRecord Info.shape v).bind fun r => required r "id" asString

def RawVault.shape : Shape :=
  { fields := ["share_id", "name"], aliases := [("shareId", "share_id")] }

def RawVault.decode : Decoder Vault := fun v =>
  (asRecord RawVault.shape v).bind fun r => do
    let shareId ← required r "share_id" asString
    let name ← required r "name" asString
    some { shareId := ⟨shareId⟩, name }

/-- `Wrapped` or `Bare`. A variant with fields is only read from an object. -/
def VaultList.decode : Decoder (List Vault)
  | .object members =>
      (asRecord { fields := ["vaults"] } (.object members)).bind fun r =>
        required r "vaults" (asList RawVault.decode)
  | v => asList RawVault.decode v

/-- Of members of the same name the last one counts. -/
def decodeCodes : Decoder Codes
  | .object members =>
      (members.mapM fun member => (asString member.2).map fun code => (member.1, (⟨code⟩ : SecretString))).map
        OrderedMap.ofList
  | _ => none

section Parsers

variable (readJson : List UInt8 → Option Json) (bytes : List UInt8)

def parseAccount : Except PassError AccountId :=
  match (readJson bytes).bind Info.decode with
  | some id => .ok ⟨id⟩
  | none => .error (.protocol "info")

def parseVaults : Except PassError (List Vault) :=
  match (readJson bytes).bind VaultList.decode with
  | some vaults => .ok vaults
  | none => .error (.protocol "vault list")

def parseTotp : Except PassError Codes :=
  match (readJson bytes).bind decodeCodes with
  | some codes => .ok codes
  | none => .error (.protocol "item totp")

end Parsers

/-! ### Command lines -/

def idArgs (key : ItemKey) : List String :=
  ["--share-id=" ++ key.share.id, "--item-id=" ++ key.item.id]

namespace Argv

def version : List String := ["--version"]

def info : List String := ["info", "--output", "json"]

def vaultList : List String := ["vault", "list", "--output", "json"]

def itemList (share : String) : List String :=
  ["item", "list", "--share-id=" ++ share, "--output", "json", "--show-secrets"]

def itemView (key : ItemKey) (field : String) : List String :=
  ["item", "view"] ++ idArgs key ++ ["--field=" ++ field]

def itemTotp (key : ItemKey) : List String :=
  ["item", "totp"] ++ idArgs key ++ ["--output", "json"]

def login : List String := ["login"]

end Argv

/-- What is asked of `pass-cli`. -/
inductive Request where
  | version
  | info
  | vaultList
  | itemList (share : ShareId)
  | itemView (key : ItemKey) (field : String)
  | itemTotp (key : ItemKey)
  | login
deriving DecidableEq

def Request.argv : Request → List String
  | .version => Argv.version
  | .info => Argv.info
  | .vaultList => Argv.vaultList
  | .itemList share => Argv.itemList share.id
  | .itemView key field => Argv.itemView key field
  | .itemTotp key => Argv.itemTotp key
  | .login => Argv.login

/-! ### Operations -/

namespace PassCli

variable (run : List String → Except PassError Output) (readJson : List UInt8 → Option Json)

def account : Except PassError AccountId :=
  (run Argv.info).bind fun out => parseAccount readJson out.stdout

def version : Except PassError CliVersion :=
  (run Argv.version).bind fun out => parseVersion ⟨out.stdout.toArray⟩

def getField (key : ItemKey) (field : String) : Except PassError SecretString :=
  (run (Argv.itemView key field)).bind fun out => (parseField ⟨out.stdout.toArray⟩).map SecretString.mk

def totp (key : ItemKey) : Except PassError Codes :=
  (run (Argv.itemTotp key)).bind fun out => parseTotp readJson out.stdout

def vaults : Except PassError (List Vault) :=
  (run Argv.vaultList).bind fun out => parseVaults readJson out.stdout

/-- The listing of one vault. -/
def itemsOf (vault : Vault) : Except PassError (List ItemSummary) :=
  (run (Argv.itemList vault.shareId.id)).bind fun out =>
    parseItems readJson out.stdout vault.shareId vault.name

def outcomes (vaults : List Vault) : List (Except PassError (List ItemSummary)) :=
  vaults.map (itemsOf run readJson)

def listingOf (vaults : List Vault) (perVault : List (List ItemSummary)) : Listing :=
  { vaults, items := perVault.flatten }

end PassCli

/-- Where `list_all` is. -/
inductive ListAll where
  | start
  | joining (vaults : List Vault) (join : TryJoin PassError (List ItemSummary))
  | returned (result : Except PassError Listing)

inductive ListAllEvent where
  | vaults
  | join (event : TryJoin.Event)
deriving DecidableEq

namespace ListAll

variable (run : List String → Except PassError Output) (readJson : List UInt8 → Option Json)

/-- Returns once the join has. The futures that remain are dropped then. -/
def joined (vaults : List Vault) (join : TryJoin PassError (List ItemSummary)) : ListAll :=
  match join.result with
  | none => .joining vaults join
  | some result => .returned (result.map (PassCli.listingOf vaults))

def step : ListAll → ListAllEvent → Option ListAll
  | .start, .vaults =>
      match PassCli.vaults run readJson with
      | .error error => some (.returned (.error error))
      | .ok vaults => some (.joining vaults (TryJoin.start (PassCli.outcomes run readJson vaults)))
  | .joining vaults join, .join event =>
      (TryJoin.step (PassCli.outcomes run readJson vaults) join event).map (joined vaults)
  | _, _ => none

def system : TransitionSystem ListAll ListAllEvent :=
  { init := fun s => s = .start
    step := step run readJson }

end ListAll

end CosmicPass
