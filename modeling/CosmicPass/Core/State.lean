import CosmicPass.Core.Actions
import CosmicPass.Core.Effects
import CosmicPass.Core.Search
import CosmicPass.Core.Usage

/-!
# Application state

The state the reducer of `src/core/state.rs` works on, the messages it accepts, and the questions the
view and the reducer ask of the state without changing it.
-/

namespace CosmicPass

inductive SessionState where
  | unknown
  | checking
  | signedIn (account : AccountId)
  | signedOut
  | locked
  | cliMissing
  | loggingIn
  | error (message : String)
deriving DecidableEq

inductive DataSource where
  | memory
  | diskCache
deriving DecidableEq

inductive RefreshError where
  | unreachable
  | other
deriving DecidableEq

def RefreshError.of : PassError → RefreshError
  | .network | .timeout => unreachable
  | _ => other

structure DataState where
  vaults : List Vault := []
  items : List ItemSummary := []
  fetchedAt : Option Int := none
  stale : Bool := false
  refreshing : Bool := false
  source : DataSource := .memory
  cachedAt : Option Int := none
  lastError : Option RefreshError := none
deriving DecidableEq

inductive Mode where
  | list
  | actions (key : ItemKey) (selected : Nat)
  /-- `rebinding` is the action waiting for a new key chord. -/
  | preferences (rebinding : Option Action)
deriving DecidableEq

structure PendingFetch where
  key : ItemKey
  cancel : CancellationToken
  secret : Bool
deriving DecidableEq

structure Notice where
  id : Nat
  text : String
deriving DecidableEq

/-- The secret the field list reveals, or is waiting on, pinned to the item, the position and the
field as it stood when the fetch was asked for. -/
structure RevealTarget where
  /-- Identifies the fetch issued for this target; never issued twice. -/
  generation : Nat
  key : ItemKey
  index : Nat
  field : FieldRef
  /-- The item's edit time at fetch time: a later edit may have rotated this very secret. -/
  modifiedAt : Int
deriving DecidableEq

/-- Whether `item` still carries the same secret field, unedited, at the same position. -/
def RevealTarget.stillDescribes (target : RevealTarget) (item : ItemSummary) : Bool :=
  item.key = target.key ∧ item.modifiedAt = target.modifiedAt ∧
    item.fields[target.index]? = some target.field

inductive Revealed where
  | nothing
  /-- A secret field, pinned to what it was asked for. `value` is `none` until the fetch returns. -/
  | field (target : RevealTarget) (value : Option SecretString)
  /-- A one-time code. `code` outlives its own period while `fetching` is set. -/
  | totp (code : Option TotpDisplay) (fetching : Bool)
deriving DecidableEq

namespace Revealed

def value : Revealed → Option SecretString
  | field _ value => value
  | nothing | totp _ _ => none

def fieldTarget : Revealed → Option RevealTarget
  | field target _ => some target
  | nothing | totp _ _ => none

def totpCode : Revealed → Option TotpDisplay
  | totp code _ => code
  | nothing | field _ _ => none

def totpFetching : Revealed → Bool
  | totp _ fetching => fetching
  | nothing | field _ _ => false

end Revealed

structure ViewState where
  visible : Bool := false
  query : String := ""
  results : List ResultRow := []
  selected : Nat := 0
  mode : Mode := .list
  pending : Option PendingFetch := none
  revealed : Revealed := .nothing
  revealTotpCancel : Option CancellationToken := none
  revealCancel : Option CancellationToken := none
  notice : Option Notice := none
  copying : Bool := false
deriving DecidableEq

inductive Msg where
  | toggle
  | show
  | hide
  | queryChanged (query : String)
  | selectNext
  | selectPrev
  | pageDown
  | pageUp
  | select (index : Nat)
  | refreshRequested
  | dataLoaded (listing : Listing)
  | refreshFailed (error : PassError)
  | noticeExpired (id : Nat)
  | copyPrimary
  /-- A field or code fetched for copying. -/
  | copyFetched (key : ItemKey) (result : Except PassError SecretString)
  | copyFinished (result : Except String Unit)
  | escape
  | copyUsername
  | copyTotp
  | copyUrl
  | openActions
  /-- Copy an action-list entry: the highlighted one, or the given index. -/
  | activateAction (index : Option Nat)
  | back
  | startup
  | sessionProbed (result : Except PassError AccountId)
  | versionProbed (result : Except PassError CliVersion)
  | startLogin
  | loginLine (line : String)
  | loginFinished (result : Except PassError Unit)
  | toggleReveal
  | revealFetched (key : ItemKey) (index generation : Nat) (result : Except PassError SecretString)
  | totpFetched (key : ItemKey) (result : Except PassError Codes)
  | tick (now : Int)
  | cacheLoaded (file : Option CacheFile)
  | openPreferences
  | adjustClipboardClear (delta : Int)
  | startRebind (action : Action)
  | chordCaptured (chord : KeyChord)
  | resetShortcuts
  | prefsLoaded (prefs : Preferences)
deriving DecidableEq

structure Model where
  session : SessionState
  data : DataState
  view : ViewState
  prefs : Preferences
  usage : UsageTable
  loginUrl : Option String
  cliWarning : Option String
  /-- The account the loaded data belongs to: whoever was signed in when the listing arrived, or the
  account the cache file names. -/
  dataAccount : Option AccountId
  index : SearchIndex
  nextNotice : Nat
  nextReveal : Nat
  /-- The flags behind every `CancellationToken` the state and its effects hold. -/
  tokens : Tokens
deriving DecidableEq

namespace Model

def new (prefs : Preferences) : Model :=
  { session := .unknown
    data := {}
    view := {}
    prefs
    usage := .empty
    loginUrl := none
    cliWarning := none
    dataAccount := none
    index := ⟨[]⟩
    nextNotice := 0
    nextReveal := 0
    tokens := .none }

/-- Everything worth caching, if an account is known and data was fetched. -/
def cacheSnapshot (m : Model) : Option CacheFile :=
  match m.session with
  | .signedIn account =>
      let fetchedAt := match m.data.source with
        | .memory => m.data.fetchedAt
        | .diskCache => m.data.cachedAt
      fetchedAt.map fun fetchedAt =>
        { formatVersion := cacheFormatVersion
          account
          fetchedAt
          vaults := m.data.vaults
          items := m.data.items
          usage := m.usage.sortedRecords }
  | _ => none

def canStartLogin (m : Model) : Bool :=
  match m.session with
  | .signedOut | .error _ => true
  | _ => false

def signedInAccount (m : Model) : Option AccountId :=
  match m.session with
  | .signedIn account => some account
  | _ => none

def mayRefresh (m : Model) : Bool :=
  match m.session with
  | .checking | .signedOut | .locked | .cliMissing | .loggingIn | .error _ => false
  | .unknown | .signedIn _ => true

def selectedItem (m : Model) : Option ItemSummary :=
  m.view.results[m.view.selected]?.bind fun row => m.data.items[row.item]?

def item (m : Model) (key : ItemKey) : Option ItemSummary :=
  m.data.items.find? fun i => i.key = key

def targetItem (m : Model) : Option ItemSummary :=
  match m.view.mode with
  | .actions key _ => m.item key
  | .list | .preferences _ => m.selectedItem

def actions (m : Model) : List ActionEntry :=
  match m.targetItem with
  | some item => allActions item
  | none => []

def revealTarget (m : Model) (key : ItemKey) (index generation : Nat) : Option RevealTarget :=
  match m.item key with
  | none => none
  | some item =>
      item.fields[index]?.map fun field =>
        { generation, key, index, field, modifiedAt := item.modifiedAt }

def revealedValue (m : Model) (index : Nat) : Option SecretString :=
  match m.view.revealed.fieldTarget, m.view.revealed.value, m.targetItem with
  | some target, some value, some item =>
      if target.index = index ∧ target.stillDescribes item then some value else none
  | _, _, _ => none

def revealedTotp (m : Model) : Option TotpDisplay := m.view.revealed.totpCode

def revealingField (m : Model) (index : Nat) : Bool :=
  m.view.revealCancel.isSome ∧ m.view.revealed.fieldTarget.any fun target => target.index = index

def revealingTotp (m : Model) : Bool := m.view.revealed.totpFetching

def inActions (m : Model) (key : ItemKey) : Bool :=
  match m.view.mode with
  | .actions shown _ => shown = key
  | _ => false

def highlightedTotpField (m : Model) : Option String :=
  match m.view.mode with
  | .actions _ selected =>
      match m.actions[selected]? with
      | some { source := .totp field, .. } => some field
      | _ => none
  | _ => none

end Model

end CosmicPass
