import CosmicPass.Core.State
import CosmicPass.Core.Version

/-!
# The reducer

`Model.update` of `src/core/state.rs` and the methods it is made of. A method that changes the state
and asks for effects returns both.
-/

namespace CosmicPass

def page : Int := 10

def noticeDuration : Nat := 3

/-- `usize::saturating_add_signed`; every caller caps the result at a list length. -/
def saturatingAddSigned (n : Nat) (delta : Int) : Nat := ((n : Int) + delta).toNat

/-- The words of a line, `current` being the reversed word read so far. -/
def splitWords : List Char → List Char → List (List Char)
  | [], current => if current = [] then [] else [current.reverse]
  | c :: rest, current =>
      if isWhitespace c then
        if current = [] then splitWords rest [] else current.reverse :: splitWords rest []
      else splitWords rest (c :: current)

def findUrl (line : String) : Option String :=
  ((splitWords line.toList []).find? fun word => "https://".toList.isPrefixOf word).map
    String.ofList

namespace Model

section Methods

variable [TextSupport]

def notify (m : Model) (text : String) : Model × Effect :=
  let id := m.nextNotice + 1
  ({ m with nextNotice := id, view := { m.view with notice := some { id, text } } },
    .expireNotice id noticeDuration)

def recomputeResults (m : Model) : Model :=
  let results := m.index.search m.view.query m.usage.recency m.data.items m.prefs.maxResults
  { m with
    view := { m.view with
      results
      selected := min m.view.selected (results.length - 1) } }

def cancelReveal (m : Model) : Model :=
  { m with
    tokens := m.tokens.cancel m.view.revealCancel
    view := { m.view with revealCancel := none } }

def dropReveal (m : Model) : Model :=
  cancelReveal { m with view := { m.view with revealed := .nothing } }

def clearRevealed (m : Model) : Model :=
  let m := m.dropReveal
  { m with
    tokens := m.tokens.cancel m.view.revealTotpCancel
    view := { m.view with revealTotpCancel := none } }

def leaveMode (m : Model) : Model :=
  clearRevealed { m with view := { m.view with mode := .list } }

def totpFetchSettled (m : Model) : Model :=
  match m.view.revealed with
  | .totp code _ => { m with view := { m.view with revealed := .totp code false } }
  | _ => m

def cancelPending (m : Model) : Model :=
  { m with
    tokens := m.tokens.cancel (m.view.pending.map (·.cancel))
    view := { m.view with pending := none } }

def hide (m : Model) : Model × List Effect :=
  let m := m.cancelPending.leaveMode
  (recomputeResults { m with view := {} }, [.hideWindow])

def requestRefresh (m : Model) : Model × List Effect :=
  if m.data.refreshing ∨ ¬ m.mayRefresh then (m, [])
  else ({ m with data := { m.data with refreshing := true } }, [.refresh])

def staleSince (m : Model) (now : Int) : Bool :=
  match m.data.fetchedAt with
  | none => true
  | some fetched => m.prefs.refreshStaleSecs ≤ saturateI64 (now - fetched)

def «show» (m : Model) (now : Int) : Model × List Effect :=
  if m.view.visible then (m, [])
  else
    let m := { m with view := { m.view with visible := true } }
    if m.staleSince now ∧ m.mayRefresh then
      let (m, effects) := m.requestRefresh
      (m, .showWindow :: effects)
    else (m, [.showWindow])

def moveSelection (m : Model) (delta : Int) : Model × List Effect :=
  match m.view.mode with
  | .actions key selected =>
      -- The reveal belongs to the row it was asked for, so it goes with the highlight.
      let m := m.clearRevealed
      let last := m.actions.length - 1
      let mode := .actions key (min (saturatingAddSigned selected delta) last)
      ({ m with view := { m.view with mode } }, [])
  | _ =>
      let rows := m.view.results.length
      if 0 < rows then
        let selected := min (saturatingAddSigned m.view.selected delta) (rows - 1)
        ({ m with view := { m.view with selected } }, [])
      else (m, [])

/-- Drops the revealed secret, and any fetch still running for it, once the item it was taken from
no longer carries that field at that position. -/
def dropStaleReveal (m : Model) : Model :=
  match m.view.revealed.fieldTarget with
  | none => m
  | some target => if (m.item target.key).any target.stillDescribes then m else m.dropReveal

def rowOf (m : Model) (key : Option ItemKey) : Nat :=
  (key.bind fun key => m.view.results.findIdx? fun row =>
    (m.data.items[row.item]?.any fun item => item.key = key)).getD 0

def replaceItems (m : Model) (listing : Listing) : Model :=
  let selectedKey := m.selectedItem.map (·.key)
  let m := { m with data := { m.data with vaults := listing.vaults, items := listing.items } }
  let m := { m with usage := m.usage.prune m.data.items, index := SearchIndex.build m.data.items }
  let m := m.recomputeResults
  let m := { m with view := { m.view with selected := m.rowOf selectedKey } }
  m.dropStaleReveal

def clearData (m : Model) : Model :=
  let m :=
    { m with
      data := { refreshing := m.data.refreshing }
      usage := .empty
      dataAccount := none
      index := ⟨[]⟩ }
  -- Nothing fetched under the account being dropped may stay on screen (FR-025).
  let m := m.clearRevealed
  recomputeResults { m with view := { m.view with selected := 0 } }

def sessionError (m : Model) (error : PassError) : Model × List Effect :=
  match error with
  | .signedOut => (clearData { m with session := .signedOut }, [.deleteCache])
  | .locked => ({ m with session := .locked }, [])
  | .cliMissing => ({ m with session := .cliMissing }, [])
  | .localData => ({ m with session := .error PassError.localData.toText }, [])
  | other =>
      ({ m with data := { m.data with stale := true, lastError := some (.of other) } }, [])

def signedIn (m : Model) (account : AccountId) : Model × List Effect :=
  let otherSession := m.signedInAccount.any fun previous => previous ≠ account
  let otherData := m.dataAccount.any fun owner => owner ≠ account
  let (m, dropped) :=
    if otherSession ∨ otherData then (m.clearData, [Effect.deleteCache]) else (m, [])
  let m := { m with session := .signedIn account, dataAccount := some account }
  let (m, effects) := m.requestRefresh
  (m, dropped ++ effects)

def sessionProbed (m : Model) (result : Except PassError AccountId) : Model × List Effect :=
  match result with
  | .ok account => m.signedIn account
  | .error error =>
      let (m, effects) := m.sessionError error
      match m.session with
      | .checking | .unknown =>
          let session := match error with
            | .network | .timeout | .cancelled => .unknown
            | other => .error other.toText
          ({ m with session }, effects)
      | _ => (m, effects)

def cacheLoaded (m : Model) (file : Option CacheFile) : Model × List Effect :=
  match file with
  | none => (m, [])
  | some file =>
      if m.data.fetchedAt.isSome then (m, [])
      else if m.signedInAccount.any fun account => account ≠ file.account then
        (m, [.deleteCache])
      else
        let data :=
          { m.data with stale := true, source := .diskCache, cachedAt := some file.fetchedAt }
        let m :=
          { m with
            data
            dataAccount := some file.account
            usage := .fromRecords file.usage }
        (m.replaceItems { vaults := file.vaults, items := file.items }, [])

def dataLoaded (m : Model) (listing : Listing) (now : Int) : Model × List Effect :=
  let data :=
    { m.data with
      refreshing := false
      stale := false
      lastError := none
      source := .memory
      fetchedAt := some now
      cachedAt := none }
  -- A listing can land after the session stopped naming an account. Keep whose items these are
  -- rather than forgetting, or `signedIn` cannot tell a later switch from a return.
  let m := { m with data, dataAccount := m.signedInAccount.or m.dataAccount }
  (m.replaceItems listing, [.persist])

def refreshFailed (m : Model) (error : PassError) : Model × List Effect :=
  sessionError { m with data := { m.data with refreshing := false, stale := true } } error

def applyPrefs (m : Model) (prefs : Preferences) : Model :=
  let reindex := prefs.maxResults ≠ m.prefs.maxResults
  let m := { m with prefs }
  if reindex then m.recomputeResults else m

def savePrefs (m : Model) (prefs : Preferences) : Model × List Effect :=
  let prefs := prefs.validated
  if prefs = m.prefs then (m, []) else (m.applyPrefs prefs, [.savePreferences prefs])

def adjustClipboardClear (m : Model) (delta : Int) : Model × List Effect :=
  let next := (max (saturateI64 (m.prefs.clipboardClearSecs + delta)) 0).toNat
  let next := if next ≤ u32Max then next else u32Max
  m.savePrefs { m.prefs with clipboardClearSecs := next }

def chordCaptured (m : Model) (chord : KeyChord) : Model × List Effect :=
  match m.view.mode with
  | .preferences (some action) =>
      match m.prefs.conflict action chord with
      | some other =>
          let (m, expire) :=
            m.notify (chord.toText ++ " is already used by “" ++ other.label ++ "”")
          (m, [expire])
      | none =>
          let m := { m with view := { m.view with mode := .preferences none } }
          m.savePrefs { m.prefs with shortcuts := m.prefs.shortcuts.insert action chord }
  | _ => (m, [])

def startup (m : Model) : Model × List Effect :=
  let session := match m.session with
    | .loggingIn => .loggingIn
    | .signedIn account => .signedIn account
    | _ => .checking
  ({ m with session }, [.loadCache, .probeVersion, .probeSession])

def versionProbed (m : Model) (result : Except PassError CliVersion) : Model × List Effect :=
  let cliWarning := match result with
    | .ok found => versionWarning found
    | .error _ => none
  ({ m with cliWarning }, [])

def startLogin (m : Model) : Model × List Effect :=
  if m.canStartLogin then
    ({ m with session := .loggingIn, loginUrl := none }, [.startLogin])
  else (m, [])

def loginLine (m : Model) (line : String) : Model × List Effect :=
  if m.loginUrl.isNone then ({ m with loginUrl := findUrl line }, []) else (m, [])

def loginFinished (m : Model) (result : Except PassError Unit) : Model × List Effect :=
  let m := { m with loginUrl := none }
  match result with
  | .ok () => ({ m with session := .checking }, [.probeSession])
  | .error error => ({ m with session := .error error.toText }, [])

def startCopy (m : Model) (key : ItemKey) (source : CopySource) : Model × List Effect :=
  let m := m.cancelPending
  let secret := source.isSecret
  let cancel := m.tokens.fresh
  -- Every field is fetched, the stored non-secret value included: the summary's value is as old as
  -- the last refresh.
  let effect := match source with
    | .field field => .fetchAndCopy key field.name secret cancel
    | .totp field => .fetchTotpAndCopy key field cancel
  ({ m with
      tokens := m.tokens.advance
      view := { m.view with pending := some { key, cancel, secret } } }, [effect])

def copyWith (m : Model) (pick : ItemSummary → Option CopySource) (missing : String) :
    Model × List Effect :=
  match m.targetItem with
  | none => (m, [])
  | some item =>
      match pick item with
      | some source => m.startCopy item.key source
      | none =>
          let (m, expire) := m.notify missing
          (m, [expire])

def activateAction (m : Model) (index : Option Nat) : Model × List Effect :=
  match m.view.mode with
  | .actions key selected =>
      match m.actions[index.getD selected]? with
      | some entry => m.startCopy key entry.source
      | none => (m, [])
  | _ => (m, [])

def finishCopy (m : Model) (key : ItemKey) (now : Int) : Model × List Effect :=
  ({ m with usage := m.usage.record key now, view := { m.view with copying := true } },
    [.persist])

/-- What the answer to the fetch the pending slot was waiting for does, the slot now being empty. -/
def copySettled (m : Model) (key : ItemKey) (secret : Bool)
    (result : Except PassError SecretString) (now : Int) : Model × List Effect :=
  match result with
  | .ok value =>
      let (m, effects) := m.finishCopy key now
      (m, .copy value secret :: effects)
  | .error .cancelled => (m, [])
  | .error .notFound =>
      let (m, expire) := m.notify "Item no longer exists"
      let (m, effects) := m.requestRefresh
      (m, expire :: effects)
  | .error .fieldMissing =>
      let (m, expire) := m.notify "This field is empty"
      (m, [expire])
  | .error error =>
      let (m, expire) := m.notify error.toText
      let (m, effects) := m.sessionError error
      (m, expire :: effects)

def copyFetched (m : Model) (key : ItemKey) (result : Except PassError SecretString)
    (now : Int) : Model × List Effect :=
  match m.view.pending with
  | none => (m, [])
  | some pending =>
      if pending.key = key then
        copySettled { m with view := { m.view with pending := none } } key pending.secret result now
      else (m, [])

/-- Hides the window once the helper owns the selection. A confirmation that arrives after the
window was dismissed must not disturb a fresh session. -/
def copyConfirmed (m : Model) : Model × List Effect :=
  if m.view.copying then m.hide else (m, [])

def copyFinished (m : Model) (result : Except String Unit) : Model × List Effect :=
  match result with
  | .ok () => m.copyConfirmed
  | .error _ =>
      let (m, expire) := m.notify "Clipboard unavailable"
      (m, [expire])

def escape (m : Model) : Model × List Effect :=
  if m.view.pending.isSome then (m.cancelPending, [])
  else
    match m.view.mode with
    | .preferences (some _) => ({ m with view := { m.view with mode := .preferences none } }, [])
    | .list => m.hide
    | _ => (m.leaveMode, [])

def openActions (m : Model) : Model × List Effect :=
  match m.selectedItem with
  | some item => ({ m with view := { m.view with mode := .actions item.key 0 } }, [])
  | none => (m, [])

/-- The token every one-time-code fetch of one reveal shares. -/
def revealTotpToken (m : Model) : CancellationToken := m.view.revealTotpCancel.getD m.tokens.fresh

def fetchTotp (m : Model) : Model × List Effect :=
  match m.view.mode with
  | .actions key _ =>
      -- A refresh keeps the expiring code on screen until its replacement lands.
      let code := m.view.revealed.totpCode
      let cancel := m.revealTotpToken
      let tokens := if m.view.revealTotpCancel.isSome then m.tokens else m.tokens.advance
      ({ m with
          tokens
          view := { m.view with revealed := .totp code true, revealTotpCancel := some cancel } },
        [.fetchTotp key cancel])
  | _ => (m, [])

def wasShowing (m : Model) (key : ItemKey) (entry : ActionEntry) : Bool :=
  match entry.source with
  | .totp _ => m.view.revealed.totpCode.isSome ∨ m.view.revealed.totpFetching
  | .field _ => entry.fieldIndex.any fun index =>
      m.view.revealed.fieldTarget.any fun target => target.key = key ∧ target.index = index

def fetchReveal (m : Model) (key : ItemKey) (name : String) (index : Nat) : Model × List Effect :=
  let m := { m with nextReveal := m.nextReveal + 1 }
  let generation := m.nextReveal
  match m.revealTarget key index generation with
  | none => (m, [])
  | some target =>
      let cancel := m.tokens.fresh
      ({ m with
          tokens := m.tokens.advance
          view := { m.view with revealed := .field target none, revealCancel := some cancel } },
        [.fetchReveal key name index generation cancel])

/-- Reveals or masks the highlighted row of the field list. Whatever was on screen goes first, and a
row that was already showing its own value is left masked. -/
def toggleReveal (m : Model) : Model × List Effect :=
  match m.view.mode with
  | .actions key selected =>
      match m.actions[selected]? with
      | none => (m, [])
      | some entry =>
          if m.wasShowing key entry then (m.clearRevealed, [])
          else
            match entry.source, entry.fieldIndex with
            | .totp _, _ => m.clearRevealed.fetchTotp
            | .field field, some index =>
                if field.secret then m.clearRevealed.fetchReveal key field.name index
                else (m.clearRevealed, [])
            | .field _, none => (m.clearRevealed, [])
  | _ => (m, [])

def revealFetched (m : Model) (key : ItemKey) (index generation : Nat)
    (result : Except PassError SecretString) : Model × List Effect :=
  let awaited := m.view.revealed.fieldTarget.any fun target =>
    target.generation = generation ∧ target.index = index
  if ¬ m.inActions key ∨ ¬ awaited then (m, [])
  else
    let m := { m with view := { m.view with revealCancel := none } }
    match result with
    | .ok v =>
        match m.view.revealed with
        | .field target _ => ({ m with view := { m.view with revealed := .field target (some v) } }, [])
        | _ => (m, [])
    | .error .cancelled => (m, [])
    | .error error =>
        let m := { m with view := { m.view with revealed := .nothing } }
        let (m, expire) := m.notify error.toText
        (m, [expire])

/-- The code of `field` in an answer. The login code is reported as `totp_uri`, with `totp` as an
alias. -/
def shownCode (codes : Codes) (field : String) : Option SecretString :=
  (codes.get? field).or (if field = "totp_uri" then codes.get? "totp" else none)

def totpFetched (m : Model) (key : ItemKey) (result : Except PassError Codes) (now : Int) :
    Model × List Effect :=
  if ¬ m.inActions key ∨ ¬ m.view.revealed.totpFetching then (m, [])
  else
    match result with
    | .ok codes =>
        -- A reveal names one row, so only that row's code may be shown.
        let code := m.highlightedTotpField.bind fun field =>
          (shownCode codes field).map fun code => TotpDisplay.new field code now
        ({ m with view := { m.view with revealed := .totp code false } }, [])
    | .error .cancelled => (m.totpFetchSettled, [])
    | .error error =>
        let (m, expire) := m.totpFetchSettled.notify error.toText
        (m, [expire])

def tick (m : Model) (now : Int) : Model × List Effect :=
  let expired := m.view.revealed.totpCode.any fun shown => shown.needsRefresh now
  if expired ∧ ¬ m.view.revealed.totpFetching then m.fetchTotp else (m, [])

def update (m : Model) (msg : Msg) (now : Int) : Model × List Effect :=
  match msg with
  | .toggle => if m.view.visible then m.hide else m.show now
  | .show => m.show now
  | .hide => m.hide
  | .queryChanged query =>
      (recomputeResults { m with view := { m.view with query, selected := 0 } }, [])
  | .selectNext => m.moveSelection 1
  | .selectPrev => m.moveSelection (-1)
  | .pageDown => m.moveSelection page
  | .pageUp => m.moveSelection (-page)
  | .select index =>
      if index < m.view.results.length then
        ({ m with view := { m.view with selected := index } }, [])
      else (m, [])
  | .refreshRequested => m.requestRefresh
  | .dataLoaded listing => m.dataLoaded listing now
  | .cacheLoaded file => m.cacheLoaded file
  | .openPreferences =>
      let m := m.leaveMode
      ({ m with view := { m.view with mode := .preferences none } }, [])
  | .adjustClipboardClear delta => m.adjustClipboardClear delta
  | .startRebind action =>
      match m.view.mode with
      | .preferences _ => ({ m with view := { m.view with mode := .preferences (some action) } }, [])
      | _ => (m, [])
  | .chordCaptured chord => m.chordCaptured chord
  | .resetShortcuts => m.savePrefs { m.prefs with shortcuts := Preferences.default.shortcuts }
  | .prefsLoaded prefs => (m.applyPrefs prefs.validated, [])
  | .refreshFailed error => m.refreshFailed error
  | .startup => m.startup
  | .versionProbed result => m.versionProbed result
  | .sessionProbed result => m.sessionProbed result
  | .startLogin => m.startLogin
  | .loginLine line => m.loginLine line
  | .loginFinished result => m.loginFinished result
  | .copyPrimary => m.copyWith primaryAction "Nothing to copy"
  | .copyUsername => m.copyWith usernameAction "This item has no username"
  | .copyTotp => m.copyWith totpAction "This item has no one-time code"
  | .copyUrl => m.copyWith urlAction "This item has no website"
  | .openActions => m.openActions
  | .activateAction index => m.activateAction index
  | .back => (m.leaveMode, [])
  | .toggleReveal => m.toggleReveal
  | .revealFetched key index generation result => m.revealFetched key index generation result
  | .totpFetched key result => m.totpFetched key result now
  | .tick now => m.tick now
  | .copyFetched key result => m.copyFetched key result now
  | .copyFinished result => m.copyFinished result
  | .escape => m.escape
  | .noticeExpired id =>
      if m.view.notice.any fun notice => notice.id = id then
        ({ m with view := { m.view with notice := none } }, [])
      else (m, [])

end Methods

end Model

end CosmicPass
