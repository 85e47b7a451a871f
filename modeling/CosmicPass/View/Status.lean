import CosmicPass.App.Shell

/-!
# What the popup shows

Which pane a mode puts on screen and the caption lines of it, as `src/app/view/mod.rs` has them, and
the panel of `src/app/view/status.rs` that stands in for the list. Size, colour and layout are left
out.
-/

namespace CosmicPass

/-- Which pane the popup shows. -/
inductive Pane where
  | actions (selected : Nat)
  | preferences
  /-- The result list, or the session panel standing in for it. -/
  | list
deriving DecidableEq

def pane : Mode → Pane
  | .actions _ selected => .actions selected
  | .preferences _ => .preferences
  | .list => .list

def passCliUrl : String := "https://protonpass.github.io/pass-cli/"

structure PanelButton where
  label : String
  message : Message
deriving DecidableEq

structure Panel where
  icon : String
  title : String
  detail : String
  buttons : List PanelButton
deriving DecidableEq

namespace Model

/-- The status line to show while the shown data may be out of date, if any. -/
def staleNotice (m : Model) : Option String :=
  if ¬ m.data.stale ∨ m.data.refreshing then none
  else
    match m.data.lastError with
    | some .unreachable =>
        if m.data.items = [] then some "Can’t reach Proton Pass. Press F5 to retry."
        else some "Can’t reach Proton Pass — showing saved items. Press F5 to retry."
    | some .other | none => some "Data may be out of date. Press F5 to refresh."

/-- The caption lines a pane shows under its header. -/
def notices (m : Model) : List String :=
  m.cliWarning.toList ++ m.staleNotice.toList ++ (m.view.notice.map (·.text)).toList

/-- What the session says instead of the item list, if it makes that meaningless. -/
def panelText (m : Model) : Option (String × String × String) :=
  match m.session with
  | .signedOut =>
      some ("system-lock-screen-symbolic", "Not signed in",
        "Sign in to Proton Pass to search your items.")
  | .loggingIn =>
      some ("view-refresh-symbolic", "Waiting for browser sign-in…",
        "Finish signing in in your browser.")
  | .locked =>
      some ("system-lock-screen-symbolic", "Session locked",
        "Run `pass-cli session unlock` in a terminal, then try again.")
  | .cliMissing =>
      some ("dialog-warning-symbolic", "pass-cli is not installed",
        "COSMIC Pass needs the Proton Pass command-line tool.")
  | .error message => some ("dialog-warning-symbolic", "Something went wrong", message)
  | .checking =>
      if m.data.items = [] then some ("view-refresh-symbolic", "Checking Proton Pass…", "") else none
  | .unknown | .signedIn _ => none

def offersRetry (m : Model) : Bool :=
  match m.session with
  | .locked | .cliMissing | .error _ => true
  | _ => false

variable [TextSupport]

/-- The panel has no focus ring (keyboard navigation is off), so each button names its chord. -/
def panelButtons (m : Model) : List PanelButton :=
  (m.loginUrl.map fun url => ({ label := url, message := .openUrl url } : PanelButton)).toList ++
  (if m.session = .cliMissing then [{ label := passCliUrl, message := .openUrl passCliUrl }] else []) ++
  (if m.canStartLogin then
    [{ label := "Sign in (" ++ (m.prefs.chord .signIn).toText ++ ")", message := .core .startLogin }]
  else []) ++
  (if m.offersRetry then
    [{ label := "Try again (" ++ (m.prefs.chord .retry).toText ++ ")", message := .core .startup }]
  else [])

/-- A full panel for session states that make the item list meaningless, if any. -/
def panel (m : Model) : Option Panel :=
  m.panelText.map fun (icon, title, detail) => { icon, title, detail, buttons := m.panelButtons }

/-- The panel on screen: only the result list is worth replacing. -/
def shownPanel (m : Model) : Option Panel :=
  match pane m.view.mode with
  | .list => m.panel
  | .actions _ | .preferences => none

end Model

end CosmicPass
