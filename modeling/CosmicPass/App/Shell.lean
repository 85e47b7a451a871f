import CosmicPass.App.Keys
import CosmicPass.App.Surface
import CosmicPass.Library.Json
import CosmicPass.Runtime

/-!
# The application shell

`CosmicPass` of `src/app/mod.rs`: the window's messages and D-Bus requests on their way to the
reducer, and the effects the reducer asks for on their way out. Showing and hiding happen on the
spot; every other effect joins those in flight. One clock reading stands for all that are taken
while one message is handled. Logging is left out, but for how long opening took.
-/

namespace CosmicPass

/-- Actions sent to a running instance over D-Bus. -/
inductive RemoteAction where
  | «show»
  | hide
  | refresh
  /-- Start without showing the window; a no-op for a running instance. -/
  | background
deriving DecidableEq

namespace RemoteAction

def ofName : String → Option RemoteAction
  | "show" => some «show»
  | "hide" => some hide
  | "refresh" => some refresh
  | "background" => some background
  | _ => none

def decode : Decoder RemoteAction
  | .string name => ofName name
  | .object [(name, .null)] => ofName name
  | _ => none

end RemoteAction

inductive LayerEvent where
  | focused
  | unfocused
  | done
deriving DecidableEq

inductive Message where
  | core (msg : Msg)
  | key (press : KeyPress)
  | layer (event : LayerEvent) (id : WindowId)
  | submit
  | rowPressed (row : Nat)
  | openUrl (url : String)
  | nothing
deriving DecidableEq

/-- What a D-Bus activation carries; the text of an action is the document it is. -/
inductive Details where
  | activate
  | activateAction (action : Option Json)
  | «open»

structure Clock where
  /-- Of the monotone clock, in nanoseconds. -/
  instant : Nat
  /-- Seconds since 1970. -/
  now : Int
deriving DecidableEq

/-- 400 ms. -/
def doubleClick : Nat := 400000000

structure App where
  /-- The reducer's state and the effects in flight. -/
  world : World
  surface : Surface
  /-- When the show request being handled arrived. -/
  showRequestedAt : Option Nat := none
  lastPress : Option (Nat × Nat) := none
deriving DecidableEq

namespace App

/-- An effect that is carried out joins those in flight. -/
def spawn (s : App) (asked : Model) (effect : Effect) : App :=
  { s with world := { s.world with
      flights := s.world.flights ++ [{ effect, asked, account := s.world.account }] } }

def runEffect (s : App) (asked : Model) (c : Clock) : Effect → App × List AppTask
  | .showWindow =>
      if s.surface.recentlyHidden c.instant then
        -- The shortcut press itself caused the focus loss that hid the window.
        let view := { s.world.model.view with visible := false }
        ({ s with world := { s.world with model := { s.world.model with view } } }, [])
      else
        let requested := s.showRequestedAt.getD c.instant
        let (surface, tasks) := (s.surface.markShowRequested requested).show
        ({ s.spawn asked .showWindow with surface }, tasks)
  | .hideWindow =>
      let (surface, tasks) := s.surface.hide c.instant
      ({ s.spawn asked .hideWindow with surface }, tasks)
  | effect => (s.spawn asked effect, [])

def runEffects (s : App) (asked : Model) (c : Clock) : List Effect → App × List AppTask
  | [] => (s, [])
  | effect :: rest =>
      let (s, tasks) := s.runEffect asked c effect
      let (s, later) := s.runEffects asked c rest
      (s, tasks ++ later)

section Shell

variable [TextSupport]

def dispatch (s : App) (msg : Msg) (c : Clock) : App × List AppTask :=
  let showRequestedAt :=
    if msg = .show ∨ msg = .toggle then some c.instant else s.showRequestedAt
  let (model, effects) := s.world.model.update msg c.now
  let world := { s.world with model }
  let (s, tasks) := { s with world, showRequestedAt }.runEffects s.world.model c effects
  -- A request that opened nothing is not carried forward.
  ({ s with showRequestedAt := none }, tasks)

def scrollToSelection (s : App) : List AppTask :=
  let len := s.world.model.view.results.length
  if len < 2 then [] else [.snapTo s.world.model.view.selected (len - 1)]

def scrolls : Msg → Bool
  | .selectNext | .selectPrev | .pageDown | .pageUp => true
  | _ => false

/-- The message of a key press; an empty query is where the caret is known to be at its end. -/
def keyMsg (s : App) (press : KeyPress) : Option Msg :=
  let view := s.world.model.view
  mapKey press view.mode s.world.model.prefs { caretAtEnd := view.query.isEmpty }

def onKey (s : App) (press : KeyPress) (c : Clock) : App × List AppTask :=
  match s.keyMsg press with
  | none => (s, [])
  | some msg =>
      let (s, tasks) := s.dispatch msg c
      if scrolls msg then (s, tasks ++ s.scrollToSelection) else (s, tasks)

/-- The press is the second one of two on this row. -/
def isDouble (s : App) (row : Nat) (c : Clock) : Bool :=
  s.lastPress.any fun last => last.1 = row ∧ c.instant - last.2 < doubleClick

def rowPressed (s : App) (row : Nat) (c : Clock) : App × List AppTask :=
  let double := s.isDouble row c
  let (s, select) := { s with lastPress := some (row, c.instant) }.dispatch (.select row) c
  if double then
    let (s, copy) := { s with lastPress := none }.dispatch .copyPrimary c
    (s, select ++ copy)
  else (s, select)

def update (s : App) (message : Message) (c : Clock) : App × List AppTask :=
  match message with
  | .core msg => s.dispatch msg c
  | .key press => s.onKey press c
  | .layer .unfocused id => if id = s.surface.id then s.dispatch .hide c else (s, [])
  | .layer .focused id =>
      if id = s.surface.id then
        let (latency, surface) := s.surface.takeOpenLatency c.instant
        ({ s with surface }, (latency.map AppTask.logOpenLatency).toList ++ [.focusSearch])
      else (s, [])
  | .layer .done _ => (s, [])
  -- Enter is handled through the key map so it respects configured shortcuts.
  | .submit | .nothing => (s, [])
  | .openUrl url =>
      let (s, tasks) := s.dispatch .hide c
      (s, .openUrl url :: tasks)
  | .rowPressed row => s.rowPressed row c

def dbusActivation (s : App) (details : Details) (c : Clock) : App × List AppTask :=
  match details with
  | .activate => if s.surface.recentlyHidden c.instant then (s, []) else s.dispatch .toggle c
  | .activateAction action =>
      match action.bind RemoteAction.decode with
      | some .show => s.dispatch .show c
      | some .hide => s.dispatch .hide c
      | some .refresh => s.dispatch .refreshRequested c
      | some .background | none => (s, [])
  | .open => (s, [])

/-- The shell before its first message; the preferences are the stored ones, validated. -/
def new (stored : Preferences) (account : Option AccountId) (id : WindowId) : App :=
  { world := .start stored.validated account, surface := { id } }

def init (stored : Preferences) (account : Option AccountId) (id : WindowId)
    (action : Option RemoteAction) (c : Clock) : App × List AppTask :=
  let (s, tasks) := (new stored account id).dispatch .startup c
  if action = some .background ∨ action = some .hide then (s, tasks)
  else
    let (s, later) := s.dispatch .show c
    (s, tasks ++ later)

/-- A clock that ticks every second is subscribed to. -/
def ticking (s : App) : Bool := s.world.model.view.visible ∧ s.world.model.revealedTotp.isSome

end Shell

end App

/-!
### What happens to the shell

The messages of the window, of the compositor, of D-Bus, of the clock, of the preferences watcher
and of the sign-in flow, and the answers to the effects in flight. A line of output comes from a
flow that has not finished.
-/

/-- Sent by a widget of the panes: the search field, the rows, the buttons. -/
def Msg.ofWidget : Msg → Bool
  | .queryChanged _ | .activateAction (some _) | .back | .adjustClipboardClear _ | .startRebind _
  | .resetShortcuts | .startLogin | .startup => true
  | _ => false

/-- Sent by the popup: its widgets and its keys. -/
def Message.ofPopup : Message → Bool
  | .core msg => msg.ofWidget
  | .key _ | .submit | .rowPressed _ | .openUrl _ => true
  | .layer _ _ | .nothing => false

inductive AppEvent where
  | popup (message : Message)
  | layer (event : LayerEvent) (id : WindowId)
  | dbus (details : Details)
  | tick
  | prefsChanged (prefs : Preferences)
  | loginLine (id : Nat) (line : String)
  | resolve (id : Nat) (reply : Reply)
  | deliver (id : Nat)
  | switchAccount (account : Option AccountId)

namespace App

section Shell

variable [TextSupport]

/-- The message of an effect that has resolved is handled, once. -/
def deliver (s : App) (id : Nat) (c : Clock) : Option (App × List AppTask) :=
  match s.world.resolved.find? fun done => done.1 = id with
  | none => none
  | some (_, msg) =>
      if s.world.answered.any fun done => done.1 = id then none
      else
        let (s, tasks) := s.dispatch msg c
        some ({ s with world := { s.world with answered := (id, msg) :: s.world.answered } }, tasks)

def logsIn (w : World) (id : Nat) : Bool :=
  (w.flights[id]?.any fun flight => flight.effect = .startLogin) ∧
    ∀ done ∈ w.answered, done.1 ≠ id

def step (s : App) (c : Clock) : AppEvent → Option (App × List AppTask)
  | .popup message => if message.ofPopup then some (s.update message c) else none
  | .layer event id => some (s.update (.layer event id) c)
  | .dbus details => some (s.dbusActivation details c)
  | .tick => if s.ticking then some (s.dispatch (.tick c.now) c) else none
  | .prefsChanged prefs => some (s.dispatch (.prefsLoaded prefs) c)
  | .loginLine id line => if logsIn s.world id then some (s.dispatch (.loginLine line) c) else none
  | .resolve id reply =>
      (s.world.step (.resolve id reply)).map fun world => ({ s with world }, [])
  | .deliver id => s.deliver id c
  | .switchAccount account => some ({ s with world := { s.world with account } }, [])

end Shell

end App

/-- The shell, the time, and the tasks so far with the time of each, the newest last. -/
structure Shell where
  app : App
  instant : Nat
  log : List (Nat × AppTask)
deriving DecidableEq

namespace Shell

variable [TextSupport]

def started (out : App × List AppTask) (instant : Nat) : Shell :=
  { app := out.1, instant, log := out.2.map fun task => (instant, task) }

def step (s : Shell) (e : AppEvent × Clock) : Option Shell :=
  if s.instant ≤ e.2.instant then
    (s.app.step e.2 e.1).map fun (app, tasks) =>
      { app
        instant := e.2.instant
        log := s.log ++ tasks.map fun task => (e.2.instant, task) }
  else none

def system : TransitionSystem Shell (AppEvent × Clock) :=
  { init := fun s => ∃ stored account id action, ∃ c : Clock,
      s = started (App.init stored account id action c) c.instant
    step := step }

end Shell

end CosmicPass
