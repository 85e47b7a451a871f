import CosmicPass.Core.Update
import CosmicPass.Library.TransitionSystem

/-!
# The reducer and the stored preferences

Each `SavePreferences` becomes a future of its own, which writes the whole preferences when it gets to
it (`execute` of `src/runtime.rs`). The watcher `subscription` of `src/app/mod.rs` sends what was
written back as `PrefsLoaded`, in the order of the writes. Nothing else writes the file here.
-/

namespace CosmicPass

/-- An edit of the preferences the user makes. -/
inductive PrefsEdit where
  | adjust (delta : Int)
  | rebind (action : Action) (chord : KeyChord)
  | reset
deriving DecidableEq

namespace PrefsEdit

def clampSecs (secs : Int) : Nat :=
  (max (clipboardClearRange.1 : Int) (min clipboardClearRange.2 secs)).toNat

section Apply

variable [TextSupport]

/-- What the edit makes of valid preferences. A chord that another action has is refused. -/
def apply (prefs : Preferences) : PrefsEdit → Preferences
  | adjust delta =>
      { prefs with clipboardClearSecs := clampSecs (prefs.clipboardClearSecs + delta) }
  | rebind action chord =>
      match prefs.conflict action chord with
      | some _ => prefs
      | none => { prefs with shortcuts := prefs.shortcuts.insert action chord }.validated
  | reset => { prefs with shortcuts := Preferences.default.shortcuts }.validated

def applyAll (prefs : Preferences) (edits : List PrefsEdit) : Preferences := edits.foldl apply prefs

end Apply

/-- How far the edit moves the clipboard timeout, if it is about it. -/
def delta : PrefsEdit → Option Int
  | adjust delta => some delta
  | _ => none

/-- The edit a message is, for a state that takes it for one. -/
def ofMsg (m : Model) : Msg → Option PrefsEdit
  | .adjustClipboardClear delta => some (adjust delta)
  | .chordCaptured chord =>
      match m.view.mode with
      | .preferences (some action) => some (rebind action chord)
      | _ => none
  | .resetShortcuts => some reset
  | _ => none

end PrefsEdit

def Effect.saved : Effect → Option Preferences
  | .savePreferences prefs => some prefs
  | _ => none

structure Watched where
  model : Model
  stored : Preferences
  /-- Saves asked for and not written yet. -/
  saving : List Preferences
  /-- Written preferences the watcher has not sent yet, oldest first. -/
  echoes : List Preferences
deriving DecidableEq

namespace Watched

inductive Event where
  | send (msg : Msg) (now : Int)
  | write (i : Nat)
  | echo (now : Int)
deriving DecidableEq

section Steps

variable [TextSupport]

/-- What is stored is read, and validated, before the first message. -/
def start (stored : Preferences) : Watched :=
  { model := .new stored.validated, stored, saving := [], echoes := [] }

def feed (w : Watched) (msg : Msg) (now : Int) : Watched :=
  let (model, effects) := w.model.update msg now
  { w with model, saving := w.saving ++ effects.filterMap Effect.saved }

def step (w : Watched) : Event → Option Watched
  | .send msg now =>
      match msg with
      | .prefsLoaded _ => none
      | msg => some (w.feed msg now)
  | .write i =>
      match w.saving[i]? with
      | none => none
      | some prefs =>
          some { w with
            stored := prefs
            saving := w.saving.eraseIdx i
            echoes := w.echoes ++ [prefs] }
  | .echo now =>
      match w.echoes with
      | [] => none
      | prefs :: rest => some { w.feed (.prefsLoaded prefs) now with echoes := rest }

def system (stored : Preferences) : TransitionSystem Watched Event :=
  { init := fun w => w = start stored
    step := step }

def edit (w : Watched) : Event → Option PrefsEdit
  | .send msg _ => PrefsEdit.ofMsg w.model msg
  | _ => none

/-- Runs that remember the user's edits, in order. -/
def logged (stored : Preferences) : TransitionSystem (Watched × List PrefsEdit) Event :=
  (system stored).annotated (fun edits => edits = [])
    fun w edits e => some (edits ++ (w.edit e).toList)

end Steps

end Watched

end CosmicPass
