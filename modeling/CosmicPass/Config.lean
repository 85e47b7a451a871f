import CosmicPass.Library.OrderedMap
import CosmicPass.Model
import CosmicPass.TextSupport
import Mathlib.Data.List.Destutter
import Mathlib.Data.List.Sort
import Mathlib.Data.String.Basic
import Mathlib.Order.Lattice

/-!
# Preferences

The actions, the chords bound to them and the stored preferences, as `src/config.rs` declares them.
-/

namespace CosmicPass

inductive Action where
  | copyPrimary
  | copyUsername
  | copyTotp
  | copyUrl
  | openActions
  | reveal
  | refresh
  | preferences
  | signIn
  | retry
deriving DecidableEq

inductive Modifier where
  | ctrl
  | shift
  | alt
  | super
deriving DecidableEq

namespace Modifier

def rank : Modifier → Nat
  | ctrl => 0
  | shift => 1
  | alt => 2
  | super => 3

def debugName : Modifier → String
  | ctrl => "Ctrl"
  | shift => "Shift"
  | alt => "Alt"
  | super => "Super"

/-- `sort()` followed by `dedup()`. -/
def sortDedup (modifiers : List Modifier) : List Modifier :=
  (modifiers.insertionSort fun left right => left.rank ≤ right.rank).destutter (· ≠ ·)

end Modifier

structure KeyChord where
  modifiers : List Modifier
  key : String
deriving DecidableEq

namespace KeyChord

def new (modifiers : List Modifier) (key : String) : KeyChord :=
  { modifiers := Modifier.sortDedup modifiers, key }

def accepts (chord : KeyChord) (modifiers : List Modifier) (key : String) : Bool :=
  Modifier.sortDedup chord.modifiers = Modifier.sortDedup modifiers ∧
    eqIgnoreAsciiCase chord.key key

def normalized [TextSupport] (chord : KeyChord) : KeyChord :=
  let chord := new chord.modifiers chord.key
  { chord with key := TextSupport.toLowercase chord.key }

def toText [TextSupport] (chord : KeyChord) : String :=
  String.join (chord.modifiers.map fun m => m.debugName ++ "+") ++
    if chord.key.length = 1 then TextSupport.toUppercase chord.key else chord.key

end KeyChord

namespace Action

def all : List Action :=
  [copyPrimary, copyUsername, copyTotp, copyUrl, openActions, reveal, refresh, preferences, signIn,
    retry]

def rank : Action → Nat
  | copyPrimary => 0
  | copyUsername => 1
  | copyTotp => 2
  | copyUrl => 3
  | openActions => 4
  | reveal => 5
  | refresh => 6
  | preferences => 7
  | signIn => 8
  | retry => 9

theorem rank_injective : Function.Injective rank := by
  intro left right h
  cases left <;> cases right <;> first | rfl | simp [rank] at h

instance : LinearOrder Action := LinearOrder.lift' rank rank_injective

def label : Action → String
  | copyPrimary => "Copy primary field"
  | copyUsername => "Copy username"
  | copyTotp => "Copy one-time code"
  | copyUrl => "Copy website"
  | openActions => "Show all fields"
  | reveal => "Reveal secrets"
  | refresh => "Refresh"
  | preferences => "Preferences"
  | signIn => "Sign in"
  | retry => "Try again"

def defaultChord : Action → KeyChord
  | copyPrimary => .new [] "Enter"
  | copyUsername => .new [.ctrl] "u"
  | copyTotp => .new [.ctrl] "o"
  | copyUrl => .new [.ctrl] "l"
  | openActions => .new [] "Tab"
  | reveal => .new [.ctrl] "r"
  | refresh => .new [] "F5"
  | preferences => .new [.ctrl] ","
  | signIn => .new [.ctrl, .shift] "s"
  | retry => .new [.ctrl, .shift] "r"

end Action

/-- `i64` and `u32` bounds the reducer saturates at. -/
def i64Min : Int := -9223372036854775808

def i64Max : Int := 9223372036854775807

def u32Max : Nat := 2 ^ 32 - 1

def saturateI64 (n : Int) : Int := max i64Min (min i64Max n)

def clipboardClearRange : Nat × Nat := (10, 600)

def clipboardClearStep : Int := 10

def refreshStaleRange : Nat × Nat := (30, 86400)

def maxResultsRange : Nat × Nat := (5, 200)

def clamp (value : Nat) (range : Nat × Nat) : Nat :=
  if value < range.1 then range.1 else if value > range.2 then range.2 else value

abbrev Shortcuts := OrderedMap Action KeyChord

@[ext]
structure Preferences where
  clipboardClearSecs : Nat
  refreshStaleSecs : Nat
  maxResults : Nat
  shortcuts : Shortcuts
deriving DecidableEq

namespace Preferences

def default : Preferences :=
  { clipboardClearSecs := 90
    refreshStaleSecs := 300
    maxResults := 12
    shortcuts := OrderedMap.ofList (Action.all.map fun a => (a, a.defaultChord)) }

section Validation

variable [TextSupport]

/-- One round of the loop in `validated`: the chords used so far, and the map built so far. -/
def validateShortcut (stored : Shortcuts) (acc : List KeyChord × Shortcuts) (action : Action) :
    List KeyChord × Shortcuts :=
  let chord := ((stored.get? action).filter fun c =>
    c.key ≠ "" ∧ c.normalized ∉ acc.1).getD action.defaultChord
  (acc.1 ++ [chord.normalized], acc.2.insert action chord)

/-- Clamps numbers into range, fills missing shortcuts, and resets any shortcut whose chord is
already used by an earlier action to its default. -/
def validated (prefs : Preferences) : Preferences :=
  { clipboardClearSecs := clamp prefs.clipboardClearSecs clipboardClearRange
    refreshStaleSecs := clamp prefs.refreshStaleSecs refreshStaleRange
    maxResults := clamp prefs.maxResults maxResultsRange
    shortcuts := (Action.all.foldl (validateShortcut prefs.shortcuts) ([], OrderedMap.empty)).2 }

end Validation

def chord (prefs : Preferences) (action : Action) : KeyChord :=
  (prefs.shortcuts.get? action).getD action.defaultChord

def actionFor (prefs : Preferences) (modifiers : List Modifier) (key : String) : Option Action :=
  Action.all.find? fun a => (prefs.chord a).accepts modifiers key

def conflict [TextSupport] (prefs : Preferences) (action : Action) (chord : KeyChord) :
    Option Action :=
  Action.all.find? fun a => a ≠ action ∧ (prefs.chord a).normalized = chord.normalized

end Preferences

end CosmicPass
