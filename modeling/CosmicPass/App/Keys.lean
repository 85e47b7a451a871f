import CosmicPass.Core.State

/-!
# Key presses

Maps key presses to messages with the configured shortcuts, as `src/app/keys.rs` does. The fixed keys
of a mode are looked at before the configured ones.
-/

namespace CosmicPass

/-- `key` is a named key (`ArrowDown`, `Enter`, `F5`) or the typed character. -/
structure KeyPress where
  key : String
  modifiers : List Modifier
deriving DecidableEq

structure KeyContext where
  /-- The search field caret is at the end of the query. -/
  caretAtEnd : Bool := false
deriving DecidableEq

/-- `sort()`, which `KeyPress::is` does without the `dedup()`. -/
def Modifier.sorted (modifiers : List Modifier) : List Modifier :=
  modifiers.insertionSort fun left right => left.rank ≤ right.rank

namespace KeyPress

def is (press : KeyPress) (modifiers : List Modifier) (key : String) : Bool :=
  Modifier.sorted press.modifiers = Modifier.sorted modifiers ∧ eqIgnoreAsciiCase press.key key

end KeyPress

/-- Keys that only modify other keys; never captured as a chord on their own. -/
def modifierKeys : List String :=
  ["Control", "Shift", "Alt", "Super", "Meta", "Hyper", "AltGraph", "CapsLock"]

/-- A bare key press, ignoring Shift: on most layouts `+` is only reachable with it. -/
def unshifted (press : KeyPress) (keys : List String) : Bool :=
  keys.any fun key => press.is [] key || press.is [.shift] key

/-- The preferences editor has no focus ring to walk, so every control it offers has its own chord. -/
def preferencesKey (press : KeyPress) (rebinding : Option Action) (prefs : Preferences) : Option Msg :=
  if press.is [] "Escape" then some .escape
  else if rebinding.isSome then
    -- Anything but a lone modifier becomes the new binding.
    if modifierKeys.any fun key => eqIgnoreAsciiCase press.key key then none
    else some (.chordCaptured (.new press.modifiers press.key))
  else if press.is [.ctrl, .shift] "Delete" then some .resetShortcuts
  else if unshifted press ["ArrowUp", "ArrowRight", "+", "="] then
    some (.adjustClipboardClear clipboardClearStep)
  else if unshifted press ["ArrowDown", "ArrowLeft", "-", "_"] then
    some (.adjustClipboardClear (-clipboardClearStep))
  -- Each row shows the chord it holds, so pressing that chord is how the row is reached.
  else (prefs.actionFor press.modifiers press.key).map .startRebind

def mapKey (press : KeyPress) (mode : Mode) (prefs : Preferences) (ctx : KeyContext) : Option Msg :=
  match mode with
  | .preferences rebinding => preferencesKey press rebinding prefs
  | _ =>
      let inActions := match mode with
        | .actions _ _ => true
        | _ => false
      if press.is [] "ArrowDown" || press.is [.ctrl] "n" || press.is [.ctrl] "j" then some .selectNext
      else if press.is [] "ArrowUp" || press.is [.ctrl] "p" || press.is [.ctrl] "k" then
        some .selectPrev
      else if press.is [] "PageDown" then some .pageDown
      else if press.is [] "PageUp" then some .pageUp
      else if press.is [] "Escape" then some .escape
      else if inActions && (press.is [] "ArrowLeft" || press.is [.shift] "Tab") then some .back
      else if mode = .list ∧ ctx.caretAtEnd ∧ press.is [] "ArrowRight" then some .openActions
      else if mode = .list ∧ prefs.actionFor press.modifiers press.key = some .preferences then
        some .openPreferences
      else
        match prefs.actionFor press.modifiers press.key with
        | none => none
        | some .refresh => some .refreshRequested
        | some .copyPrimary => if inActions then some (.activateAction none) else some .copyPrimary
        | some .copyUsername => some .copyUsername
        | some .copyTotp => some .copyTotp
        | some .copyUrl => some .copyUrl
        | some .openActions => if mode = .list then some .openActions else none
        | some .reveal => if inActions then some .toggleReveal else none
        | some .signIn => some .startLogin
        | some .retry => some .startup
        | some .preferences => none

end CosmicPass
