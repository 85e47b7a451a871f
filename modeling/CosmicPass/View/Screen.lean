import CosmicPass.View.FieldList
import CosmicPass.View.ResultList

/-!
# What the popup shows

`popup` of `src/app/view/mod.rs`, with the editor of `src/app/view/preferences.rs`: the pane of the
mode, and the messages of what can be pressed in it. Size, colour and layout are left out.
-/

namespace CosmicPass

structure ShortcutRow where
  title : String
  button : PanelButton
deriving DecidableEq

structure Editor where
  back : Message
  less : Message
  timeout : String
  more : Message
  hint : String
  notice : Option String
  shortcuts : List ShortcutRow
  reset : PanelButton
deriving DecidableEq

def editorHint : String :=
  "Left/Right adjust the timeout · press a shortcut to rebind it · Ctrl+Shift+Delete resets"

inductive Screen where
  /-- `none` where the item no longer exists. -/
  | fields (pane : Option FieldList)
  | editor (pane : Editor)
  | panel (pane : Panel)
  | list (pane : ResultList)
deriving DecidableEq

/-- The messages of what can be pressed. -/
def Screen.controls : Screen → List Message
  | fields none => []
  | fields (some pane) => .core pane.back :: pane.rows.map fun row => .core row.message
  | editor pane =>
      [pane.back, pane.less, pane.more] ++ pane.shortcuts.map (·.button.message) ++
        [pane.reset.message]
  | panel pane => pane.buttons.map (·.message)
  | list pane => pane.rows.map (·.message)

namespace Model

variable [TextSupport] (m : Model)

def shortcutRow (rebinding : Option Action) (action : Action) : ShortcutRow :=
  { title := action.label
    button :=
      { label :=
          if rebinding = some action then "Press keys… (Esc to cancel)"
          else (m.prefs.chord action).toText
        message := .core (.startRebind action) } }

/-- Only the notice, not the shared caption pair: the stale line points at F5, which the editor
rebinds rather than obeys. -/
def editor : Editor :=
  let rebinding := match m.view.mode with
    | .preferences rebinding => rebinding
    | _ => none
  { back := .core .back
    less := .core (.adjustClipboardClear (-clipboardClearStep))
    timeout := toString m.prefs.clipboardClearSecs ++ " s"
    more := .core (.adjustClipboardClear clipboardClearStep)
    hint := editorHint
    notice := m.view.notice.map (·.text)
    shortcuts := Action.all.map (m.shortcutRow rebinding)
    reset := { label := "Reset shortcuts", message := .core .resetShortcuts } }

/-- The popup contents. -/
def popup (now : Int) : Screen :=
  match pane m.view.mode with
  | .actions selected => .fields (m.fieldList selected now)
  | .preferences => .editor m.editor
  | .list =>
      match m.panel with
      | some panel => .panel panel
      | none => .list m.resultList

end Model

end CosmicPass
