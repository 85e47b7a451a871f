import CosmicPass.View.Actions
import CosmicPass.View.ResultList

/-!
# The field list and its captions

`view` of `src/app/view/actions.rs`: the header of the item, its rows with the chords that act on them,
and the footer. Size, colour and layout are left out.
-/

namespace CosmicPass

/-- What kind of item this is, for the line under its title. -/
def kindLabel : ItemKind → String
  | .login => "Login"
  | .note => "Note"
  | .creditCard => "Credit card"
  | .identity => "Identity"
  | .alias => "Alias"
  | .sshKey => "SSH key"
  | .wifi => "Wi-Fi"
  | .custom => "Custom"
  | .unknown name => name

/-- The chord caption for a row: its own chord, if any, plus the activation chord when the row is
highlighted. -/
def shortcutCaption (own activation : Option String) : String :=
  match activation, own with
  | some a, some o => a ++ " · " ++ o
  | some c, none | none, some c => c
  | none, none => ""

def emptyNotice : String := "This item has no copyable fields"

/-- The footer line naming what the chords do to the highlighted row (FR-107). -/
def revealCaption (state : Option Reveal) (reveal copy : String) : String :=
  match state with
  | some .masked => reveal ++ " to reveal · " ++ copy ++ " to copy"
  | some .shown => reveal ++ " to hide · " ++ copy ++ " to copy"
  | some .plain | none => copy ++ " to copy"

structure FieldRow where
  label : String
  hint : String
  fetching : Bool
  caption : String
  selected : Bool
  message : Msg
deriving DecidableEq

structure FieldList where
  back : Msg
  icon : String
  title : String
  kind : String
  /-- A copy started from here is under way. -/
  pending : Bool
  vaultName : String
  notices : List String
  rows : List FieldRow
  footer : String
deriving DecidableEq

/-- The actions whose chords the caption of a row names. -/
def ActionEntry.ownAction (entry : ActionEntry) : Option Action :=
  entry.shortcut.filter fun a => a ≠ .copyPrimary

namespace Model

variable [TextSupport] (m : Model)

def fieldRow (selected : Nat) (now : Int) (entry : ActionEntry) (i : Nat) : FieldRow :=
  { label := entry.label
    hint := m.valueHint entry.source entry.fieldIndex now
    fetching := m.fetching entry.source entry.fieldIndex
    caption := shortcutCaption (entry.ownAction.map fun a => (m.prefs.chord a).toText)
      (if i = selected then some (m.prefs.chord .copyPrimary).toText else none)
    selected := i = selected
    message := .activateAction (some i) }

/-- `none` where the item no longer exists. -/
def fieldList (selected : Nat) (now : Int) : Option FieldList :=
  m.targetItem.map fun item =>
    let rows := m.actions.zipIdx.map fun (entry, i) => m.fieldRow selected now entry i
    let highlighted := m.actions[selected]?.map fun e => m.revealState e.source e.fieldIndex
    { back := .back
      icon := iconName item.kind
      title := item.displayTitle
      kind := kindLabel item.kind
      pending := m.view.pending.any fun p => p.key = item.key
      vaultName := item.vaultName
      notices := m.notices
      rows
      footer :=
        if rows = [] then emptyNotice
        else revealCaption highlighted (m.prefs.chord .reveal).toText
          (m.prefs.chord .copyPrimary).toText }

end Model

end CosmicPass
