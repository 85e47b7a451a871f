import CosmicPass.Config
import CosmicPass.Library.Json

/-!
# Stored shortcuts

The map from action names to chords, which `src/config.rs` loads by hand. The format it is stored in is
left open: a chord is decoded from a value of it. JSON is one such format.
-/

namespace CosmicPass

/-- The name that the derived `Serialize` and `Deserialize` have for an action. -/
def Action.name : Action → String
  | copyPrimary => "copy_primary"
  | copyUsername => "copy_username"
  | copyTotp => "copy_totp"
  | copyUrl => "copy_url"
  | openActions => "open_actions"
  | reveal => "reveal"
  | refresh => "refresh"
  | preferences => "preferences"
  | signIn => "sign_in"
  | retry => "retry"

/-- `ActionNameVisitor`: the action that a name stands for, if this version has it. -/
def Action.ofName (name : String) : Option Action := Action.all.find? fun action => action.name = name

/-- The loop of `visit_map`: every value is read as a chord, also under a name that is dropped. -/
def visitMap {ω : Type} (chord : ω → Option KeyChord) (shortcuts : Shortcuts) :
    List (String × ω) → Option Shortcuts
  | [] => some shortcuts
  | (name, value) :: rest =>
      match chord value with
      | none => none
      | some chordRead =>
          match Action.ofName name with
          | some action => visitMap chord (shortcuts.insert action chordRead) rest
          | none => visitMap chord shortcuts rest

/-- `Shortcuts::deserialize` of a map with these entries. -/
def deserializeShortcuts {ω : Type} (chord : ω → Option KeyChord) (entries : List (String × ω)) :
    Option Shortcuts :=
  visitMap chord OrderedMap.empty entries

open Json

/-- A unit variant: its name, or an object with the name alone and null. -/
def Modifier.decode : Decoder Modifier := fun v =>
  let named := fun text => [ctrl, shift, alt, super].find? fun m => m.debugName = text
  match v with
  | .string text => named text
  | .object [(text, .null)] => named text
  | _ => none

def KeyChord.shape : Shape := { fields := ["modifiers", "key"] }

/-- A chord as `serde_json` reads it. -/
def KeyChord.decode : Decoder KeyChord := fun v => do
  let r ← asRecord shape v
  let modifiers ← required r "modifiers" (asList Modifier.decode)
  let key ← required r "key" asString
  some { modifiers, key }

end CosmicPass
