import CosmicPass.Core.Update
import CosmicPass.Library.TransitionSystem

/-!
# The reducer on its own

The reducer fed any message at any time, whether or not an effect asked for it. What holds of every
run of it holds whatever runs beside it.
-/

namespace CosmicPass

namespace Model

section Runs

variable [TextSupport]

def system : TransitionSystem Model (Msg × Int) :=
  { init := fun m => ∃ prefs, m = new prefs
    step := fun m e => some (m.update e.1 e.2).1 }

/-- The reducer and the time of its latest message. -/
abbrev clocked : TransitionSystem (Model × Int) (Msg × Int) := system.timed Prod.snd

/-- The state a list of messages leads to, and all the effects asked for on the way. -/
def handle (m : Model) : List (Msg × Int) → Model × List Effect
  | [] => (m, [])
  | (msg, now) :: rest =>
      let (m, effects) := m.update msg now
      let (m, later) := m.handle rest
      (m, effects ++ later)

variable {guard : Model → Msg × Int → Prop}

theorem invariant_of_update {Inv : Model → Prop} (hnew : ∀ prefs, Inv (new prefs))
    (hupdate : ∀ m msg now, system.Reach guard m → guard m (msg, now) → Inv m →
      Inv (m.update msg now).1) {m : Model} (h : system.Reach guard m) : Inv m := by
  apply h.invariant
  · rintro _ ⟨prefs, rfl⟩
    exact hnew prefs
  · intro m e m' hreach hguard hstep hinv
    obtain rfl := Option.some.inj hstep
    exact hupdate m e.1 e.2 hreach hguard hinv

end Runs

end Model

end CosmicPass
