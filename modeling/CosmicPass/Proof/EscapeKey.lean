import CosmicPass.Proof.ShellRuns

/-!
# The way out

Escape cancels the copy that is awaited, ends a capture, leaves the field list or the editor, or
hides the popup. Each press does one of these, and there are at most three before the popup goes.
-/

namespace CosmicPass

/-- Escape on its own. -/
def KeyPress.escape : KeyPress := { key := "Escape", modifiers := [] }

theorem mapKey_escape (mode : Mode) (prefs : Preferences) (ctx : KeyContext) :
    mapKey .escape mode prefs ctx = some .escape := by
  unfold mapKey
  cases mode with
  | preferences rebinding => exact if_pos (by decide)
  | list | actions =>
      dsimp only
      rw [if_neg (by decide), if_neg (by decide), if_neg (by decide), if_neg (by decide),
        if_pos (by decide)]

/-- The presses until the list of items is left. -/
def Mode.escapes : Mode → Nat
  | .list => 1
  | .actions _ _ | .preferences none => 2
  | .preferences (some _) => 3

def Model.escapes (m : Model) : Nat := m.view.pending.isSome.toNat + m.view.mode.escapes

namespace Model

theorem escapes_le (m : Model) : m.escapes ≤ 4 := by
  have hpending := Bool.toNat_le m.view.pending.isSome
  unfold escapes
  cases m.view.mode with
  | list | actions => simp only [Mode.escapes]; omega
  | preferences rebinding => cases rebinding <;> simp only [Mode.escapes] <;> omega

theorem escapes_of_resting {m : Model} (h : m.view.Resting) : m.escapes = 1 := by
  simp [escapes, h.pending, h.mode, Mode.escapes]

variable [TextSupport]

/-- **One press.** The window hides, or there is one press less to go. -/
theorem escape_cases (m : Model) :
    m.escape = m.hide ∨ m.escape.1.escapes + 1 = m.escapes := by
  unfold escape escapes
  cases hpending : m.view.pending with
  | some pending => exact Or.inr (by simp [cancelPending]; omega)
  | none =>
      cases hmode : m.view.mode with
      | list => exact Or.inl (by simp)
      | actions key selected =>
          exact Or.inr
            (by simp [leaveMode, clearRevealed, dropReveal, cancelReveal, hpending, Mode.escapes])
      | preferences rebinding =>
          cases rebinding with
          | none =>
              exact Or.inr
                (by simp [leaveMode, clearRevealed, dropReveal, cancelReveal, hpending, Mode.escapes])
          | some action => exact Or.inr (by simp [hpending, Mode.escapes])

end Model

namespace App

variable [TextSupport]

theorem update_escape (s : App) (c : Clock) :
    (s.update (.key .escape) c).1 = (s.dispatch .escape c).1 := by
  simp [update, onKey, keyMsg, mapKey_escape, scrolls]

theorem escaped_of_le {s : App} {p : Popup} (hshows : p.Shows s) (clocks : List Clock)
    (hclocks : s.world.model.escapes ≤ clocks.length) :
    ((s.pressAll .escape clocks).surface.visible = false ∧
      (s.pressAll .escape clocks).world.model.view.Resting) := by
  induction clocks generalizing s p with
  | nil =>
      unfold Model.escapes at hclocks
      cases hmode : s.world.model.view.mode with
      | preferences rebinding => cases rebinding <;> simp [hmode, Mode.escapes] at hclocks
      | _ => simp [hmode, Mode.escapes] at hclocks
  | cons c rest ih =>
      obtain ⟨-, p', -, hafter⟩ := dispatch_follows hshows .escape c
      have hworld : (s.dispatch .escape c).1.world = s.world.feed .escape c.now :=
        dispatch_world s c (by simp)
      have hpress : s.pressAll .escape (c :: rest) =
          (s.dispatch .escape c).1.pressAll .escape rest := by
        rw [pressAll, List.foldl_cons, update_escape]
        rfl
      rw [hpress]
      rcases s.world.model.escape_cases with hhide | hless
      · have hmodel : (s.dispatch .escape c).1.world.model = s.world.model.hide.1 := by
          rw [hworld, ← hhide]
          rfl
        have hresting : (s.dispatch .escape c).1.world.model.view.Resting := by
          rw [hmodel]
          exact s.world.model.hide_resting
        cases rest with
        | nil =>
            refine ⟨?_, hresting⟩
            have hvisible := hafter.model
            rw [hmodel] at hvisible
            rw [pressAll, List.foldl_nil, hafter.surface, ← hvisible]
            rfl
        | cons next rest => exact ih hafter (by simp [Model.escapes_of_resting hresting])
      · refine ih hafter ?_
        have hmodel : (s.dispatch .escape c).1.world.model = s.world.model.escape.1 := by
          rw [hworld]
          rfl
        rw [hmodel]
        rw [List.length_cons] at hclocks
        omega

end App

namespace Shell

section Runs

variable [TextSupport] {s : Shell} {guard : Shell → AppEvent × Clock → Prop}

/-- **Four presses of Escape leave the popup from anywhere.** After them it is off the screen, with
nothing typed, shown or awaited, whatever the reducer was in the middle of. -/
theorem escape_leaves (h : system.Reach guard s) (clocks : List Clock) (hfour : 4 ≤ clocks.length) :
    (s.app.pressAll .escape clocks).surface.visible = false ∧
      (s.app.pressAll .escape clocks).world.model.view.Resting := by
  obtain ⟨p, -, hshows⟩ := readLog_of_reach h
  exact App.escaped_of_le hshows clocks ((s.app.world.model.escapes_le).trans hfour)

end Runs

section Examples

attribute [local instance] World.plainText

/-- In the editor, with a shortcut being captured. -/
theorem escape_leaves_capture : ∃ s : Shell,
    s.app.world.model.view.mode = .preferences (some .refresh) ∧
    (s.app.pressAll .escape [⟨3, 0⟩, ⟨4, 0⟩, ⟨5, 0⟩, ⟨6, 0⟩]).surface.visible = false := by
  have hrun : ∃ s : Shell, system.Reach TransitionSystem.anyStep s ∧
      s.app.world.model.view.mode = .preferences (some .refresh) := by
    refine TransitionSystem.exists_reach_of_run shownAtStart
      [(.popup (.key { key := ",", modifiers := [.ctrl] }), ⟨1, 0⟩),
        (.popup (.core (.startRebind .refresh)), ⟨2, 0⟩)] ⟨_, _, _, _, _, rfl⟩ ?_
    decide
  obtain ⟨s, hreach, hmode⟩ := hrun
  exact ⟨s, hmode, (escape_leaves hreach _ (by decide)).1⟩

end Examples

end Shell

end CosmicPass
