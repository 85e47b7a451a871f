import CosmicPass.Proof.Dispatch

/-!
# Row presses and the copies they start

A second press on a row soon after the first copies. The shell remembers at most one press, and
forgets it once it has been answered by a copy. Beside the history of all presses, in which each
says by itself whether it copied, that one is always the one that matters, whatever happened between
the presses.
-/

namespace CosmicPass

/-- A press on a row of the results, and whether it copied. -/
structure RowPress where
  row : Nat
  instant : Nat
  copied : Bool
deriving DecidableEq

namespace RowPress

/-- A press after these, the newest of them first: it copies if it is on the row of the press before
it, soon after it, and that one did not copy. -/
def after (presses : List RowPress) (row instant : Nat) : RowPress :=
  let copied := presses.head?.any fun first =>
    !first.copied ∧ first.row = row ∧ instant - first.instant < doubleClick
  { row, instant, copied }

/-- The press that another one could come second to. -/
def open? (presses : List RowPress) : Option (Nat × Nat) :=
  (presses.head?.filter fun press => !press.copied).map fun press => (press.row, press.instant)

theorem open?_after (presses : List RowPress) (row instant : Nat) :
    open? (after presses row instant :: presses) =
      if (after presses row instant).copied then none else some (row, instant) := by
  cases hcopied : (after presses row instant).copied <;> simp [open?, hcopied]
  simp [after]

end RowPress

namespace App

variable {s : App} {presses : List RowPress}

theorem isDouble_eq (hlast : s.lastPress = RowPress.open? presses) (row : Nat) (c : Clock) :
    s.isDouble row c = (RowPress.after presses row c.instant).copied := by
  rw [isDouble, hlast, RowPress.open?, RowPress.after]
  cases presses with
  | nil => rfl
  | cons first older => cases hfirst : first.copied <;> simp [Option.filter, hfirst]

variable [TextSupport]

theorem rowPressed_lastPress (s : App) (row : Nat) (c : Clock) :
    (s.rowPressed row c).1.lastPress = if s.isDouble row c then none else some (row, c.instant) := by
  unfold rowPressed
  dsimp only
  split <;> rw [dispatch_lastPress]

theorem rowPressed_world (s : App) (row : Nat) (c : Clock) :
    (s.rowPressed row c).1.world =
      if s.isDouble row c then (s.world.feed (.select row) c.now).feed .copyPrimary c.now
      else s.world.feed (.select row) c.now := by
  unfold rowPressed
  dsimp only
  split <;> simp [dispatch_world]

theorem update_lastPress {message : Message} (hrow : ∀ row, message ≠ .rowPressed row) (s : App)
    (c : Clock) : (s.update message c).1.lastPress = s.lastPress := by
  cases message with
  | core msg => exact dispatch_lastPress s msg c
  | key press =>
      simp only [update, onKey]
      split
      · rfl
      · split <;> exact dispatch_lastPress s _ c
  | layer event id =>
      cases event with
      | focused =>
          simp only [update]
          split <;> rfl
      | unfocused =>
          simp only [update]
          split
          · exact dispatch_lastPress s _ c
          · rfl
      | done => rfl
  | submit | nothing => rfl
  | rowPressed row => exact absurd rfl (hrow row)
  | openUrl url => exact dispatch_lastPress s .hide c

theorem dbusActivation_lastPress (s : App) (details : Details) (c : Clock) :
    (s.dbusActivation details c).1.lastPress = s.lastPress := by
  cases details with
  | activate =>
      simp only [dbusActivation]
      split
      · rfl
      · exact dispatch_lastPress s _ c
  | activateAction action =>
      simp only [dbusActivation]
      split <;> first | exact dispatch_lastPress s _ c | rfl
  | «open» => rfl

/-- Nothing but a press on a row changes what the shell remembers of them. -/
theorem step_lastPress {c : Clock} {e : AppEvent} (hrow : ∀ row, e ≠ .popup (.rowPressed row))
    {out : App × List AppTask} (h : s.step c e = some out) : out.1.lastPress = s.lastPress := by
  cases e with
  | popup message =>
      simp only [step, Option.ite_none_right_eq_some, Option.some.injEq] at h
      obtain ⟨-, rfl⟩ := h
      exact update_lastPress (fun row heq => hrow row (by rw [heq])) s c
  | layer event id =>
      obtain rfl := Option.some.inj h
      exact update_lastPress (by simp) s c
  | dbus details =>
      obtain rfl := Option.some.inj h
      exact dbusActivation_lastPress s details c
  | tick | loginLine =>
      simp only [step, Option.ite_none_right_eq_some, Option.some.injEq] at h
      obtain ⟨-, rfl⟩ := h
      exact dispatch_lastPress s _ c
  | prefsChanged prefs =>
      obtain rfl := Option.some.inj h
      exact dispatch_lastPress s _ c
  | resolve id reply =>
      obtain ⟨world, -, rfl⟩ := Option.map_eq_some_iff.mp h
      rfl
  | deliver id =>
      simp only [step, deliver] at h
      split at h
      next => simp at h
      next =>
        split at h
        next => simp at h
        next =>
          obtain rfl := Option.some.inj h
          exact dispatch_lastPress s _ c
  | switchAccount account =>
      obtain rfl := Option.some.inj h
      rfl

theorem init_lastPress (stored : Preferences) (account : Option AccountId) (id : WindowId)
    (action : Option RemoteAction) (c : Clock) :
    (init stored account id action c).1.lastPress = none := by
  unfold init
  dsimp only
  split
  · exact dispatch_lastPress (new stored account id) .startup c
  · rw [dispatch_lastPress]
    exact dispatch_lastPress (new stored account id) .startup c

end App

namespace Shell

section Runs

variable [TextSupport] {guard : Shell × List RowPress → AppEvent × Clock → Prop}

def pressNote (presses : List RowPress) (e : AppEvent × Clock) : List RowPress :=
  match e.1 with
  | .popup (.rowPressed row) => RowPress.after presses row e.2.instant :: presses
  | _ => presses

/-- The shell beside the history of row presses. -/
abbrev pressed : TransitionSystem (Shell × List RowPress) (AppEvent × Clock) :=
  system.annotated (fun presses => presses = []) fun _ presses e => some (pressNote presses e)

theorem lastPress_of_reach {s : Shell × List RowPress} (h : pressed.Reach guard s) :
    s.1.app.lastPress = RowPress.open? s.2 := by
  apply h.invariant
  · rintro ⟨s, presses⟩ ⟨⟨stored, account, id, action, c, rfl⟩, hempty⟩
    rw [show presses = [] from hempty]
    exact App.init_lastPress stored account id action c
  · rintro ⟨s, presses⟩ ⟨e, c⟩ ⟨s', presses'⟩ - - hstep hlast
    obtain ⟨hstep, hnote⟩ := TransitionSystem.annotated_step_eq_some.mp hstep
    obtain rfl := Option.some.inj hnote
    simp only [system, step, Option.ite_none_right_eq_some] at hstep
    obtain ⟨-, hstep⟩ := hstep
    obtain ⟨out, hout, rfl⟩ := Option.map_eq_some_iff.mp hstep
    by_cases hrow : ∃ row, e = .popup (.rowPressed row)
    · obtain ⟨row, rfl⟩ := hrow
      obtain rfl := Option.some.inj hout
      rw [pressNote, RowPress.open?_after, ← App.isDouble_eq hlast]
      exact App.rowPressed_lastPress s.app row c
    · rw [not_exists] at hrow
      have hsame : pressNote presses (e, c) = presses := by
        unfold pressNote
        split
        next row heq => exact absurd heq (hrow row)
        next => rfl
      rw [hsame, App.step_lastPress hrow hout]
      exact hlast

/-- Copies take two presses each. -/
def Halved (presses : List RowPress) : Prop :=
  2 * presses.countP (·.copied) + (RowPress.open? presses).isSome.toNat ≤ presses.length

theorem halved_of_reach {s : Shell × List RowPress} (h : pressed.Reach guard s) : Halved s.2 := by
  apply h.invariant
  · rintro ⟨s, presses⟩ ⟨-, hempty⟩
    rw [show presses = [] from hempty]
    exact le_rfl
  · rintro ⟨s, presses⟩ ⟨e, c⟩ ⟨s', presses'⟩ - - hstep hhalved
    obtain ⟨-, hnote⟩ := TransitionSystem.annotated_step_eq_some.mp hstep
    obtain rfl := Option.some.inj hnote
    unfold pressNote
    split
    next row _ =>
      unfold Halved at hhalved ⊢
      dsimp only at hhalved ⊢
      rw [RowPress.open?_after]
      cases hcopied : (RowPress.after presses row c.instant).copied with
      | false => simp [hcopied]; omega
      | true =>
          have hopen : (RowPress.open? presses).isSome := by
            cases presses with
            | nil => simp [RowPress.after] at hcopied
            | cons first older =>
                simp [RowPress.after] at hcopied
                simp [RowPress.open?, Option.filter, hcopied.1]
          simp [hcopied, hopen] at hhalved ⊢
          omega
    next => exact hhalved

/-- **Which presses copy.** In every run the next press selects its row, and copies just when the
press before it, on the same row, was less than 400 ms ago and did not copy itself. So three presses
in a row copy once, and of all presses so far no more than half did. -/
theorem press_copies_iff_second {s : Shell} {presses : List RowPress}
    (h : pressed.Reach guard (s, presses)) (row : Nat) (c : Clock) :
    (s.app.update (.rowPressed row) c).1.world =
        (if (RowPress.after presses row c.instant).copied then
          (s.app.world.feed (.select row) c.now).feed .copyPrimary c.now
        else s.app.world.feed (.select row) c.now) ∧
      2 * presses.countP (·.copied) ≤ presses.length := by
  refine ⟨?_, (Nat.le_add_right _ _).trans (halved_of_reach h)⟩
  rw [← App.isDouble_eq (lastPress_of_reach h)]
  exact App.rowPressed_world s.app row c

end Runs

section Examples

attribute [local instance] World.plainText

/-- The third press of three only selects. -/
theorem third_press_selects : ∃ s presses, pressed.Reach TransitionSystem.anyStep (s, presses) ∧
    presses.map RowPress.copied = [true, false] ∧
    (s.app.update (.rowPressed 0) ⟨3, 0⟩).1.world = s.app.world.feed (.select 0) 0 := by
  have hrun : ∃ s, pressed.Reach TransitionSystem.anyStep s ∧
      s.2.map RowPress.copied = [true, false] ∧ (RowPress.after s.2 0 3).copied = false := by
    refine TransitionSystem.exists_reach_of_run
      (started (App.init .default none 0 none ⟨0, 0⟩) 0, [])
      [(.popup (.rowPressed 0), ⟨1, 0⟩), (.popup (.rowPressed 0), ⟨2, 0⟩)]
      ⟨⟨_, _, _, _, _, rfl⟩, rfl⟩ ?_
    decide
  obtain ⟨⟨s, presses⟩, hreach, hcopied, hthird⟩ := hrun
  refine ⟨s, presses, hreach, hcopied, ?_⟩
  simpa [hthird] using (press_copies_iff_second hreach 0 ⟨3, 0⟩).1

end Examples

end Shell

end CosmicPass
