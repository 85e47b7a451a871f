import CosmicPass.Proof.Rebinding

/-!
# The preferences editor

Validation settles in one step: what it leaves behind has numbers in range and a usable chord for every
action, and is left alone by another pass. Every message that touches the preferences ends in it, so the
preferences a model holds are always settled.

Settled preferences can still give two actions one chord, where a default was taken. The editor never
does that: it starts from the defaults, which differ, and gives an action only a chord that no other
has.
-/

namespace CosmicPass

namespace Modifier

instance : Std.Total fun left right : Modifier => left.rank ≤ right.rank :=
  ⟨fun left right => le_total left.rank right.rank⟩

instance : IsTrans Modifier fun left right => left.rank ≤ right.rank :=
  ⟨fun _ _ _ => le_trans⟩

theorem sortDedup_sortDedup (modifiers : List Modifier) :
    sortDedup (sortDedup modifiers) = sortDedup modifiers := by
  have hsorted : (sortDedup modifiers).Pairwise fun left right => left.rank ≤ right.rank :=
    (List.pairwise_insertionSort _ modifiers).sublist (List.destutter_sublist _ _)
  calc
    sortDedup (sortDedup modifiers) = (sortDedup modifiers).destutter (· ≠ ·) := by
      rw [sortDedup, hsorted.insertionSort_eq]
    _ = sortDedup modifiers := List.destutter_idem _ _

end Modifier

/-- A chord made from a press accepts it, in whatever order the modifiers were reported. -/
theorem KeyChord.accepts_new (modifiers : List Modifier) (key : String) :
    (new modifiers key).accepts modifiers key := by
  simp [accepts, new, Modifier.sortDedup_sortDedup, eqIgnoreAsciiCase]

theorem clamp_mem (value : Nat) {range : Nat × Nat} (hrange : range.1 ≤ range.2) :
    range.1 ≤ clamp value range ∧ clamp value range ≤ range.2 := by
  rw [clamp_eq value hrange]
  omega

namespace Preferences

def InRange (prefs : Preferences) : Prop :=
  (clipboardClearRange.1 ≤ prefs.clipboardClearSecs ∧
      prefs.clipboardClearSecs ≤ clipboardClearRange.2) ∧
    (refreshStaleRange.1 ≤ prefs.refreshStaleSecs ∧ prefs.refreshStaleSecs ≤ refreshStaleRange.2) ∧
    maxResultsRange.1 ≤ prefs.maxResults ∧ prefs.maxResults ≤ maxResultsRange.2

section Settled

variable [TextSupport]

theorem validated_inRange (prefs : Preferences) : prefs.validated.InRange :=
  ⟨clamp_mem _ (by decide), clamp_mem _ (by decide), clamp_mem _ (by decide)⟩

/-- A stored chord with a key is kept unless an earlier action was given the same one. -/
theorem validated_keeps {prefs : Preferences} {a : Action} {c : KeyChord}
    (hstored : prefs.shortcuts.get? a = some c) (hkey : c.key ≠ "")
    (hfree : ∀ b < a, (prefs.validated.chord b).normalized ≠ c.normalized) :
    prefs.validated.chord a = c := by
  rw [validated_chord, chordAfter_some hstored]
  apply if_pos
  refine ⟨hkey, fun hmem => ?_⟩
  obtain ⟨b, hb, heq⟩ := List.mem_map.mp hmem
  exact hfree b (Action.mem_earlier.mp hb) heq

/-- The chords a pass gives follow from the chords stored, whatever the numbers are. -/
theorem chord_validated_of_shortcuts {prefs other : Preferences}
    (h : prefs.shortcuts = other.shortcuts) (a : Action) :
    prefs.validated.chord a = other.validated.chord a := by
  unfold validated chord
  rw [h]

/-- The preferences as the editor leaves them. -/
structure Edited (prefs : Preferences) : Prop where
  distinct : prefs.DistinctChords
  settled : prefs.validated = prefs

theorem edited_default (hlower : TextSupport.LowersAscii) : Preferences.default.Edited := by
  refine ⟨fun a b hne => ?_, validated_default⟩
  simp only [chord, get?_default, Option.getD_some]
  exact defaults_distinct hlower a b hne

theorem Edited.of_shortcuts {prefs other : Preferences} (h : prefs.Edited)
    (hsame : other.shortcuts = prefs.shortcuts) : other.validated.Edited := by
  refine ⟨fun a b hne => ?_, validated_validated other⟩
  rw [chord_validated_of_shortcuts hsame, chord_validated_of_shortcuts hsame, h.settled]
  exact h.distinct a b hne

theorem Edited.rebound {prefs : Preferences} (h : prefs.Edited) {a : Action} {c : KeyChord}
    (hfree : prefs.conflict a c = none) (hkey : c.key ≠ "") : (prefs.rebound a c).Edited := by
  have hother : ∀ b, b ≠ a → (prefs.chord b).normalized ≠ c.normalized :=
    fun b hne => ne_of_conflict hfree hne
  refine ⟨fun b d hne => ?_, validated_validated _⟩
  rw [chord_rebound h.settled hfree hkey, chord_rebound h.settled hfree hkey]
  by_cases hb : b = a
  · rw [if_pos hb, if_neg fun hd => hne (hb.trans hd.symm)]
    exact (hother d fun hd => hne (hb.trans hd.symm)).symm
  · rw [if_neg hb]
    by_cases hd : d = a
    · rw [if_pos hd]
      exact hother b hb
    · rw [if_neg hd]
      exact h.distinct b d hne

theorem conflict_isSome_iff {prefs : Preferences} {a : Action} {c : KeyChord} :
    (prefs.conflict a c).isSome ↔ ∃ b, b ≠ a ∧ (prefs.chord b).normalized = c.normalized := by
  simp [conflict, List.find?_isSome, Action.mem_all]

end Settled

end Preferences

namespace Model

section Editing

variable [TextSupport] {m : Model}

/-- Preferences are edited, never loaded, and a captured chord has a key. -/
def editsOnly (_ : Model) (e : Msg × Int) : Prop :=
  (∀ prefs, e.1 ≠ .prefsLoaded prefs) ∧ ∀ c, e.1 = .chordCaptured c → c.key ≠ ""

theorem editedPrefs_edited (hlower : TextSupport.LowersAscii) (h : m.prefs.Edited)
    {msg : Msg} {now : Int} (hguard : m.editsOnly (msg, now)) : (m.editedPrefs msg).Edited := by
  unfold editedPrefs
  split
  next delta => exact h.of_shortcuts rfl
  next c =>
    split
    next a hmode =>
      split
      next => exact h
      next hfree => exact h.rebound hfree (hguard.2 c rfl)
    next => exact h
  next => exact (Preferences.edited_default hlower).of_shortcuts rfl
  next prefs => exact absurd rfl (hguard.1 prefs)
  next => exact h

theorem edited_of_reach (hlower : TextSupport.LowersAscii)
    (h : (system.startingAt (new .default)).Reach editsOnly m) : m.prefs.Edited := by
  apply h.invariant
  · rintro _ rfl
    exact Preferences.edited_default hlower
  · intro m e m' _ hguard hstep hedited
    obtain rfl := Option.some.inj hstep
    rw [update_prefs]
    exact editedPrefs_edited hlower hedited hguard

/-- The editor goes on waiting for another chord. -/
def Rejects (m : Model) (c : KeyChord) (now : Int) : Prop :=
  (m.update (.chordCaptured c) now).1.view.mode = m.view.mode

theorem rejects_iff {a : Action} (hmode : m.view.mode = .preferences (some a)) (c : KeyChord)
    (now : Int) :
    m.Rejects c now ↔ ∃ b, b ≠ a ∧ (m.prefs.chord b).normalized = c.normalized := by
  rw [← Preferences.conflict_isSome_iff, Rejects]
  cases hconflict : m.prefs.conflict a c with
  | some other => simp [update, chordCaptured, hmode, hconflict, notify]
  | none =>
      obtain ⟨results, selected, heq⟩ :=
        savePrefs_cases { m with view := { m.view with mode := .preferences none } }
          { m.prefs with shortcuts := m.prefs.shortcuts.insert a c }
      simp [update, chordCaptured, hmode, hconflict, heq]

theorem prefs_of_rejects {a : Action} (hmode : m.view.mode = .preferences (some a)) {c : KeyChord}
    {now : Int} (h : m.Rejects c now) :
    (m.update (.chordCaptured c) now).1.prefs = m.prefs := by
  obtain ⟨other, hother⟩ := Option.isSome_iff_exists.mp
    (Preferences.conflict_isSome_iff.mpr ((rejects_iff hmode c now).mp h))
  simp only [update_prefs, editedPrefs, hmode, hother]

theorem prefs_of_accepted {a : Action} (hmode : m.view.mode = .preferences (some a)) {c : KeyChord}
    {now : Int} (h : ¬ m.Rejects c now) :
    m.prefs.conflict a c = none ∧
      (m.update (.chordCaptured c) now).1.prefs = m.prefs.rebound a c := by
  rw [rejects_iff hmode, ← Preferences.conflict_isSome_iff, Bool.not_eq_true,
    Option.isSome_eq_false_iff, Option.isNone_iff_eq_none] at h
  refine ⟨h, ?_⟩
  simp only [update_prefs, editedPrefs, hmode, h, Preferences.rebound]

/-- **The editor keeps the chords apart.** A captured chord is turned away exactly when another action
has it; otherwise it is the action's own, and the other chords stay as they are. -/
theorem editor_keeps_chords (hlower : TextSupport.LowersAscii)
    (h : (system.startingAt (new .default)).Reach editsOnly m) :
    m.prefs.DistinctChords ∧ m.prefs.validated = m.prefs ∧
      ∀ a, m.view.mode = .preferences (some a) → ∀ c : KeyChord, c.key ≠ "" → ∀ now,
        (m.Rejects c now ↔ ∃ b, b ≠ a ∧ (m.prefs.chord b).normalized = c.normalized) ∧
        (m.Rejects c now → (m.update (.chordCaptured c) now).1.prefs = m.prefs) ∧
        (¬ m.Rejects c now →
          (∀ press : KeyPress, c = .new press.modifiers press.key ∨ c = ⟨press.modifiers, press.key⟩ →
            (m.update (.chordCaptured c) now).1.prefs.actionFor press.modifiers press.key = some a) ∧
          ∀ b, (m.update (.chordCaptured c) now).1.prefs.chord b =
            if b = a then c else m.prefs.chord b) := by
  obtain ⟨hdistinct, hsettled⟩ := edited_of_reach hlower h
  refine ⟨hdistinct, hsettled, fun a hmode c hkey now => ⟨rejects_iff hmode c now,
    prefs_of_rejects hmode, fun haccepted => ?_⟩⟩
  obtain ⟨hfree, hprefs⟩ := prefs_of_accepted hmode haccepted
  rw [hprefs]
  refine ⟨fun press hpress => ?_, Preferences.chord_rebound hsettled hfree hkey⟩
  have haccepts : c.accepts press.modifiers press.key := by
    rcases hpress with rfl | rfl
    · exact KeyChord.accepts_new press.modifiers press.key
    · exact KeyChord.accepts_self ⟨press.modifiers, press.key⟩
  exact Preferences.actionFor_rebound hlower hsettled hfree hkey haccepts

theorem update_prefsLoaded_self (h : m.prefs.validated = m.prefs) (now : Int) :
    m.update (.prefsLoaded m.prefs) now = (m, []) := by
  simp [update, applyPrefs, h]

theorem savePrefs_effects (m : Model) (prefs : Preferences) :
    (m.savePrefs prefs).2 =
      if prefs.validated = m.prefs then [] else [.savePreferences prefs.validated] := by
  simp only [savePrefs]
  split
  · rfl
  · rfl

/-- **Stored preferences settle in one step**, and every message leaves them settled. -/
theorem preferences_settle (prefs : Preferences) :
    prefs.validated.InRange ∧
      (∀ a, ∃ c, prefs.validated.shortcuts.get? a = some c ∧ c.key ≠ "") ∧
      prefs.validated.validated = prefs.validated ∧
      (∀ a c, prefs.shortcuts.get? a = some c → c.key ≠ "" →
        (∀ b < a, (prefs.validated.chord b).normalized ≠ c.normalized) →
        prefs.validated.shortcuts.get? a = some c) ∧
      ∀ m, (system.startingAt (new prefs.validated)).Reach TransitionSystem.anyStep m →
        m.prefs.validated = m.prefs ∧
        (∀ now, m.update (.prefsLoaded m.prefs) now = (m, [])) ∧
        ∀ edited, (m.savePrefs edited).2 =
          if edited.validated = m.prefs then [] else [.savePreferences edited.validated] := by
  refine ⟨prefs.validated_inRange, fun a => ?_, prefs.validated_validated, ?_, fun m hreach => ?_⟩
  · exact ⟨_, prefs.get?_validated a, Preferences.key_ne_empty prefs.validated_validated a⟩
  · intro a c hstored hkey hfree
    rw [prefs.get?_validated, Preferences.validated_keeps hstored hkey hfree]
  · have hsettled := validated_of_reach prefs.validated_validated hreach
    exact ⟨hsettled, update_prefsLoaded_self hsettled, m.savePrefs_effects⟩

end Editing

section Examples

attribute [local instance] Preferences.asciiText

/-- `Ctrl+T` for the website, with `Ctrl` reported twice and the key in upper case. -/
theorem editor_keeps_chords_website : ∃ m, (system.startingAt (new .default)).Reach editsOnly m ∧
    m.view.mode = .preferences (some .copyUrl) ∧ ¬ m.Rejects (.new [.ctrl, .ctrl] "T") 0 ∧
      (m.update (.chordCaptured (.new [.ctrl, .ctrl] "T")) 0).1.prefs.actionFor [.ctrl, .ctrl] "T" =
        some .copyUrl := by
  have hopened : (system.startingAt (new .default)).Reach editsOnly
      ((new .default).update .openPreferences 0).1 :=
    .next (e := (.openPreferences, 0)) (.start rfl) ⟨by simp, by simp⟩ rfl
  have hreach : (system.startingAt (new .default)).Reach editsOnly
      (((new .default).update .openPreferences 0).1.update (.startRebind .copyUrl) 0).1 :=
    .next (e := (.startRebind .copyUrl, 0)) hopened ⟨by simp, by simp⟩ rfl
  obtain ⟨-, -, hcapture⟩ := editor_keeps_chords Preferences.asciiText_lowersAscii hreach
  have haccepted : ¬ Rejects (((new .default).update .openPreferences 0).1.update
      (.startRebind .copyUrl) 0).1 (.new [.ctrl, .ctrl] "T") 0 := by
    unfold Rejects
    decide
  obtain ⟨-, -, hown⟩ := hcapture .copyUrl rfl (.new [.ctrl, .ctrl] "T") (by decide) 0
  exact ⟨_, hreach, rfl, haccepted, (hown haccepted).1 ⟨"T", [.ctrl, .ctrl]⟩ (.inl rfl)⟩

/-- A chord that no action before has is kept, and the username falls back to its own. -/
theorem preferences_settle_stray :
    Preferences.strayChords.validated.shortcuts.get? .reveal = some (.new [.ctrl] "T") ∧
      Preferences.strayChords.validated.chord .copyUsername = .new [.ctrl] "u" ∧
      (new Preferences.strayChords.validated).update
          (.prefsLoaded (new Preferences.strayChords.validated).prefs) 0 =
        (new Preferences.strayChords.validated, []) := by
  obtain ⟨-, -, -, hkeeps, hreached⟩ := preferences_settle Preferences.strayChords
  have hfree : ∀ b : Action, b < .reveal →
      (Preferences.strayChords.validated.chord b).normalized ≠
        (KeyChord.new [.ctrl] "T").normalized := by
    intro b
    cases b <;> decide
  exact ⟨hkeeps .reveal (.new [.ctrl] "T") (by decide) (by decide) hfree, by decide,
    (hreached _ (.start rfl)).2.1 0⟩

end Examples

end Model

end CosmicPass
