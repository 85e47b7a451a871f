import CosmicPass.App.Keys
import CosmicPass.Core.Runs
import CosmicPass.Proof.PrefsEcho

/-!
# Chords that a rebinding gives

A chord is accepted for an action if no other action has it, and is then the action's alone. The fixed
keys of a mode are not looked at, and come first when the chord is pressed.
-/

namespace CosmicPass

namespace Action

def offeredIn (a : Action) : Mode → Bool
  | .list => a ≠ .reveal
  | .actions _ _ => a ≠ .openActions ∧ a ≠ .preferences
  | .preferences _ => false

/-- What the keyboard contract has the action's chord do. -/
def message (a : Action) (mode : Mode) : Msg :=
  match a with
  | .copyPrimary => if mode = .list then .copyPrimary else .activateAction none
  | .copyUsername => .copyUsername
  | .copyTotp => .copyTotp
  | .copyUrl => .copyUrl
  | .openActions => .openActions
  | .reveal => .toggleReveal
  | .refresh => .refreshRequested
  | .preferences => .openPreferences
  | .signIn => .startLogin
  | .retry => .startup

end Action

def KeyChord.press (c : KeyChord) : KeyPress := { key := c.key, modifiers := c.modifiers }

theorem KeyChord.accepts_self (c : KeyChord) : c.accepts c.modifiers c.key := by
  simp [accepts, eqIgnoreAsciiCase]

namespace KeyPress

/-- The fixed keys of the preferences editor. -/
def editsPreferences (press : KeyPress) : Bool :=
  press.is [] "Escape" || press.is [.ctrl, .shift] "Delete" ||
    unshifted press ["ArrowUp", "ArrowRight", "+", "="] ||
    unshifted press ["ArrowDown", "ArrowLeft", "-", "_"]

/-- The fixed keys of both lists. -/
def navigates (press : KeyPress) : Bool :=
  press.is [] "ArrowDown" || press.is [.ctrl] "n" || press.is [.ctrl] "j" ||
    (press.is [] "ArrowUp" || press.is [.ctrl] "p" || press.is [.ctrl] "k") ||
    press.is [] "PageDown" || press.is [] "PageUp" || press.is [] "Escape"

/-- A fixed key, in a mode in which the action's chord is to do something. -/
def shadows (press : KeyPress) (a : Action) : Bool :=
  press.editsPreferences || press.navigates ||
    (press.is [.shift] "Tab" && a ≠ .openActions && a ≠ .preferences)

end KeyPress

namespace Preferences

/-- Pressing the chord does what the contract promises for the action, wherever it is offered. -/
def Works (prefs : Preferences) (a : Action) (c : KeyChord) : Prop :=
  ∀ press ctx, press.is c.modifiers c.key →
    mapKey press (.preferences none) prefs ctx = some (.startRebind a) ∧
      ∀ mode, a.offeredIn mode → mapKey press mode prefs ctx = some (a.message mode)

end Preferences

section Presses

variable {press other : KeyPress} {prefs : Preferences} {a : Action} {mode : Mode} {ctx : KeyContext}

/-- A press of the same keys, in any order and any case. -/
theorem is_eq_of_is (h : press.is other.modifiers other.key) (modifiers : List Modifier)
    (key : String) : press.is modifiers key = other.is modifiers key := by
  obtain ⟨hmodifiers, hkey⟩ := of_decide_eq_true h
  have hlowered := of_decide_eq_true hkey
  unfold KeyPress.is eqIgnoreAsciiCase
  rw [decide_eq_decide, hmodifiers, hlowered]

theorem actionFor_of_is (h : press.is other.modifiers other.key) :
    prefs.actionFor press.modifiers press.key = prefs.actionFor other.modifiers other.key := by
  obtain ⟨hmodifiers, hkey⟩ := of_decide_eq_true h
  have hlowered := of_decide_eq_true hkey
  unfold Preferences.actionFor KeyChord.accepts Modifier.sortDedup eqIgnoreAsciiCase
  unfold Modifier.sorted at hmodifiers
  simp only [hmodifiers, hlowered]

theorem mapKey_editor : mapKey press (.preferences none) prefs ctx = some (.startRebind a) ↔
    press.editsPreferences = false ∧ prefs.actionFor press.modifiers press.key = some a := by
  simp only [mapKey, preferencesKey, Option.isSome_none, Bool.false_eq_true, if_false,
    KeyPress.editsPreferences]
  split_ifs with hescape hdelete hmore hless <;> simp [*]

theorem found_of_ite {p : Prop} [Decidable p] {msgs : List Msg} {msg : Msg} {rest : Option Msg}
    (hmem : msg ∈ msgs) (hrest : ¬ p → ∃ found ∈ msgs, rest = some found) :
    ∃ found ∈ msgs, (if p then some msg else rest) = some found := by
  split
  next => exact ⟨msg, hmem, rfl⟩
  next h => exact hrest h

/-- A fixed key of the lists does what it does whatever the chords are. -/
theorem mapKey_navigates (h : press.navigates) (hlist : ∀ rebinding, mode ≠ .preferences rebinding) :
    ∃ msg ∈ [Msg.selectNext, .selectPrev, .pageDown, .pageUp, .escape],
      mapKey press mode prefs ctx = some msg := by
  cases mode with
  | preferences rebinding => exact absurd rfl (hlist rebinding)
  | list | actions =>
      unfold mapKey
      dsimp only
      refine found_of_ite (by simp) fun hnext => found_of_ite (by simp) fun hprev =>
        found_of_ite (by simp) fun hdown => found_of_ite (by simp) fun hup =>
          found_of_ite (by simp) fun hescape => ?_
      rw [Bool.not_eq_true] at hnext hprev hdown hup hescape
      simp only [KeyPress.navigates, hnext, hprev, hdown, hup, hescape] at h
      exact absurd h (by decide)

theorem mapKey_back {key : ItemKey} {selected : Nat} (hnavigates : press.navigates = false)
    (hback : press.is [.shift] "Tab") :
    mapKey press (.actions key selected) prefs ctx = some .back := by
  simp only [KeyPress.navigates, Bool.or_eq_false_iff] at hnavigates
  simp [mapKey, hnavigates, hback]

theorem mapKey_offered (hfixed : press.shadows a = false)
    (hfor : prefs.actionFor press.modifiers press.key = some a) (hoffered : a.offeredIn mode) :
    mapKey press mode prefs ctx = some (a.message mode) := by
  simp only [KeyPress.shadows, Bool.or_eq_false_iff] at hfixed
  obtain ⟨⟨hedits, hnavigates⟩, hback⟩ := hfixed
  simp only [KeyPress.editsPreferences, unshifted, List.any_cons, Bool.or_eq_false_iff] at hedits
  simp only [KeyPress.navigates, Bool.or_eq_false_iff] at hnavigates
  cases mode with
  | preferences => simp [Action.offeredIn] at hoffered
  | list =>
      simp only [mapKey, hnavigates, hedits, hfor, Bool.or_self, Bool.false_and, Bool.false_eq_true,
        and_false, if_false]
      cases a <;> simp_all [Action.message, Action.offeredIn]
  | actions =>
      have htab : press.is [.shift] "Tab" = false := by
        simpa [of_decide_eq_true hoffered] using hback
      simp only [mapKey, hnavigates, hedits, htab, hfor, Bool.or_self, Bool.and_false,
        Bool.false_eq_true, reduceCtorEq, false_and, if_false]
      cases a <;> simp_all [Action.message, Action.offeredIn]

theorem shadows_of_is (h : press.is other.modifiers other.key) :
    press.shadows a = other.shadows a := by
  unfold KeyPress.shadows KeyPress.editsPreferences KeyPress.navigates unshifted
  simp only [is_eq_of_is h]

theorem is_self (press : KeyPress) : press.is press.modifiers press.key := by
  simp [KeyPress.is, eqIgnoreAsciiCase]

end Presses

namespace Preferences

variable {prefs : Preferences} {a : Action} {c : KeyChord}

/-- A fixed key of a mode in which the action is offered is not the action's, whatever it is bound
to. -/
theorem not_shadows_of_works (h : prefs.Works a c) : c.press.shadows a = false := by
  obtain ⟨heditor, hoffered⟩ := h c.press {} (is_self c.press)
  have hedits := (mapKey_editor.mp heditor).1
  have hnavigates : c.press.navigates = false := by
    by_contra hnavigates
    rw [Bool.not_eq_false] at hnavigates
    have hmode : ∃ mode, a.offeredIn mode ∧ ∀ rebinding, mode ≠ .preferences rebinding := by
      by_cases hreveal : a = .reveal
      · exact ⟨.actions ⟨⟨""⟩, ⟨""⟩⟩ 0, by simp [Action.offeredIn, hreveal], by simp⟩
      · exact ⟨.list, by simp [Action.offeredIn, hreveal], by simp⟩
    obtain ⟨mode, hmode, hlist⟩ := hmode
    obtain ⟨msg, hmem, hmsg⟩ :
        ∃ msg ∈ [Msg.selectNext, .selectPrev, .pageDown, .pageUp, .escape],
          mapKey c.press mode prefs {} = some msg := mapKey_navigates hnavigates hlist
    rw [hoffered mode hmode, Option.some.injEq] at hmsg
    subst hmsg
    cases a <;> cases mode <;> simp [Action.message] at hmem
  by_contra hshadows
  simp only [KeyPress.shadows, hedits, hnavigates, Bool.or_self, Bool.false_or,
    Bool.not_eq_false, Bool.and_eq_true, decide_eq_true_iff] at hshadows
  obtain ⟨⟨htab, hopen⟩, hpreferences⟩ := hshadows
  have hback : mapKey c.press (.actions ⟨⟨""⟩, ⟨""⟩⟩ 0) prefs {} = some .back :=
    mapKey_back hnavigates htab
  rw [hoffered _ (by simp [Action.offeredIn, hopen, hpreferences]), Option.some.injEq] at hback
  cases a <;> simp [Action.message] at hback

theorem works_iff : prefs.Works a c ↔
    prefs.actionFor c.modifiers c.key = some a ∧ c.press.shadows a = false := by
  constructor
  · intro h
    have heditor := (h c.press {} (is_self c.press)).1
    exact ⟨(mapKey_editor.mp heditor).2, not_shadows_of_works h⟩
  · rintro ⟨hfor, hfixed⟩ press ctx his
    have hsame : press.is c.press.modifiers c.press.key := his
    have hfixed' : press.shadows a = false := (shadows_of_is hsame).trans hfixed
    have hfor' : prefs.actionFor press.modifiers press.key = some a :=
      (actionFor_of_is hsame).trans hfor
    refine ⟨mapKey_editor.mpr ⟨?_, hfor'⟩, fun mode => mapKey_offered hfixed' hfor'⟩
    simp only [KeyPress.shadows, Bool.or_eq_false_iff] at hfixed'
    exact hfixed'.1.1

section Rebound

variable [TextSupport]

/-- The preferences once the chord is given to the action. -/
def rebound (prefs : Preferences) (a : Action) (c : KeyChord) : Preferences :=
  { prefs with shortcuts := prefs.shortcuts.insert a c }.validated

theorem ne_of_conflict (hfree : prefs.conflict a c = none) {b : Action} (hne : b ≠ a) :
    (prefs.chord b).normalized ≠ c.normalized := by
  have hnone := List.find?_eq_none.mp hfree b b.mem_all
  simpa [hne] using hnone

/-- **A rebinding changes the one chord.** -/
theorem chord_rebound (hvalid : prefs.validated = prefs) (hfree : prefs.conflict a c = none)
    (hkey : c.key ≠ "") (b : Action) :
    (prefs.rebound a c).chord b = if b = a then c else prefs.chord b := by
  induction hrank : b.rank using Nat.strong_induction_on generalizing b with
  | _ n ih =>
      subst hrank
      have hused : ∀ chord, chord ∈ (b.earlier.map fun d => ((prefs.rebound a c).chord d).normalized) →
          chord = c.normalized ∨
            chord ∈ b.earlier.map fun d => (prefs.chord d).normalized := by
        intro chord hmem
        obtain ⟨d, hd, rfl⟩ := List.mem_map.mp hmem
        rw [ih d.rank (Action.mem_earlier.mp hd) d rfl]
        split
        · exact .inl rfl
        · exact .inr (List.mem_map.mpr ⟨d, hd, rfl⟩)
      by_cases hb : b = a
      · subst hb
        have hnew : c.normalized ∉
            b.earlier.map fun d => ((prefs.rebound b c).chord d).normalized := by
          intro hmem
          obtain ⟨d, hd, heq⟩ := List.mem_map.mp hmem
          have hne : d ≠ b := (Action.mem_earlier.mp hd).ne
          rw [ih d.rank (Action.mem_earlier.mp hd) d rfl, if_neg hne] at heq
          exact ne_of_conflict hfree hne heq
        have hget : (prefs.shortcuts.insert b c).get? b = some c := by simp
        rw [if_pos rfl, rebound, validated_chord, chordAfter_some hget]
        exact if_pos ⟨hkey, hnew⟩
      · have hget : (prefs.shortcuts.insert a c).get? b = some (prefs.chord b) := by
          rw [OrderedMap.get?_insert, if_neg hb]
          exact hvalid ▸ get?_validated prefs b
        have hown := validated_chord prefs b
        rw [hvalid, chordAfter_some (hvalid ▸ get?_validated prefs b)] at hown
        rw [if_neg hb, rebound, validated_chord, chordAfter_some hget]
        split
        next => rfl
        next hdropped =>
          -- The chord was not kept before either: the new one is another.
          split at hown
          next hkept =>
            refine absurd ⟨hkept.1, fun hmem => ?_⟩ hdropped
            rcases hused _ hmem with hsame | hbefore
            · exact ne_of_conflict hfree hb hsame
            · exact hkept.2 hbefore
          next => exact hown.symm

/-- The new chord answers to the action, however the same keys are pressed. -/
theorem actionFor_rebound (hlower : TextSupport.LowersAscii) (hvalid : prefs.validated = prefs)
    (hfree : prefs.conflict a c = none) (hkey : c.key ≠ "") {modifiers : List Modifier} {key : String}
    (hpress : c.accepts modifiers key) : (prefs.rebound a c).actionFor modifiers key = some a := by
  refine actionFor_eq_some fun b => ?_
  rw [chord_rebound hvalid hfree hkey]
  constructor
  · intro haccepts
    by_contra hne
    rw [if_neg hne] at haccepts
    have hsame : (prefs.chord b).normalized = c.normalized := by
      calc
        (prefs.chord b).normalized = (KeyChord.mk modifiers key).normalized :=
          normalized_eq_of_accepts hlower haccepts
        _ = c.normalized := (normalized_eq_of_accepts hlower hpress).symm
    exact ne_of_conflict hfree hne hsame
  · rintro rfl
    rwa [if_pos rfl]

theorem key_ne_empty (hvalid : prefs.validated = prefs) (a : Action) : (prefs.chord a).key ≠ "" := by
  rw [← hvalid]
  rcases prefs.validated_chord_cases a with ⟨c, hc, hkept, -⟩ | ⟨hdefault, -⟩
  · rw [hkept]
    exact of_decide_eq_true (Option.filter_eq_some_iff.mp hc).2
  · rw [hdefault]
    cases a <;> decide

/-- No press has a chord without a key. -/
theorem actionFor_empty (hvalid : prefs.validated = prefs) (modifiers : List Modifier) :
    prefs.actionFor modifiers "" = none := by
  refine List.find?_eq_none.mpr fun a _ haccepts => ?_
  have hkey := of_decide_eq_true (of_decide_eq_true haccepts).2
  exact key_ne_empty hvalid a (by simpa using hkey)

omit [TextSupport] in
theorem get?_default (a : Action) : Preferences.default.shortcuts.get? a = some a.defaultChord := by
  cases a <;> rfl

theorem validated_default : Preferences.default.validated = Preferences.default := by
  have hchord : ∀ a, Preferences.default.validated.chord a = a.defaultChord := by
    intro a
    rcases Preferences.default.validated_chord_cases a with ⟨c, hc, hkept, -⟩ | ⟨hdefault, -⟩
    · rw [storedChord, get?_default] at hc
      rw [hkept, ← Option.some.inj (Option.filter_eq_some_iff.mp hc).1]
    · exact hdefault
  have hshortcuts : Preferences.default.validated.shortcuts = Preferences.default.shortcuts :=
    OrderedMap.ext_get? fun a => by rw [get?_validated, hchord, get?_default]
  exact Preferences.ext rfl rfl rfl hshortcuts

end Rebound

end Preferences

namespace Model

section Rebinding

variable [TextSupport] {m : Model} {a : Action} {c : KeyChord}

theorem validated_of_reach {prefs : Preferences} {guard : Model → Msg × Int → Prop}
    (hprefs : prefs.validated = prefs) (h : (system.startingAt (new prefs)).Reach guard m) :
    m.prefs.validated = m.prefs := by
  apply h.invariant
  · rintro _ rfl
    exact hprefs
  · intro m e m' _ _ hstep hvalid
    obtain rfl := Option.some.inj hstep
    rw [update_prefs]
    exact m.editedPrefs_validated hvalid e.1

/-- **A chord that is accepted works, wherever the action is offered, exactly when it has a key and is
no fixed key there.** -/
theorem rebinding_works_iff (hlower : TextSupport.LowersAscii)
    (h : (system.startingAt (new .default)).Reach TransitionSystem.anyStep m)
    (hmode : m.view.mode = .preferences (some a)) (hfree : m.prefs.conflict a c = none) (now : Int) :
    (m.update (.chordCaptured c) now).1.prefs.Works a c ↔ c.key ≠ "" ∧ c.press.shadows a = false := by
  have hvalid := validated_of_reach Preferences.validated_default h
  have hprefs : (m.update (.chordCaptured c) now).1.prefs = m.prefs.rebound a c := by
    rw [update_prefs, editedPrefs, hmode]
    simp only [hfree, Preferences.rebound]
  rw [hprefs, Preferences.works_iff]
  refine and_congr_left fun _ => ⟨?_, fun hkey =>
    Preferences.actionFor_rebound hlower hvalid hfree hkey c.accepts_self⟩
  rintro hfor hkey
  rw [hkey, Preferences.rebound, Preferences.actionFor_empty (Preferences.validated_validated _)]
    at hfor
  simp at hfor

end Rebinding

section Examples

attribute [local instance] Preferences.asciiText

theorem exists_rebinding (a : Action) (c : KeyChord)
    (hfree : Preferences.default.conflict a c = none) :
    ∃ m, (system.startingAt (new .default)).Reach TransitionSystem.anyStep m ∧
      m.view.mode = .preferences (some a) ∧ m.prefs.conflict a c = none := by
  refine ⟨((new .default).update .openPreferences 0).1.update (.startRebind a) 0 |>.1, ?_, rfl, hfree⟩
  exact .next (e := (.startRebind a, 0)) (.next (e := (.openPreferences, 0)) (.start rfl) trivial rfl)
    trivial rfl

/-- `Ctrl+T` for the website. -/
theorem rebinding_works_website : ∃ m, (system.startingAt (new .default)).Reach
    TransitionSystem.anyStep m ∧ m.view.mode = .preferences (some .copyUrl) ∧
      (m.update (.chordCaptured (.new [.ctrl] "t")) 0).1.prefs.Works .copyUrl (.new [.ctrl] "t") := by
  obtain ⟨m, hreach, hmode, hfree⟩ := exists_rebinding .copyUrl (.new [.ctrl] "t") (by decide)
  exact ⟨m, hreach, hmode, (rebinding_works_iff Preferences.asciiText_lowersAscii hreach hmode hfree
    0).mpr ⟨by decide, by decide⟩⟩

/-- `Ctrl+N` for the website: it is accepted, and still selects the next row. -/
theorem rebinding_shadowed : ∃ m, (system.startingAt (new .default)).Reach
    TransitionSystem.anyStep m ∧ m.view.mode = .preferences (some .copyUrl) ∧
      m.prefs.conflict .copyUrl (.new [.ctrl] "n") = none ∧
      ¬ (m.update (.chordCaptured (.new [.ctrl] "n")) 0).1.prefs.Works .copyUrl
        (.new [.ctrl] "n") := by
  obtain ⟨m, hreach, hmode, hfree⟩ := exists_rebinding .copyUrl (.new [.ctrl] "n") (by decide)
  exact ⟨m, hreach, hmode, hfree, fun h => absurd (Preferences.not_shadows_of_works h) (by decide)⟩

end Examples

end Model

end CosmicPass
