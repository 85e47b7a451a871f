import CosmicPass.Config

/-!
# The chords after validation

Validation walks the actions in order. An action keeps its stored chord if it has one that no earlier
action was given, and falls back to its default chord otherwise. Nothing asks whether an earlier action
was given that default: if one was, the two share a chord and the later action cannot be reached.
-/

namespace CosmicPass

namespace Action

def earlier (a : Action) : List Action := all.takeWhile fun b => b ≠ a

theorem mem_earlier {a b : Action} : b ∈ a.earlier ↔ b < a := by
  cases a <;> cases b <;> decide

theorem mem_all (a : Action) : a ∈ all := by
  cases a <;> decide

theorem all_nodup : all.Nodup := by decide

end Action

theorem clamp_eq (value : Nat) {range : Nat × Nat} (hrange : range.1 ≤ range.2) :
    clamp value range = max range.1 (min range.2 value) := by
  unfold clamp
  split_ifs <;> omega

theorem clamp_clamp (value : Nat) {range : Nat × Nat} (hrange : range.1 ≤ range.2) :
    clamp (clamp value range) range = clamp value range := by
  simp only [clamp_eq _ hrange]
  omega

namespace Preferences

section Validation

variable [TextSupport]

/-- The chord an action is given once the chords of the earlier ones are settled. -/
def chordAfter (stored : Shortcuts) (used : List KeyChord) (a : Action) : KeyChord :=
  ((stored.get? a).filter fun c => c.key ≠ "" ∧ c.normalized ∉ used).getD a.defaultChord

theorem chordAfter_some {stored : Shortcuts} {a : Action} {c : KeyChord}
    (h : stored.get? a = some c) (used : List KeyChord) :
    chordAfter stored used a =
      if c.key ≠ "" ∧ c.normalized ∉ used then c else a.defaultChord := by
  rw [chordAfter, h, Option.filter_some]
  by_cases hkept : c.key ≠ "" ∧ c.normalized ∉ used
  · rw [if_pos (decide_eq_true hkept), if_pos hkept, Option.getD_some]
  · rw [if_neg (by simpa using hkept), if_neg hkept, Option.getD_none]

theorem validateShortcut_eq (stored : Shortcuts) (acc : List KeyChord × Shortcuts) (a : Action) :
    validateShortcut stored acc a =
      (acc.1 ++ [(chordAfter stored acc.1 a).normalized],
        acc.2.insert a (chordAfter stored acc.1 a)) := rfl

def given (shortcuts : Shortcuts) (a : Action) : KeyChord :=
  (shortcuts.get? a).getD a.defaultChord

/-- What the loop has built once these actions are behind it. -/
structure Settled (stored : Shortcuts) (behind : List Action) (acc : List KeyChord × Shortcuts) :
    Prop where
  used : acc.1 = behind.map fun a => (given acc.2 a).normalized
  present : ∀ a, (acc.2.get? a).isSome ↔ a ∈ behind
  each : ∀ before a after, behind = before ++ a :: after →
    given acc.2 a = chordAfter stored (before.map fun b => (given acc.2 b).normalized) a

theorem Settled.validateShortcut {stored : Shortcuts} {behind : List Action}
    {acc : List KeyChord × Shortcuts} (h : Settled stored behind acc) {a : Action}
    (hnew : a ∉ behind) :
    Settled stored (behind ++ [a]) (Preferences.validateShortcut stored acc a) := by
  rw [validateShortcut_eq]
  have hself : given (acc.2.insert a (chordAfter stored acc.1 a)) a = chordAfter stored acc.1 a := by
    simp [given]
  have hother : ∀ b ∈ behind,
      given (acc.2.insert a (chordAfter stored acc.1 a)) b = given acc.2 b := by
    intro b hmem
    have hne : b ≠ a := fun heq => hnew (heq ▸ hmem)
    simp [given, hne]
  have hbehind : ∀ part : List Action, (∀ b ∈ part, b ∈ behind) →
      part.map (fun b => (given (acc.2.insert a (chordAfter stored acc.1 a)) b).normalized) =
        part.map fun b => (given acc.2 b).normalized := fun part hpart =>
    List.map_congr_left fun b hmem => by rw [hother b (hpart b hmem)]
  refine ⟨?_, fun b => ?_, ?_⟩
  · rw [List.map_append, hbehind behind fun _ => id, ← h.used, List.map_singleton, hself]
  · by_cases heq : b = a
    · simp [heq]
    · simp [heq, h.present b]
  · intro before b after heq
    rcases List.eq_nil_or_concat after with rfl | ⟨rest, last, rfl⟩
    · obtain ⟨rfl, hlast⟩ := List.append_inj' heq rfl
      obtain rfl := (List.cons.inj hlast).1
      rw [hself, hbehind behind fun _ => id, ← h.used]
    · rw [List.concat_eq_append, ← List.cons_append, ← List.append_assoc] at heq
      obtain ⟨rfl, -⟩ := List.append_inj' heq rfl
      rw [hother b (by simp), hbehind before fun _ hmem => by simp [hmem]]
      exact h.each before b rest rfl

theorem settled_foldl (stored : Shortcuts) {behind : List Action} (hnodup : behind.Nodup) :
    Settled stored behind
      (behind.foldl (Preferences.validateShortcut stored) ([], OrderedMap.empty)) := by
  induction behind using List.reverseRecOn with
  | nil => exact ⟨rfl, by simp, by simp⟩
  | append_singleton behind a ih =>
      obtain ⟨hbehind, -, hnew⟩ := List.nodup_append.mp hnodup
      rw [List.foldl_append]
      exact (ih hbehind).validateShortcut fun hmem => hnew a hmem a (by simp) rfl

/-- **The chord an action ends up with**, in terms of the chords of the earlier ones. -/
theorem validated_chord (prefs : Preferences) (a : Action) :
    prefs.validated.chord a =
      chordAfter prefs.shortcuts
        (a.earlier.map fun b => (prefs.validated.chord b).normalized) a := by
  have hsettled := settled_foldl prefs.shortcuts Action.all_nodup
  have hsplit : ∃ after, Action.all = a.earlier ++ a :: after := by
    cases a <;> exact ⟨_, rfl⟩
  obtain ⟨after, hall⟩ := hsplit
  exact hsettled.each a.earlier a after hall

/-- A chord given by validation is given again. -/
theorem chordAfter_chordAfter {stored again : Shortcuts} {used : List KeyChord} {a : Action}
    (h : again.get? a = some (chordAfter stored used a)) :
    chordAfter again used a = chordAfter stored used a := by
  rw [chordAfter_some h]
  split
  · rfl
  next hdropped =>
    -- a stored chord that was given has a key and was free, so this one is the default
    cases hstored : stored.get? a with
    | none => simp [chordAfter, hstored]
    | some c =>
        rw [chordAfter_some hstored] at hdropped ⊢
        split at hdropped <;> simp_all

theorem get?_validated (prefs : Preferences) (a : Action) :
    prefs.validated.shortcuts.get? a = some (prefs.validated.chord a) := by
  have hpresent := ((settled_foldl prefs.shortcuts Action.all_nodup).present a).mpr a.mem_all
  obtain ⟨c, hc⟩ := Option.isSome_iff_exists.mp hpresent
  have hget : prefs.validated.shortcuts.get? a = some c := hc
  rw [chord, hget, Option.getD_some]

theorem validated_validated (prefs : Preferences) : prefs.validated.validated = prefs.validated := by
  have hchord : ∀ a, prefs.validated.validated.chord a = prefs.validated.chord a := by
    intro a
    induction hrank : a.rank using Nat.strong_induction_on generalizing a with
    | _ n ih =>
        subst hrank
        have hearlier : (a.earlier.map fun b => (prefs.validated.validated.chord b).normalized) =
            a.earlier.map fun b => (prefs.validated.chord b).normalized :=
          List.map_congr_left fun b hmem => by rw [ih b.rank (Action.mem_earlier.mp hmem) b rfl]
        rw [validated_chord, hearlier, validated_chord prefs]
        exact chordAfter_chordAfter ((get?_validated prefs a).trans (by rw [validated_chord]))
  have hshortcuts : prefs.validated.validated.shortcuts = prefs.validated.shortcuts := by
    refine OrderedMap.ext_get? fun a => ?_
    rw [get?_validated, get?_validated, hchord]
  have hsecs : prefs.validated.validated.clipboardClearSecs = prefs.validated.clipboardClearSecs :=
    clamp_clamp _ (by decide)
  have hstale : prefs.validated.validated.refreshStaleSecs = prefs.validated.refreshStaleSecs :=
    clamp_clamp _ (by decide)
  have hresults : prefs.validated.validated.maxResults = prefs.validated.maxResults :=
    clamp_clamp _ (by decide)
  exact Preferences.ext hsecs hstale hresults hshortcuts

variable {prefs : Preferences} {a b : Action}

/-- The action has a chord of its own stored. -/
def storedChord (prefs : Preferences) (a : Action) : Option KeyChord :=
  (prefs.shortcuts.get? a).filter fun c => c.key ≠ ""

/-- The actions whose stored chord is not used: there is none, an earlier action has the same one
stored, or an earlier action falls back to it. -/
inductive FallsBack (prefs : Preferences) : Action → Prop
  | missing {a : Action} : prefs.storedChord a = none → FallsBack prefs a
  | stored {a b : Action} {c d : KeyChord} : b < a → prefs.storedChord b = some c →
      prefs.storedChord a = some d → c.normalized = d.normalized → FallsBack prefs a
  | taken {a b : Action} {d : KeyChord} : b < a → FallsBack prefs b →
      prefs.storedChord a = some d → b.defaultChord.normalized = d.normalized → FallsBack prefs a

/-- Every stored chord that an earlier action could keep differs from the default a later action falls
back to. -/
def DefaultsFree (prefs : Preferences) : Prop :=
  ∀ a, FallsBack prefs a → ∀ b < a, ∀ c, prefs.storedChord b = some c →
    c.normalized ≠ a.defaultChord.normalized

theorem validated_chord_cases (prefs : Preferences) (a : Action) :
    (∃ c, prefs.storedChord a = some c ∧ prefs.validated.chord a = c ∧
        ∀ b < a, (prefs.validated.chord b).normalized ≠ c.normalized) ∨
      prefs.validated.chord a = a.defaultChord ∧
        (prefs.storedChord a = none ∨ ∃ c, prefs.storedChord a = some c ∧
          ∃ b < a, (prefs.validated.chord b).normalized = c.normalized) := by
  rw [validated_chord]
  cases hstored : prefs.shortcuts.get? a with
  | none => exact Or.inr ⟨by simp [chordAfter, hstored], Or.inl (by simp [storedChord, hstored])⟩
  | some c =>
      rw [chordAfter_some hstored]
      by_cases hkey : c.key = ""
      · exact Or.inr ⟨by simp [hkey], Or.inl (by simp [storedChord, hstored, hkey])⟩
      · have hown : prefs.storedChord a = some c := by simp [storedChord, hstored, hkey]
        have hused : c.normalized ∈
            a.earlier.map (fun b => (prefs.validated.chord b).normalized) ↔
              ∃ b < a, (prefs.validated.chord b).normalized = c.normalized := by
          simp only [List.mem_map, Action.mem_earlier]
        by_cases htaken : ∃ b < a, (prefs.validated.chord b).normalized = c.normalized
        · exact Or.inr ⟨if_neg fun hfree => hfree.2 (hused.mpr htaken), Or.inr ⟨c, hown, htaken⟩⟩
        · exact Or.inl ⟨c, hown, if_pos ⟨hkey, fun hmem => htaken (hused.mp hmem)⟩,
            fun b hlt heq => htaken ⟨b, hlt, heq⟩⟩

theorem fallsBack_iff : prefs.FallsBack a ↔
    (prefs.storedChord a = none ∨ ∃ c, prefs.storedChord a = some c ∧
      ∃ b < a, (prefs.validated.chord b).normalized = c.normalized) := by
  induction hrank : a.rank using Nat.strong_induction_on generalizing a with
  | _ n ih =>
      subst hrank
      constructor
      · intro h
        cases h with
        | missing hnone => exact Or.inl hnone
        | @stored _ b c d hlt hother hown hsame =>
            refine Or.inr ⟨d, hown, ?_⟩
            rcases prefs.validated_chord_cases b with ⟨c', hc', hkept, -⟩ | ⟨-, hnone | hearlier⟩
            · obtain rfl := Option.some.inj (hother.symm.trans hc')
              exact ⟨b, hlt, hkept ▸ hsame⟩
            · simp [hother] at hnone
            · obtain ⟨c', hc', first, hfirst, heq⟩ := hearlier
              obtain rfl := Option.some.inj (hother.symm.trans hc')
              exact ⟨first, hfirst.trans hlt, heq.trans hsame⟩
        | @taken _ b d hlt hfalls hown hsame =>
            refine Or.inr ⟨d, hown, b, hlt, ?_⟩
            rcases prefs.validated_chord_cases b with ⟨c, hc, -, hfree⟩ | ⟨hdefault, -⟩
            · rcases (ih b.rank hlt rfl).mp hfalls with hnone | ⟨c', hc', first, hfirst, heq⟩
              · simp [hc] at hnone
              · obtain rfl := Option.some.inj (hc.symm.trans hc')
                exact absurd heq (hfree first hfirst)
            · rw [hdefault, hsame]
      · rintro (hnone | ⟨d, hown, b, hlt, heq⟩)
        · exact .missing hnone
        · rcases prefs.validated_chord_cases b with ⟨c, hc, hkept, -⟩ | ⟨hdefault, hfell⟩
          · exact .stored hlt hc hown (hkept ▸ heq)
          · exact .taken hlt ((ih b.rank hlt rfl).mpr hfell) hown (hdefault ▸ heq)

/-- An action keeps its stored chord, which no earlier action was given, or falls back. -/
theorem kept_or_fallsBack (prefs : Preferences) (a : Action) :
    (∃ c, prefs.storedChord a = some c ∧ prefs.validated.chord a = c ∧
        ∀ b < a, (prefs.validated.chord b).normalized ≠ c.normalized) ∨
      prefs.FallsBack a ∧ prefs.validated.chord a = a.defaultChord := by
  rcases prefs.validated_chord_cases a with hkept | ⟨hdefault, hfell⟩
  · exact Or.inl hkept
  · exact Or.inr ⟨fallsBack_iff.mpr hfell, hdefault⟩

theorem chord_of_fallsBack (h : prefs.FallsBack a) : prefs.validated.chord a = a.defaultChord := by
  rcases prefs.validated_chord_cases a with ⟨c, hc, -, hfree⟩ | ⟨hdefault, -⟩
  · rcases fallsBack_iff.mp h with hnone | ⟨c', hc', b, hlt, heq⟩
    · simp [hc] at hnone
    · obtain rfl := Option.some.inj (hc.symm.trans hc')
      exact absurd heq (hfree b hlt)
  · exact hdefault

def DistinctChords (prefs : Preferences) : Prop :=
  ∀ a b, a ≠ b → (prefs.chord a).normalized ≠ (prefs.chord b).normalized

theorem distinctChords_iff
    (hdefaults : ∀ a b : Action, a ≠ b → a.defaultChord.normalized ≠ b.defaultChord.normalized) :
    prefs.validated.DistinctChords ↔ prefs.DefaultsFree := by
  constructor
  · intro h a hfalls b hlt c hc heq
    have hdefault := chord_of_fallsBack hfalls
    rcases prefs.validated_chord_cases b with ⟨c', hc', hkept, -⟩ | ⟨-, hnone | hearlier⟩
    · obtain rfl := Option.some.inj (hc.symm.trans hc')
      exact h b a hlt.ne (by rw [hkept, hdefault, heq])
    · simp [hc] at hnone
    · obtain ⟨c', hc', first, hfirst, hsame⟩ := hearlier
      obtain rfl := Option.some.inj (hc.symm.trans hc')
      exact h first a (hfirst.trans hlt).ne (by rw [hsame, hdefault, heq])
  · intro h
    have hearlier : ∀ a b, b < a →
        (prefs.validated.chord b).normalized ≠ (prefs.validated.chord a).normalized := by
      intro a b hlt
      rcases prefs.kept_or_fallsBack a with ⟨c, -, hkept, hfree⟩ | ⟨hfalls, hdefault⟩
      · rw [hkept]
        exact hfree b hlt
      · rw [hdefault]
        rcases prefs.kept_or_fallsBack b with ⟨c, hc, hkept, -⟩ | ⟨-, hdefault'⟩
        · rw [hkept]
          exact h a hfalls b hlt c hc
        · rw [hdefault']
          exact hdefaults b a hlt.ne
    intro a b hne
    rcases lt_or_gt_of_ne hne with hlt | hgt
    · exact hearlier b a hlt
    · exact (hearlier a b hgt).symm

end Validation

end Preferences

/-- What `str::to_lowercase` does to ASCII letters. -/
structure TextSupport.LowersAscii [TextSupport] : Prop where
  ascii : ∀ text : String, (∀ c ∈ text.toList, c.toNat < 128) → toLowercase text = lowered text
  ignoresCase : ∀ left right, eqIgnoreAsciiCase left right → toLowercase left = toLowercase right

namespace Preferences

theorem defaultChord_ascii (a : Action) : a.defaultChord.key.toList.all fun c => c.toNat < 128 := by
  cases a <;> rfl

section Keys

variable [TextSupport] {prefs : Preferences}

theorem defaults_distinct (hlower : TextSupport.LowersAscii) (a b : Action) (hne : a ≠ b) :
    a.defaultChord.normalized ≠ b.defaultChord.normalized := by
  have hlowered : ∀ a : Action,
      TextSupport.toLowercase a.defaultChord.key = lowered a.defaultChord.key := fun a =>
    hlower.ascii _ fun c hmem => of_decide_eq_true (List.all_eq_true.mp (defaultChord_ascii a) c hmem)
  have hnodup : (Action.all.map fun a =>
      (Modifier.sortDedup a.defaultChord.modifiers, lowered a.defaultChord.key)).Nodup := by decide
  intro heq
  refine hne (List.inj_on_of_nodup_map hnodup a.mem_all b.mem_all ?_)
  obtain ⟨hmodifiers, hkey⟩ := KeyChord.mk.inj heq
  exact Prod.ext hmodifiers ((hlowered a).symm.trans (hkey.trans (hlowered b)))

theorem normalized_eq_of_accepts (hlower : TextSupport.LowersAscii) {chord other : KeyChord}
    (h : chord.accepts other.modifiers other.key) : chord.normalized = other.normalized := by
  obtain ⟨hmodifiers, hkey⟩ := of_decide_eq_true h
  simp only [KeyChord.normalized, KeyChord.new, hmodifiers, hlower.ignoresCase _ _ hkey]

omit [TextSupport] in
/-- The one action that accepts a press is the one found. -/
theorem actionFor_eq_some {modifiers : List Modifier} {key : String} {a : Action}
    (h : ∀ b, (prefs.chord b).accepts modifiers key ↔ b = a) :
    prefs.actionFor modifiers key = some a := by
  have hfind : prefs.actionFor modifiers key = Action.all.find? fun b => b = a := by
    unfold actionFor
    congr 1
    funext b
    rw [Bool.eq_iff_iff, h, decide_eq_true_iff]
  rw [hfind]
  cases a <;> rfl

theorem actionFor_own (hlower : TextSupport.LowersAscii) (h : prefs.DistinctChords) (a : Action) :
    prefs.actionFor (prefs.chord a).modifiers (prefs.chord a).key = some a := by
  refine actionFor_eq_some fun b => ⟨fun hpressed => ?_, ?_⟩
  · by_contra hne
    exact h b a hne (normalized_eq_of_accepts hlower hpressed)
  · rintro rfl
    simp [KeyChord.accepts, eqIgnoreAsciiCase]

/-- **Every action answers to its own chord**, exactly where no default an action falls back to is
the stored chord of an earlier action. -/
theorem own_chords_iff (hlower : TextSupport.LowersAscii) (prefs : Preferences) :
    (prefs.validated.DistinctChords ∧ ∀ a, prefs.validated.actionFor
        (prefs.validated.chord a).modifiers (prefs.validated.chord a).key = some a) ↔
      prefs.DefaultsFree := by
  rw [← distinctChords_iff (defaults_distinct hlower)]
  exact ⟨And.left, fun h => ⟨h, actionFor_own hlower h⟩⟩

end Keys

section Examples

/-- Lower-cases as `str::to_lowercase` does on ASCII text, which all the chords below are. -/
abbrev asciiText : TextSupport where
  Atom := Empty
  patternAtoms _ := []
  score _ _ := none
  indices _ _ := none
  toLowercase := lowered
  toUppercase text := String.ofList (text.toList.map Char.toUpper)

attribute [local instance] asciiText

theorem asciiText_lowersAscii : TextSupport.LowersAscii where
  ascii _ _ := rfl
  ignoresCase _ _ h := congrArg String.ofList (of_decide_eq_true h)

/-- `Ctrl+U` copies the primary field; no chord is stored for the username. -/
def usernameTaken : Preferences :=
  { Preferences.default with shortcuts := OrderedMap.ofList [(.copyPrimary, .new [.ctrl] "U")] }

/-- The username's chord is the one stored for an earlier action, that of the code is stored empty,
reveal has one of its own, and the others are missing. -/
def strayChords : Preferences :=
  { Preferences.default with
    shortcuts := OrderedMap.ofList [(.copyPrimary, .new [.ctrl] "K"), (.copyUsername, .new [.ctrl] "k"),
      (.copyTotp, .new [.ctrl] ""), (.reveal, .new [.ctrl] "T")] }

theorem own_chords_iff_stray : strayChords.validated.DistinctChords ∧
    ∀ a, strayChords.validated.actionFor (strayChords.validated.chord a).modifiers
      (strayChords.validated.chord a).key = some a := by
  have hnodup : (Action.all.map fun a => (strayChords.validated.chord a).normalized).Nodup := by decide
  have hdistinct : strayChords.validated.DistinctChords := fun a b hne heq =>
    hne (List.inj_on_of_nodup_map hnodup a.mem_all b.mem_all heq)
  have hfree := (distinctChords_iff (defaults_distinct asciiText_lowersAscii)).mp hdistinct
  exact (own_chords_iff asciiText_lowersAscii strayChords).mpr hfree

theorem username_unreachable : TextSupport.LowersAscii ∧
    usernameTaken.validated.actionFor (usernameTaken.validated.chord .copyUsername).modifiers
      (usernameTaken.validated.chord .copyUsername).key = some .copyPrimary ∧
    ¬ usernameTaken.validated.DistinctChords := by
  refine ⟨asciiText_lowersAscii, by decide, fun h => ?_⟩
  exact h .copyPrimary .copyUsername (by decide) (by decide)

end Examples

end Preferences

end CosmicPass
