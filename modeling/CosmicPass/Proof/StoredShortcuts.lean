import CosmicPass.Shortcuts

/-!
# What an unknown action costs

A stored map is read whole or not at all. Under a name that is no action the value is read too, as a
chord: the entry is dropped if it is one, and fails the whole map if it is not.
-/

namespace CosmicPass

section Stored

variable {ω : Type} {chord : ω → Option KeyChord} {entries : List (String × ω)}
  {shortcuts stored : Shortcuts}

/-- The chord of the last entry that names the action. -/
def lastChord (chord : ω → Option KeyChord) (entries : List (String × ω)) (action : Action) :
    Option KeyChord :=
  entries.reverse.findSome? fun entry =>
    if Action.ofName entry.1 = some action then chord entry.2 else none

def KnownAreChords (chord : ω → Option KeyChord) (entries : List (String × ω)) : Prop :=
  ∀ entry ∈ entries, Action.ofName entry.1 ≠ none → (chord entry.2).isSome

def UnknownAreChords (chord : ω → Option KeyChord) (entries : List (String × ω)) : Prop :=
  ∀ entry ∈ entries, Action.ofName entry.1 = none → (chord entry.2).isSome

theorem isSome_visitMap :
    (visitMap chord shortcuts entries).isSome ↔ ∀ entry ∈ entries, (chord entry.2).isSome := by
  induction entries generalizing shortcuts with
  | nil => simp [visitMap]
  | cons entry rest ih =>
      obtain ⟨name, value⟩ := entry
      rw [List.forall_mem_cons]
      cases hchord : chord value with
      | none => simp [visitMap, hchord]
      | some chordRead => cases hname : Action.ofName name <;> simp [visitMap, hchord, hname, ih]

theorem lastChord_cons (entry : String × ω) (rest : List (String × ω)) (action : Action) :
    lastChord chord (entry :: rest) action =
      (lastChord chord rest action).or
        (if Action.ofName entry.1 = some action then chord entry.2 else none) := by
  rw [lastChord, List.reverse_cons, List.findSome?_append, List.findSome?_singleton]
  rfl

/-- Of the entries that name an action the last one is kept. -/
theorem get?_visitMap (h : visitMap chord shortcuts entries = some stored) (action : Action) :
    stored.get? action = (lastChord chord entries action).or (shortcuts.get? action) := by
  induction entries generalizing shortcuts with
  | nil =>
      obtain rfl := Option.some.inj h
      rfl
  | cons entry rest ih =>
      obtain ⟨name, value⟩ := entry
      rw [lastChord_cons, Option.or_assoc]
      cases hchord : chord value with
      | none => simp [visitMap, hchord] at h
      | some chordRead =>
          cases hname : Action.ofName name with
          | none =>
              simp only [visitMap, hchord, hname] at h
              simpa [hname] using ih h
          | some named =>
              simp only [visitMap, hchord, hname] at h
              rw [ih h, OrderedMap.get?_insert]
              by_cases hsame : named = action
              · simp [hsame]
              · simp [hsame, Ne.symm hsame]

/-- **An unknown action costs only its own entry exactly where its value is a chord.** -/
theorem unknown_action_costs_its_entry_iff (hknown : KnownAreChords chord entries) :
    (∃ stored, deserializeShortcuts chord entries = some stored ∧
      ∀ action, stored.get? action = lastChord chord entries action) ↔
      UnknownAreChords chord entries := by
  have hsome : (deserializeShortcuts chord entries).isSome ↔
      ∀ entry ∈ entries, (chord entry.2).isSome := isSome_visitMap
  constructor
  · rintro ⟨stored, hstored, -⟩ entry hmem -
    exact hsome.mp (hstored ▸ rfl) entry hmem
  · intro hunknown
    have hall : ∀ entry ∈ entries, (chord entry.2).isSome := by
      intro entry hmem
      by_cases hname : Action.ofName entry.1 = none
      · exact hunknown entry hmem hname
      · exact hknown entry hmem hname
    obtain ⟨stored, hstored⟩ := Option.isSome_iff_exists.mp (hsome.mpr hall)
    refine ⟨stored, hstored, fun action => ?_⟩
    rw [get?_visitMap hstored, OrderedMap.get?_empty, Option.or_none]

end Stored

/-! ### A map in JSON -/

/-- A rebound chord, and under a name of another version what `value` is. -/
def storedWith (value : Json) : List (String × Json) :=
  [("open_detail", value),
    ("refresh", .object [("modifiers", .array []), ("key", .string "F7")])]

theorem knownAreChords_storedWith (value : Json) :
    KnownAreChords KeyChord.decode (storedWith value) := by
  intro entry hmem hname
  rw [storedWith, List.mem_pair] at hmem
  obtain rfl | rfl := hmem
  · exact absurd rfl hname
  · rfl

def removedChord : Json :=
  .object [("modifiers", .array [.string "Ctrl"]), ("key", .string "i")]

theorem removed_action_costs_its_entry :
    (∃ stored, deserializeShortcuts KeyChord.decode (storedWith removedChord) = some stored ∧
      ∀ action, stored.get? action = lastChord KeyChord.decode (storedWith removedChord) action) ↔
      UnknownAreChords KeyChord.decode (storedWith removedChord) :=
  unknown_action_costs_its_entry_iff (knownAreChords_storedWith removedChord)

/-- An action of another version that is off loses every chord that is set. -/
theorem switched_off_action_loses_every_chord :
    KnownAreChords KeyChord.decode (storedWith .null) ∧
    lastChord KeyChord.decode (storedWith .null) .refresh = some { modifiers := [], key := "F7" } ∧
    deserializeShortcuts KeyChord.decode (storedWith .null) = none :=
  ⟨knownAreChords_storedWith _, rfl, rfl⟩

end CosmicPass
