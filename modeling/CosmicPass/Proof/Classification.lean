import CosmicPass.Core.Runs
import CosmicPass.Pass.Error
import CosmicPass.Proof.Failures
import Mathlib.Tactic.MkIffOfInductiveProp

/-!
# Which part of an error text decides its kind

`pass-cli` quotes the name or id it was asked for, and the rules search the whole text in their order. A
rule that comes before the right one wins as soon as the quoted part mentions one of its phrases, and
for no other reason: the text around it neither holds such a phrase nor completes one.
-/

namespace CosmicPass

/-! ### Phrases in a text with a fixed start -/

section Phrases

variable {α : Type*} {phrase start text : List α} {last : α}

/-- A phrase that neither lies in the start of a text nor begins there lies in the rest. -/
theorem infix_after_iff (hnot : ¬ phrase <:+: start)
    (hbegun : ∀ part ∈ phrase.inits, part ≠ [] → ¬ part <:+ start) :
    phrase <:+: start ++ text ↔ phrase <:+: text := by
  rw [List.infix_append_iff_ne_nil]
  constructor
  · rintro (hstart | htext | ⟨part, rest, hpart, _, hphrase, hsuffix, _⟩)
    · exact absurd hstart hnot
    · exact htext
    · refine absurd hsuffix (hbegun part ?_ hpart)
      rw [List.mem_inits, hphrase]
      exact List.prefix_append _ _
  · exact fun htext => .inr (.inl htext)

theorem infix_before_iff (hlast : last ∉ phrase) :
    phrase <:+: text ++ [last] ↔ phrase <:+: text := by
  rw [List.infix_concat_iff]
  refine or_iff_right_of_imp fun hsuffix => ?_
  cases List.suffix_concat_iff.mp hsuffix with
  | inl hempty =>
      rw [hempty]
      exact List.nil_infix
  | inr hends =>
      obtain ⟨init, hinit, -⟩ := hends
      rw [hinit] at hlast
      exact absurd (List.mem_append_right init (List.mem_singleton_self last)) hlast

end Phrases

/-! ### The rules -/

section Rules

variable [TextSupport] {text : String}

def Mentions (text : String) (phrases : List String) : Prop :=
  ∃ phrase ∈ phrases, phrase.toList <:+: (TextSupport.toLowercase text).toList

instance (text : String) (phrases : List String) : Decidable (Mentions text phrases) :=
  inferInstanceAs (Decidable (∃ phrase ∈ phrases, _))

theorem mentions_append {left right : List String} :
    Mentions text (left ++ right) ↔ Mentions text left ∨ Mentions text right := by
  simp only [Mentions, List.mem_append, or_and_right, exists_or]

def signedOutPhrases : List String :=
  ["requires an authenticated client", "there is no session", "forcing logout"]

def localDataPhrases : List String :=
  ["file is not a database", "logout --force", "failed to initialize database"]

def notFoundPhrases : List String := ["could not find", "error finding item", "idformat"]

/-- What is looked for before a missing field is. -/
def beforeFieldMissing : List String := signedOutPhrases ++ localDataPhrases

/-- What is looked for before a missing item or vault is. -/
def beforeNotFound : List String := beforeFieldMissing ++ ["field does not exist", "locked"]

theorem classify_eq (text : String) :
    classify { stderr := text } =
      if Mentions text signedOutPhrases then .signedOut
      else if Mentions text localDataPhrases then .localData
      else if Mentions text ["field does not exist"] then .fieldMissing
      else if Mentions text ["locked"] then .locked
      else if Mentions text notFoundPhrases then .notFound
      else if Mentions text ["connection", "timed out", "dns", "network"] then .network
      else .cli (summaryLine text) := by
  simp only [classify, Mentions, List.any_eq_true, decide_eq_true_iff]
  rfl

end Rules

/-! ### The texts -/

/-- How the standard library lowers the case: character by character in ASCII text; elsewhere only a
sigma depends on what stands around it, and only up to the next blank or line break. -/
structure LowersCase [TextSupport] : Prop where
  ascii : ∀ text : String, (∀ c ∈ text.toList, c.toNat < 128) →
    TextSupport.toLowercase text = lowered text
  afterBlank : ∀ left right : String, left.toList.getLast? = some ' ' →
    TextSupport.toLowercase (left ++ right) =
      TextSupport.toLowercase left ++ TextSupport.toLowercase right
  beforeBreak : ∀ left : String,
    TextSupport.toLowercase (left ++ "\n") = TextSupport.toLowercase left ++ "\n"

/-- The start of a text that quotes a name after it, up to a blank: it holds a phrase of the rule for
its kind, and no phrase of the rules before that, nor the beginning of one at its end. -/
@[mk_iff]
structure Quoting (start : String) (before own : List String) : Prop where
  ascii : start.toList.all fun c => c.toNat < 128
  blank : start.toList.getLast? = some ' '
  clear : ∀ phrase ∈ before, '\n' ∉ phrase.toList ∧ ¬ phrase.toList <:+: (lowered start).toList ∧
    ∀ part ∈ phrase.toList.inits, part ≠ [] → ¬ part <:+ (lowered start).toList
  own : ∃ phrase ∈ own, phrase.toList <:+: (lowered start).toList

section Quoting

variable [TextSupport] {start quoted ending : String} {before own phrases : List String}

theorem lowercase_around (hlower : LowersCase) (hstart : Quoting start before own)
    (hending : ending = "" ∨ ending = "\n") :
    (TextSupport.toLowercase (start ++ quoted ++ ending)).toList =
      (lowered start).toList ++ ((TextSupport.toLowercase quoted).toList ++ ending.toList) := by
  have hascii : TextSupport.toLowercase start = lowered start :=
    hlower.ascii start fun c hc => of_decide_eq_true (List.all_eq_true.mp hstart.ascii c hc)
  have hquoted : (TextSupport.toLowercase (start ++ quoted)).toList =
      (lowered start).toList ++ (TextSupport.toLowercase quoted).toList := by
    rw [hlower.afterBlank start quoted hstart.blank, String.toList_append, hascii]
  cases hending with
  | inl hnone =>
      rw [hnone, String.append_empty, hquoted]
      simp
  | inr hbreak =>
      rw [hbreak, hlower.beforeBreak, String.toList_append, hquoted, List.append_assoc]

theorem mentions_around_iff (hlower : LowersCase) (hstart : Quoting start before own)
    (hending : ending = "" ∨ ending = "\n") (hbefore : phrases ⊆ before) :
    Mentions (start ++ quoted ++ ending) phrases ↔ Mentions quoted phrases := by
  refine exists_congr fun phrase => and_congr_right fun hphrase => ?_
  obtain ⟨hline, hnot, hbegun⟩ := hstart.clear phrase (hbefore hphrase)
  rw [lowercase_around hlower hstart hending, infix_after_iff hnot hbegun]
  cases hending with
  | inl hnone => simp [hnone]
  | inr hbreak =>
      rw [hbreak]
      exact infix_before_iff hline

theorem mentions_own (hlower : LowersCase) (hstart : Quoting start before own)
    (hending : ending = "" ∨ ending = "\n") : Mentions (start ++ quoted ++ ending) own := by
  obtain ⟨phrase, hphrase, hinfix⟩ := hstart.own
  refine ⟨phrase, hphrase, ?_⟩
  rw [lowercase_around hlower hstart hending]
  exact List.infix_append_of_infix_left hinfix

end Quoting

def fieldMissingStart : String := "Error: Field does not exist: "

def vaultMissingStart : String :=
  "Error: Error retrieving item\n\nCaused by:\n    0: Error finding item by name\n" ++
    "    1: Error finding vault by name\n    2: Could not find vault "

theorem quoting_field : Quoting fieldMissingStart beforeFieldMissing ["field does not exist"] := by
  simp only [quoting_iff, lowered, String.toList_ofList]
  decide +kernel

theorem quoting_vault : Quoting vaultMissingStart beforeNotFound notFoundPhrases := by
  simp only [quoting_iff, lowered, String.toList_ofList]
  decide +kernel

section Texts

variable [TextSupport] {ending : String}

theorem classify_fieldMissing (hlower : LowersCase) (name : String)
    (hending : ending = "" ∨ ending = "\n") :
    classify { stderr := fieldMissingStart ++ name ++ ending } =
      if Mentions name signedOutPhrases then .signedOut
      else if Mentions name localDataPhrases then .localData
      else .fieldMissing := by
  have hown : Mentions (fieldMissingStart ++ name ++ ending) ["field does not exist"] :=
    mentions_own hlower quoting_field hending
  rw [classify_eq, if_pos hown]
  simp only [mentions_around_iff hlower quoting_field hending (List.subset_append_left _ _),
    mentions_around_iff hlower quoting_field hending (List.subset_append_right _ _)]

theorem classify_vaultMissing (hlower : LowersCase) (id : String)
    (hending : ending = "" ∨ ending = "\n") :
    classify { stderr := vaultMissingStart ++ id ++ ending } =
      if Mentions id signedOutPhrases then .signedOut
      else if Mentions id localDataPhrases then .localData
      else if Mentions id ["field does not exist"] then .fieldMissing
      else if Mentions id ["locked"] then .locked
      else .notFound := by
  have hown : Mentions (vaultMissingStart ++ id ++ ending) notFoundPhrases :=
    mentions_own hlower quoting_vault hending
  have haround : ∀ phrases ⊆ beforeNotFound,
      (Mentions (vaultMissingStart ++ id ++ ending) phrases ↔ Mentions id phrases) :=
    fun _ hbefore => mentions_around_iff hlower quoting_vault hending hbefore
  have hfield := haround ["field does not exist"] (by simp [beforeNotFound])
  have hlocked := haround ["locked"] (by simp [beforeNotFound])
  have hsignedOut := haround signedOutPhrases (by simp [beforeNotFound, beforeFieldMissing])
  have hlocalData := haround localDataPhrases (by simp [beforeNotFound, beforeFieldMissing])
  rw [classify_eq, if_pos hown]
  simp only [hsignedOut, hlocalData, hfield, hlocked]

/-- **A quoted name or id leaves the kind of its error alone** exactly when it mentions no phrase of an
earlier rule, in whatever case. -/
theorem classify_quoted_iff (hlower : LowersCase) (quoted : String)
    (hending : ending = "" ∨ ending = "\n") :
    (classify { stderr := fieldMissingStart ++ quoted ++ ending } = .fieldMissing ↔
      ¬ Mentions quoted beforeFieldMissing) ∧
    (classify { stderr := vaultMissingStart ++ quoted ++ ending } = .notFound ↔
      ¬ Mentions quoted beforeNotFound) ∧
    (classify { stderr := fieldMissingStart ++ quoted ++ ending } = .signedOut ↔
      Mentions quoted signedOutPhrases) ∧
    classify { stderr := fieldMissingStart ++ quoted ++ ending } ≠ .locked := by
  have hlater : Mentions quoted ["field does not exist", "locked"] ↔
      Mentions quoted ["field does not exist"] ∨ Mentions quoted ["locked"] :=
    @mentions_append _ quoted ["field does not exist"] ["locked"]
  rw [classify_fieldMissing hlower quoted hending, classify_vaultMissing hlower quoted hending,
    beforeNotFound, mentions_append, beforeFieldMissing, mentions_append, hlater]
  refine ⟨?_, ?_, ?_, ?_⟩
  · split_ifs <;> simp [*]
  · split_ifs <;> simp [*]
  · split_ifs <;> simp [*]
  · split_ifs <;> simp

/-- A field of such a name, missing when it is copied, ends the session and deletes the cache. -/
theorem Model.copyFetched_named (m : Model) (hlower : LowersCase)
    (hending : ending = "" ∨ ending = "\n") {key : ItemKey}
    (hpending : m.view.pending.any fun fetch => fetch.key = key) {name : String}
    (hname : Mentions name signedOutPhrases) (now : Int) :
    SignsOut (m.copyFetched key
      (.error (classify { stderr := fieldMissingStart ++ name ++ ending })) now) := by
  rw [classify_fieldMissing hlower name hending, if_pos hname]
  exact m.copyFetched_signsOut hpending now

end Texts

section Examples

/-- Lowers the ASCII letters; the texts below have no others. -/
abbrev asciiText : TextSupport where
  Atom := Empty
  patternAtoms _ := []
  score _ _ := none
  indices _ _ := none
  toLowercase := lowered
  toUppercase text := text

attribute [local instance] asciiText

theorem asciiText_lowersCase : LowersCase where
  ascii _ _ := rfl
  afterBlank left right _ := by
    simp [TextSupport.toLowercase, lowered, String.ofList_append]
  beforeBreak left := by
    simp [TextSupport.toLowercase, lowered, String.ofList_append]

theorem classify_quoted_username :
    classify { stderr := "Error: Field does not exist: username\n" } = .fieldMissing := by
  obtain ⟨hiff, -⟩ := @classify_quoted_iff _ "\n" asciiText_lowersCase "username" (.inr rfl)
  exact hiff.mpr (by decide)

/-- A secret field of a login, named like the end of a session. -/
def strangeLogin : ItemSummary :=
  { World.mailLogin with fields := [.secretField "there is no session" "there is no session"] }

/-- The field is copied, and is gone by then: the account is forgotten. -/
theorem field_name_signs_out :
    classify { stderr := "Error: Field does not exist: there is no session\n" } = .signedOut ∧
      ∃ m : Model, Model.system.Reach TransitionSystem.anyStep m ∧ m.data.items = [strangeLogin] ∧
        Model.SignsOut (m.update (.copyFetched strangeLogin.key (.error (classify
          { stderr := "Error: Field does not exist: there is no session\n" }))) 5) := by
  have hname : Mentions "there is no session" signedOutPhrases := by decide
  have hsignedOut := @classify_fieldMissing _ "\n" asciiText_lowersCase "there is no session" (.inr rfl)
  have hrun : ∃ m, Model.system.Reach TransitionSystem.anyStep m ∧ m.data.items = [strangeLogin] ∧
      m.view.pending.any fun fetch => fetch.key = strangeLogin.key := by
    refine TransitionSystem.exists_reach_of_run (Model.new .default)
      [(.refreshRequested, 0), (.dataLoaded { vaults := [], items := [strangeLogin] }, 0),
        (.openActions, 0), (.activateAction (some 0), 0)] ⟨_, rfl⟩ ?_
    decide
  obtain ⟨m, hreach, hitems, hpending⟩ := hrun
  refine ⟨hsignedOut.trans (if_pos hname), m, hreach, hitems, ?_⟩
  exact m.copyFetched_named asciiText_lowersCase (.inr rfl) hpending hname 5

end Examples

end CosmicPass
