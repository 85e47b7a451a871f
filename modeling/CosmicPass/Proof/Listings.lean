import CosmicPass.Pass.Backend

/-!
# Listing every vault

`list_all` asks for the vaults, and then for the items of all of them at once. Whatever order the
answers come back in, it returns what asking for them one after the other would return, and fails
where that fails, with the failure of one of the calls. Every item it returns comes from an entry of
one vault's listing, which it is named after.
-/

namespace CosmicPass

/-! ### Whose an item is -/

section Owners

/-- Filling in what an item has does not change whose it is. -/
def SameOwner (s s' : ItemSummary) : Prop := s'.key = s.key ∧ s'.vaultName = s.vaultName

namespace SameOwner

variable {s t u : ItemSummary}

theorem refl (s : ItemSummary) : SameOwner s s := ⟨rfl, rfl⟩

theorem trans (h : SameOwner s t) (h' : SameOwner t u) : SameOwner s u :=
  ⟨h'.1.trans h.1, h'.2.trans h.2⟩

theorem foldl {α : Type} {f : ItemSummary → α → ItemSummary} (hf : ∀ s a, SameOwner s (f s a))
    (l : List α) (s : ItemSummary) : SameOwner s (l.foldl f s) := by
  induction l generalizing s with
  | nil => exact refl s
  | cons a rest ih => exact (hf s a).trans (ih (f s a))

end SameOwner

theorem sameOwner_secretIf (s : ItemSummary) (present : NonEmpty) (name label : String) :
    SameOwner s (secretIf s present name label) := by
  unfold secretIf
  split <;> exact ⟨rfl, rfl⟩

theorem sameOwner_plainIf (s : ItemSummary) (value : Option String) (name label : String) :
    SameOwner s (plainIf s value name label) := by
  unfold plainIf
  split <;> exact ⟨rfl, rfl⟩

theorem sameOwner_unstoredIf (s : ItemSummary) (present : List String)
    (members : List (String × String)) : SameOwner s (unstoredIf s present members) := by
  refine .foldl (fun s member => ?_) members s
  split <;> exact ⟨rfl, rfl⟩

theorem sameOwner_customFieldsIn (s : ItemSummary) (section? : Option String)
    (raw : List RawCustomField) : SameOwner s (customFieldsIn s section? raw) := by
  refine .foldl (fun s field => ?_) raw s
  split <;> exact ⟨rfl, rfl⟩

theorem sameOwner_sectionFields (s : ItemSummary) (sections : List RawSection) :
    SameOwner s (sectionFields s sections) := by
  unfold sectionFields
  exact .foldl (fun s sec => sameOwner_customFieldsIn s sec.sectionName sec.sectionFields) sections s

theorem sameOwner_websites (s : ItemSummary) (i : Nat) (urls : List String) :
    SameOwner s (websites s i urls) := by
  induction urls generalizing s i with
  | nil => exact .refl s
  | cons url rest ih => exact .trans ⟨rfl, rfl⟩ (ih _ (i + 1))

theorem sameOwner_identity (b : IdentityBody) (s : ItemSummary) : SameOwner s (b.fill s) := by
  have hdocuments : ∀ s : ItemSummary, SameOwner s (documentMembers.foldl
      (fun s member => secretIf s ⟨member.1 ∈ b.present⟩ member.1 member.2) s) :=
    .foldl (fun s member => sameOwner_secretIf s _ member.1 member.2) documentMembers
  unfold IdentityBody.fill
  refine .trans ?_ ⟨rfl, rfl⟩
  refine .trans ?_ (sameOwner_sectionFields _ _)
  refine .trans ?_ (sameOwner_customFieldsIn _ _ _)
  refine .trans ?_ (sameOwner_unstoredIf _ _ _)
  refine .trans ?_ (sameOwner_customFieldsIn _ _ _)
  refine .trans ?_ (sameOwner_unstoredIf _ _ _)
  refine .trans ?_ (hdocuments _)
  refine .trans ?_ (sameOwner_customFieldsIn _ _ _)
  refine .trans ?_ (sameOwner_unstoredIf _ _ _)
  refine .trans ?_ (sameOwner_customFieldsIn _ _ _)
  refine .trans ?_ (sameOwner_unstoredIf _ _ _)
  exact (sameOwner_plainIf s _ _ _).trans (sameOwner_plainIf _ _ _ _)

theorem sameOwner_kind (content : KindContent) (s : ItemSummary) : SameOwner s (content.fill s) := by
  cases content with
  | login b =>
      simp only [KindContent.fill]
      refine .trans ?_ ⟨rfl, rfl⟩
      have htotp : ∀ s : ItemSummary,
          SameOwner s (if b.totpUri.present then pushTotp s "totp_uri" else s) := by
        intro s
        split <;> exact ⟨rfl, rfl⟩
      refine .trans ?_ (htotp _)
      refine .trans ?_ (sameOwner_websites _ _ _)
      refine .trans ?_ (sameOwner_secretIf _ _ _ _)
      refine .trans ?_ (sameOwner_plainIf _ _ _ _)
      exact .trans ⟨rfl, rfl⟩ (sameOwner_plainIf _ _ _ _)
  | card b =>
      simp only [KindContent.fill]
      refine .trans ?_ ⟨rfl, rfl⟩
      refine .trans ?_ (sameOwner_secretIf _ _ _ _)
      refine .trans ?_ (sameOwner_secretIf _ _ _ _)
      refine .trans ?_ (sameOwner_plainIf _ _ _ _)
      refine .trans ?_ (sameOwner_plainIf _ _ _ _)
      exact .trans ⟨rfl, rfl⟩ (sameOwner_secretIf _ _ _ _)
  | identity b => exact .trans ⟨rfl, rfl⟩ (sameOwner_identity b _)
  | wifi b =>
      simp only [KindContent.fill]
      refine .trans ?_ (sameOwner_sectionFields _ _)
      refine .trans ?_ ⟨rfl, rfl⟩
      refine .trans ?_ (sameOwner_plainIf _ _ _ _)
      exact .trans ⟨rfl, rfl⟩ (sameOwner_secretIf _ _ _ _)
  | ssh b =>
      simp only [KindContent.fill]
      refine .trans ?_ (sameOwner_sectionFields _ _)
      refine .trans ?_ (sameOwner_plainIf _ _ _ _)
      exact .trans ⟨rfl, rfl⟩ (sameOwner_secretIf _ _ _ _)
  | custom b => exact .trans ⟨rfl, rfl⟩ (sameOwner_sectionFields _ _)
  | note | «alias» | unknown | missing => exact ⟨rfl, rfl⟩

theorem sameOwner_content (c : RawContent) (s : ItemSummary) : SameOwner s (c.fill s) := by
  unfold RawContent.fill
  dsimp only
  refine .trans (.trans ⟨rfl, rfl⟩ (sameOwner_kind c.content { s with title := c.title })) ?_
  refine .trans (sameOwner_customFieldsIn _ none c.extraFields) ?_
  split
  · split <;> exact ⟨rfl, rfl⟩
  · exact .refl _

theorem sameOwner_filled (content : Option RawContent) (s : ItemSummary) :
    SameOwner s (match content with
      | some content => content.fill s
      | none => s) := by
  cases content with
  | some content => exact sameOwner_content content s
  | none => exact .refl s

/-- An item is named after the vault it is listed in; its share is its own if it names one. -/
theorem owner_intoSummary (i : RawItem) (share : ShareId) (vaultName : String) :
    (i.intoSummary share vaultName).vaultName = vaultName ∧
      (i.intoSummary share vaultName).key = ⟨(i.shareId.map ShareId.mk).getD share, ⟨i.id⟩⟩ :=
  ⟨(sameOwner_filled i.content _).2, (sameOwner_filled i.content _).1⟩

/-- The item was made from this entry of the vault's listing, and is still there. -/
def ItemSummary.ListedBy (item : ItemSummary) (vault : Vault) (entry : RawItem) : Prop :=
  item = entry.intoSummary vault.shareId vault.name ∧ eqIgnoreAsciiCase entry.state "trashed" = false ∧
    item.vaultName = vault.name ∧ item.key.item = ⟨entry.id⟩ ∧
    item.key.share = (entry.shareId.map ShareId.mk).getD vault.shareId

theorem listedBy_of_parseItems {readJson : List UInt8 → Option Json} {bytes : List UInt8}
    {vault : Vault} {items : List ItemSummary} {item : ItemSummary}
    (hparse : parseItems readJson bytes vault.shareId vault.name = .ok items) (hmem : item ∈ items) :
    ∃ entries, (readJson bytes).bind decodeItemList = some entries ∧
      ∃ entry ∈ entries, item.ListedBy vault entry := by
  unfold parseItems at hparse
  split at hparse
  next entries hentries =>
    obtain rfl := Except.ok.inj hparse
    obtain ⟨entry, hentry, rfl⟩ := List.mem_map.mp hmem
    obtain ⟨hentry, hstate⟩ := List.mem_filter.mp hentry
    obtain ⟨hvault, hkey⟩ := owner_intoSummary entry vault.shareId vault.name
    refine ⟨entries, hentries, entry, hentry, rfl, by simpa using hstate, hvault, ?_, ?_⟩ <;> rw [hkey]
  next => simp at hparse

end Owners

/-! ### The listing -/

namespace PassCli

variable (run : List String → Except PassError Output) (readJson : List UInt8 → Option Json)

/-- The vaults asked for one after the other. -/
def listAllInTurn : Except PassError Listing := do
  let vaults ← vaults run readJson
  let perVault ← vaults.mapM (itemsOf run readJson)
  pure (listingOf vaults perVault)

end PassCli

namespace ListAll

open PassCli

variable {run : List String → Except PassError Output} {readJson : List UInt8 → Option Json}
  {s s' : ListAll} {guard : ListAll → ListAllEvent → Prop}

/-- The join that is under way is a run of the join of the vaults' listings. -/
def Joins (run : List String → Except PassError Output) (readJson : List UInt8 → Option Json) :
    ListAll → Prop
  | .start => True
  | .joining vs join => vaults run readJson = .ok vs ∧
      (TryJoin.system (outcomes run readJson vs)).Reach TransitionSystem.anyStep join ∧ join.result = none
  | .returned result => (∃ error, vaults run readJson = .error error ∧ result = .error error) ∨
      ∃ vs join joined, vaults run readJson = .ok vs ∧
        (TryJoin.system (outcomes run readJson vs)).Reach TransitionSystem.anyStep join ∧
        join.result = some joined ∧ result = joined.map (listingOf vs)

theorem joins_of_reach (h : (system run readJson).Reach guard s) : s.Joins run readJson := by
  apply h.invariant
  · rintro _ rfl
    trivial
  · intro s e s' _ _ hstep hjoins
    simp only [system] at hstep
    cases s with
    | start =>
        cases e with
        | vaults =>
            simp only [step] at hstep
            split at hstep
            next error herror =>
              obtain rfl := Option.some.inj hstep
              exact Or.inl ⟨error, herror, rfl⟩
            next vs hvaults =>
              obtain rfl := Option.some.inj hstep
              exact ⟨hvaults, .start rfl, rfl⟩
        | join event => simp [step] at hstep
    | joining vs join =>
        cases e with
        | vaults => simp [step] at hstep
        | join event =>
            obtain ⟨join', hjoin, rfl⟩ := Option.map_eq_some_iff.mp hstep
            obtain ⟨hvaults, hreach, -⟩ := hjoins
            have hreach' := TransitionSystem.Reach.next hreach trivial hjoin
            unfold joined
            split
            next hopen => exact ⟨hvaults, hreach', hopen⟩
            next result hresult => exact Or.inr ⟨vs, join', result, hvaults, hreach', hresult, rfl⟩
    | returned result => cases e <;> simp [step] at hstep

/-- **Asked for at once or in turn.** Whatever order the listings come back in, `list_all` returns
the listing that asking for one vault after the other returns, and fails just where that fails, with
the failure of one of its calls. Every item it returns was made from an entry of one vault's listing
that is not in the trash, and is named after that vault. -/
theorem returned_of_reach {result : Except PassError Listing}
    (h : (system run readJson).Reach guard (.returned result)) :
    (∀ listing, result = .ok listing ↔ listAllInTurn run readJson = .ok listing) ∧
      (∀ error, result = .error error → vaults run readJson = .error error ∨
        ∃ vs, vaults run readJson = .ok vs ∧ ∃ vault ∈ vs, itemsOf run readJson vault = .error error) ∧
      ∀ listing, result = .ok listing → ∀ item ∈ listing.items, ∃ vault ∈ listing.vaults,
        ∃ out entries entry, run (Argv.itemList vault.shareId.id) = .ok out ∧
          (readJson out.stdout).bind decodeItemList = some entries ∧ entry ∈ entries ∧
          item.ListedBy vault entry := by
  rcases joins_of_reach h with ⟨error, hvaults, rfl⟩ | ⟨vs, join, joined, hvaults, hreach, hresult, rfl⟩
  · refine ⟨fun listing => ?_, fun other hother => Or.inl ?_, by simp⟩
    · simp [listAllInTurn, hvaults, bind, Except.bind]
    · rw [hvaults, Except.error.inj hother]
  · obtain ⟨hvalues, hfailed⟩ := TryJoin.result_of_reach hreach hresult
    have hturn : listAllInTurn run readJson =
        ((outcomes run readJson vs).mapM id).map (listingOf vs) := by
      rw [listAllInTurn, hvaults, outcomes, List.mapM_map]
      rfl
    refine ⟨fun listing => ?_, fun error herror => ?_, fun listing hlisting item hmem => ?_⟩
    · rw [hturn]
      cases joined with
      | ok perVault => rw [(hvalues perVault).mp rfl]
      | error error =>
          cases hrun : (outcomes run readJson vs).mapM id with
          | ok perVault => exact absurd ((hvalues perVault).mpr hrun) (by simp)
          | error other => simp [Except.map]
    · cases joined with
      | ok perVault => simp [Except.map] at herror
      | error other =>
          obtain ⟨vault, hvault, heq⟩ := List.mem_map.mp (hfailed other rfl)
          obtain rfl := Except.error.inj herror
          exact Or.inr ⟨vs, hvaults, vault, hvault, heq⟩
    · cases joined with
      | error error => simp [Except.map] at hlisting
      | ok perVault =>
          obtain rfl := Except.ok.inj hlisting
          have hall := TryJoin.mapM_id_eq_ok.mp ((hvalues perVault).mp rfl)
          obtain ⟨items, hitems, hitem⟩ := List.mem_flatten.mp hmem
          -- The items of one vault, and the call that returned them.
          have houtcome : .ok items ∈ outcomes run readJson vs :=
            hall ▸ List.mem_map.mpr ⟨items, hitems, rfl⟩
          obtain ⟨vault, hvault, heq⟩ := List.mem_map.mp houtcome
          unfold itemsOf at heq
          cases hout : run (Argv.itemList vault.shareId.id) with
          | error error => simp [hout, Except.bind] at heq
          | ok out =>
              simp only [hout, Except.bind] at heq
              obtain ⟨entries, hentries, entry, hentry, hlisted⟩ := listedBy_of_parseItems heq hitem
              exact ⟨vault, hvault, out, entries, entry, hout, hentries, hentry, hlisted⟩

/-- The calls still to come back, and the result. -/
def pending (run : List String → Except PassError Output) (readJson : List UInt8 → Option Json) :
    ListAll → Nat
  | .start => (vaults run readJson).toOption.elim 1 fun vs => vs.length + 2
  | .joining _ join => join.pending
  | .returned _ => 0

theorem pending_lt_of_step {e : ListAllEvent} (hstep : (system run readJson).step s e = some s') :
    s'.pending run readJson < s.pending run readJson := by
  simp only [system] at hstep
  cases s with
  | start =>
      cases e with
      | vaults =>
          simp only [step] at hstep
          split at hstep
          next error herror =>
            obtain rfl := Option.some.inj hstep
            simp [pending, herror, Except.toOption]
          next vs hvaults =>
            obtain rfl := Option.some.inj hstep
            simp only [pending, hvaults, Except.toOption, Option.elim_some, TryJoin.pending,
              TryJoin.start, outcomes, Option.isNone_none, Bool.toNat_true]
            have hcount := List.countP_le_length
              (p := fun answer : Option (Except PassError (List ItemSummary)) => answer.isNone)
              (l := (vs.map (itemsOf run readJson)).map fun _ => none)
            simp only [List.length_map] at hcount
            omega
      | join event => simp [step] at hstep
  | joining vs join =>
      cases e with
      | vaults => simp [step] at hstep
      | join event =>
          obtain ⟨join', hjoin, rfl⟩ := Option.map_eq_some_iff.mp hstep
          have hless := TryJoin.pending_lt_of_step hjoin
          unfold joined
          split
          · exact hless
          · exact Nat.zero_lt_of_lt hless
  | returned result => cases e <;> simp [step] at hstep

/-- **It returns.** Whatever order its calls come back in, `list_all` takes no more steps than there
are vaults and two, and can take another until it has returned. -/
theorem list_all_returns (h : (system run readJson).Reach guard s) {events : List ListAllEvent}
    (hrun : (system run readJson).run TransitionSystem.anyStep s events = some s') :
    events.length + s'.pending run readJson ≤ s.pending run readJson ∧
      ((∃ result, s' = .returned result) ∨ ∃ e, (step run readJson s' e).isSome) := by
  have hbound : events.length + s'.pending run readJson ≤ s.pending run readJson :=
    TransitionSystem.length_le_of_run (fun _ _ _ _ hstep => pending_lt_of_step hstep) hrun
  refine ⟨hbound, ?_⟩
  have hreach : (system run readJson).Reach TransitionSystem.anyStep s' :=
    (h.mono fun _ _ _ => trivial).run hrun
  have hjoins := joins_of_reach hreach
  cases s' with
  | start =>
      refine Or.inr ⟨.vaults, ?_⟩
      simp only [step]
      split <;> rfl
  | joining vs join =>
      obtain ⟨-, hjoin, hopen⟩ := hjoins
      obtain ⟨event, hevent⟩ := TryJoin.exists_step (TryJoin.agrees_of_reach hjoin) hopen
      exact Or.inr ⟨.join event, by simpa [step] using hevent⟩
  | returned result => exact Or.inl ⟨result, rfl⟩

section Examples

def vaultsText : List UInt8 :=
  ("\x7b\"vaults\":[\x7b\"share_id\":\"s1\",\"name\":\"Home\"\x7d," ++
    "\x7b\"share_id\":\"s2\",\"name\":\"Work\"\x7d]\x7d").toUTF8.data.toList

def itemsText : List UInt8 :=
  "\x7b\"items\":[\x7b\"id\":\"i1\",\"state\":\"Active\"\x7d]\x7d".toUTF8.data.toList

def readTexts (bytes : List UInt8) : Option Json :=
  if bytes = vaultsText then
    some (.object [("vaults", .array
      [.object [("share_id", .string "s1"), ("name", .string "Home")],
        .object [("share_id", .string "s2"), ("name", .string "Work")]])])
  else if bytes = itemsText then
    some (.object [("items", .array [.object [("id", .string "i1"), ("state", .string "Active")]])])
  else none

/-- There are two vaults, with an item each. -/
def twoVaults (argv : List String) : Except PassError Output :=
  .ok { stdout := if argv = Argv.vaultList then vaultsText else itemsText }

/-- The second vault answers first. -/
def outOfTurn : List ListAllEvent :=
  [.vaults, .join (.settle 1), .join (.settle 0), .join .finish]

theorem listed_out_of_turn : ∃ listing, listAllInTurn twoVaults readTexts = .ok listing ∧
    listing.items.map (·.vaultName) = ["Home", "Work"] := by
  have hrun : ∃ listing, (system twoVaults readTexts).run TransitionSystem.anyStep .start outOfTurn =
      some (.returned (.ok listing)) ∧ listing.items.map (·.vaultName) = ["Home", "Work"] :=
    ⟨_, rfl, by decide⟩
  obtain ⟨listing, houtOfTurn, hnames⟩ := hrun
  have hreach := TransitionSystem.reach_of_run rfl houtOfTurn
  exact ⟨listing, ((returned_of_reach hreach).1 listing).mp rfl, hnames⟩

theorem two_vaults_return : ∃ s', (system twoVaults readTexts).run TransitionSystem.anyStep .start
      [.vaults, .join (.settle 1)] = some s' ∧
    ((∃ result, s' = .returned result) ∨ ∃ e, (step twoVaults readTexts s' e).isSome) := by
  have hstart : (system twoVaults readTexts).Reach TransitionSystem.anyStep .start := .start rfl
  have hrun : ∃ s', (system twoVaults readTexts).run TransitionSystem.anyStep .start
      [.vaults, .join (.settle 1)] = some s' := ⟨_, rfl⟩
  obtain ⟨s', hsettled⟩ := hrun
  exact ⟨s', hsettled, (list_all_returns hstart hsettled).2⟩

end Examples

end ListAll

end CosmicPass
