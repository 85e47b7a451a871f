import CosmicPass.Pass.Parse

/-!
# The names of a parsed item's fields

A field is listed under the name `pass-cli` is later asked for. Each step of the parser appends the
names of the fields it offers, and of the entries of one name the last is kept, so that the names of a
summary are those its steps appended.
-/

namespace CosmicPass

namespace ItemSummary

def names (s : ItemSummary) : List String := s.fields.map FieldRef.name

@[simp] theorem map_fields (s : ItemSummary) : s.fields.map FieldRef.name = s.names := rfl

@[simp] theorem names_mk (key : ItemKey) (vaultName : String) (kind : ItemKind) (title : String)
    (username email subtitle : Option String) (urls totpFields : List String)
    (fields : List FieldRef) (modifiedAt : Int) :
    names ⟨key, vaultName, kind, title, username, email, subtitle, urls, totpFields, fields,
      modifiedAt⟩ = fields.map FieldRef.name := rfl

end ItemSummary

section Steps

variable (s : ItemSummary) {name : String}

@[simp] theorem pushField_names (field : FieldRef) :
    (pushField s field).names = s.names ++ [field.name] := by
  simp [pushField]

@[simp] theorem pushTotp_names (name : String) : (pushTotp s name).names = s.names := rfl

@[simp] theorem secretIf_names (present : NonEmpty) (name label : String) :
    (secretIf s present name label).names = s.names ++ if present.present then [name] else [] := by
  unfold secretIf
  split <;> simp [FieldRef.secretField]

@[simp] theorem plainIf_names (value : Option String) (name label : String) :
    (plainIf s value name label).names = s.names ++ if value.isSome then [name] else [] := by
  cases value <;> simp [plainIf, FieldRef.plain]

theorem foldl_names {α : Type} {step : ItemSummary → α → ItemSummary} {names : α → List String}
    (hstep : ∀ s x, (step s x).names = s.names ++ names x) (l : List α) :
    ∀ s, (l.foldl step s).names = s.names ++ l.flatMap names := by
  induction l with
  | nil => simp
  | cons x l ih =>
      intro s
      rw [List.foldl_cons, ih, hstep, List.append_assoc, List.flatMap_cons]

/-- The members of a group that are present. -/
def presentNames (present : List String) (members : List (String × String)) : List String :=
  members.flatMap fun member => if member.1 ∈ present then [member.1] else []

@[simp] theorem unstoredIf_names (present : List String) (members : List (String × String)) :
    (unstoredIf s present members).names = s.names ++ presentNames present members := by
  refine foldl_names (fun s member => ?_) members s
  split <;> simp [FieldRef.unstored]

@[simp] theorem documents_names (present : List String) :
    (documentMembers.foldl
      (fun s member => secretIf s ⟨member.1 ∈ present⟩ member.1 member.2) s).names =
      s.names ++ presentNames present documentMembers := by
  refine foldl_names (fun s member => ?_) documentMembers s
  simp

theorem mem_presentNames {present : List String} {members : List (String × String)} :
    name ∈ presentNames present members ↔ name ∈ members.map Prod.fst ∧ name ∈ present := by
  induction members with
  | nil => simp [presentNames]
  | cons member members ih =>
      simp only [presentNames, List.flatMap_cons, List.mem_append, List.map_cons,
        List.mem_cons] at ih ⊢
      rw [ih, or_and_right]
      apply or_congr_left
      split
      next hmem => exact ⟨fun h => by simp_all, fun h => by simp [h.1]⟩
      next hmem => exact ⟨fun h => by simp at h, fun h => absurd (h.1 ▸ h.2) hmem⟩

/-- The names of the hidden fields of a section, or of none. -/
def hiddenNames (section? : Option String) (raw : List RawCustomField) : List String :=
  raw.flatMap fun f => if f.content = .hidden then [qualified section? f.name] else []

theorem hiddenNames_append (section? : Option String) (raw raw' : List RawCustomField) :
    hiddenNames section? (raw ++ raw') = hiddenNames section? raw ++ hiddenNames section? raw' :=
  List.flatMap_append

@[simp] theorem customFieldsIn_names (section? : Option String) (raw : List RawCustomField) :
    (customFieldsIn s section? raw).names = s.names ++ hiddenNames section? raw := by
  refine foldl_names (fun s f => ?_) raw s
  cases f.content <;> simp [FieldRef.secretField]

/-- The names of the hidden fields of the sections. -/
def hiddenInSections (sections : List RawSection) : List String :=
  sections.flatMap fun sec => hiddenNames sec.sectionName sec.sectionFields

@[simp] theorem sectionFields_names (sections : List RawSection) :
    (sectionFields s sections).names = s.names ++ hiddenInSections sections :=
  foldl_names (fun s sec => customFieldsIn_names s sec.sectionName sec.sectionFields) sections s

@[simp] theorem websites_names (urls : List String) : ∀ (s : ItemSummary) (i : Nat),
    (websites s i urls).names =
      s.names ++ (List.range' i urls.length).map fun i => (websiteField i).1 := by
  induction urls with
  | nil => simp [websites]
  | cons url urls ih =>
      intro s i
      simp only [websites]
      rw [ih, pushField_names, List.append_assoc]
      rfl

omit s in
theorem mem_map_keepLast {α : Type} {key : α → String} {entries : List α} :
    name ∈ (keepLast key entries).map key ↔ name ∈ entries.map key := by
  induction entries with
  | nil => rfl
  | cons entry rest ih =>
      simp only [keepLast]
      split
      next hlater =>
        obtain ⟨other, hmem, heq⟩ := List.any_eq_true.mp hlater
        have hname : key entry ∈ rest.map key := of_decide_eq_true heq ▸ List.mem_map_of_mem hmem
        rw [ih, List.map_cons, List.mem_cons]
        exact ⟨Or.inr, fun h => h.elim (fun heq => heq ▸ hname) id⟩
      next => simp only [List.map_cons, List.mem_cons, ih]

@[simp] theorem mem_dedupeSelectors_names : name ∈ (dedupeSelectors s).names ↔ name ∈ s.names :=
  mem_map_keepLast

theorem mem_withNote_names (note : FieldRef) :
    name ∈ (if s.kind = .note then { s with fields := note :: s.fields }
        else pushField s note).names ↔ name ∈ s.names ∨ name = note.name := by
  split
  next => rw [ItemSummary.names_mk, List.map_cons, List.mem_cons, or_comm]; rfl
  next => rw [pushField_names, List.mem_append, List.mem_singleton]

/-- The names of an item: those of its kind, those of its custom fields, and its note. -/
theorem mem_fill_names (content : RawContent) :
    name ∈ (content.fill s).names ↔
      name ∈ (content.content.fill { s with title := content.title }).names ∨
        name ∈ hiddenNames none content.extraFields ∨ content.note.present ∧ name = "note" := by
  unfold RawContent.fill
  dsimp only
  by_cases hnote : content.note.present
  · rw [if_pos hnote, mem_withNote_names, customFields, customFieldsIn_names, List.mem_append,
      or_assoc]
    simp [hnote, FieldRef.secretField]
  · rw [if_neg hnote, customFields, customFieldsIn_names, List.mem_append]
    simp [hnote]

theorem mem_login_names (b : LoginBody) :
    name ∈ ((KindContent.login b).fill s).names ↔ name ∈ s.names ∨
      b.username.isSome ∧ name = "username" ∨ b.email.isSome ∧ name = "email" ∨
      b.password.present ∧ name = "password" ∨ ∃ i < b.urls.length, (websiteField i).1 = name := by
  have hcode : ∀ s : ItemSummary,
      (if b.totpUri.present then pushTotp s "totp_uri" else s).names = s.names := fun s => by
    split
    · exact pushTotp_names s "totp_uri"
    · rfl
  simp [KindContent.fill, hcode]

theorem mem_card_names (b : CardBody) :
    name ∈ ((KindContent.card b).fill s).names ↔ name ∈ s.names ∨
      b.number.present ∧ name = "number" ∨ b.cardholderName.isSome ∧ name = "cardholder_name" ∨
      b.expirationDate.isSome ∧ name = "expiration_date" ∨
      b.verificationNumber.present ∧ name = "verification_number" ∨ b.pin.present ∧ name = "pin" := by
  simp [KindContent.fill]

theorem mem_wifi_names (b : WifiBody) :
    name ∈ ((KindContent.wifi b).fill s).names ↔ name ∈ s.names ∨
      b.password.present ∧ name = "password" ∨ b.ssid.isSome ∧ name = "ssid" ∨
      name ∈ hiddenInSections b.sections := by
  simp [KindContent.fill]

theorem mem_ssh_names (b : SshBody) :
    name ∈ ((KindContent.ssh b).fill s).names ↔ name ∈ s.names ∨
      b.privateKey.present ∧ name = "private_key" ∨ b.publicKey.isSome ∧ name = "public_key" ∨
      name ∈ hiddenInSections b.sections := by
  simp [KindContent.fill]

theorem mem_custom_names (b : CustomBody) :
    name ∈ ((KindContent.custom b).fill s).names ↔
      name ∈ s.names ∨ name ∈ hiddenInSections b.sections := by
  simp [KindContent.fill]

theorem mem_identity_names (b : IdentityBody) :
    name ∈ ((KindContent.identity b).fill s).names ↔ name ∈ s.names ∨
      b.fullName.isSome ∧ name = "full_name" ∨ b.email.isSome ∧ name = "email" ∨
      name ∈ presenceMembers ∧ name ∈ b.present ∨
      name ∈ hiddenNames none (b.extraPersonalDetails ++ b.extraAddressDetails ++
        b.extraContactDetails ++ b.extraWorkDetails) ∨
      name ∈ hiddenInSections b.sections := by
  unfold KindContent.fill IdentityBody.fill
  simp only [ItemSummary.names_mk, ItemSummary.map_fields, sectionFields_names, customFields,
    customFieldsIn_names, unstoredIf_names, documents_names, plainIf_names, hiddenNames_append,
    List.mem_append, List.mem_ite_nil_right, List.mem_singleton, mem_presentNames, presenceMembers,
    List.map_append, or_and_right]
  apply iff_of_eq
  ac_rfl

end Steps

end CosmicPass
