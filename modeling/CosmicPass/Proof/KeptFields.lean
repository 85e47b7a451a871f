import CosmicPass.Proof.FieldNames

/-!
# The field kept of each name

Of the fields of one name the last one pushed is kept. The kind body pushes first, then the sections,
then `extra_fields`, so a custom field is kept over a built-in member of its name. The note is pushed
after all of them, except for a note item, where it comes first.

A section field is pushed under `Section.Field`, a name that splits back into its two parts. A custom
field that is itself called that, dot and all, is pushed under the same name, and kept if it is the
later of the two.
-/

namespace CosmicPass

/-! ### The last of each name -/

section KeepLast

variable {α : Type} {key : α → String} {entry : α}

theorem keepLast_sublist (key : α → String) (entries : List α) :
    (keepLast key entries).Sublist entries := by
  induction entries with
  | nil => exact .slnil
  | cons entry rest ih =>
      simp only [keepLast]
      split
      · exact ih.cons entry
      · exact ih.cons_cons entry

theorem nodup_map_keepLast (key : α → String) (entries : List α) :
    ((keepLast key entries).map key).Nodup := by
  induction entries with
  | nil => exact List.nodup_nil
  | cons entry rest ih =>
      simp only [keepLast]
      split
      next => exact ih
      next hlast =>
        rw [List.map_cons, List.nodup_cons]
        refine ⟨fun hmem => hlast ?_, ih⟩
        obtain ⟨other, hother, heq⟩ := List.mem_map.mp (mem_map_keepLast.mp hmem)
        exact List.any_eq_true.mpr ⟨other, hother, decide_eq_true heq⟩

theorem keepLast_append (key : α → String) (first last : List α) :
    keepLast key (first ++ last) =
      ((keepLast key first).filter fun entry => !last.any fun other => key other = key entry) ++
        keepLast key last := by
  induction first with
  | nil => rfl
  | cons entry rest ih =>
      simp only [List.cons_append, keepLast, List.any_append]
      by_cases hrest : rest.any fun other => key other = key entry
      · simp only [hrest, Bool.true_or, if_true, ih]
      · by_cases hlast : last.any fun other => key other = key entry
        · simp [hrest, hlast, ih]
        · simp [hrest, hlast, ih]

/-- What is kept of the first part has no namesake in the rest. -/
theorem mem_keepLast_append {first last : List α} :
    entry ∈ keepLast key (first ++ last) ↔
      entry ∈ keepLast key first ∧ (∀ other ∈ last, key other ≠ key entry) ∨
        entry ∈ keepLast key last := by
  rw [keepLast_append, List.mem_append, List.mem_filter]
  simp

end KeepLast

/-! ### What is pushed, in which order -/

/-- A hidden custom field: the section it is in, and its name. -/
abbrev HiddenField := Option String × String

def HiddenField.field (f : HiddenField) : FieldRef := .secretField (qualified f.1 f.2) f.2

def hiddenOf (section? : Option String) (raw : List RawCustomField) : List HiddenField :=
  (raw.filter fun f => f.content = .hidden).map fun f => (section?, f.name)

def hiddenOfSections (sections : List RawSection) : List HiddenField :=
  sections.flatMap fun sec => hiddenOf sec.sectionName sec.sectionFields

def KindContent.sections : KindContent → List RawSection
  | .identity b => b.sections
  | .wifi b => b.sections
  | .ssh b => b.sections
  | .custom b => b.sections
  | .login _ | .card _ | .note | .alias | .unknown _ | .missing => []

/-- The kind of the content, or the one listed where the content has none. -/
def KindContent.kindOr (listed : ItemKind) : KindContent → ItemKind
  | .login _ => .login
  | .card _ => .creditCard
  | .identity _ => .identity
  | .wifi _ => .wifi
  | .ssh _ => .sshKey
  | .custom _ => .custom
  | .note => .note
  | .alias => .alias
  | .unknown name => .unknown name
  | .missing => listed

section Steps

variable (s : ItemSummary)

theorem customFieldsIn_fields (section? : Option String) (raw : List RawCustomField) :
    (customFieldsIn s section? raw).fields =
      s.fields ++ (hiddenOf section? raw).map HiddenField.field := by
  unfold customFieldsIn
  induction raw generalizing s with
  | nil => simp [hiddenOf]
  | cons f raw ih =>
      rw [List.foldl_cons, ih]
      cases hcontent : f.content <;>
        simp [hiddenOf, hcontent, pushField, pushTotp, HiddenField.field]

theorem sectionFields_fields (sections : List RawSection) :
    (sectionFields s sections).fields =
      s.fields ++ (hiddenOfSections sections).map HiddenField.field := by
  unfold sectionFields
  induction sections generalizing s with
  | nil => simp [hiddenOfSections]
  | cons sec sections ih =>
      have hcons : hiddenOfSections (sec :: sections) =
          hiddenOf sec.sectionName sec.sectionFields ++ hiddenOfSections sections := rfl
      rw [List.foldl_cons, ih, customFieldsIn_fields, hcons, List.map_append, List.append_assoc]

/-- The sections are the last thing the body of a kind pushes. -/
theorem fill_fields (content : KindContent) :
    ∃ own, (content.fill s).fields =
      own ++ (hiddenOfSections content.sections).map HiddenField.field := by
  cases content with
  | identity b => exact ⟨_, sectionFields_fields _ b.sections⟩
  | wifi b => exact ⟨_, sectionFields_fields _ b.sections⟩
  | ssh b => exact ⟨_, sectionFields_fields _ b.sections⟩
  | custom b => exact ⟨_, sectionFields_fields _ b.sections⟩
  | login | card | note | «alias» | unknown | missing => exact ⟨_, (List.append_nil _).symm⟩

theorem foldl_kind {α : Type} {step : ItemSummary → α → ItemSummary}
    (hstep : ∀ s x, (step s x).kind = s.kind) (l : List α) : (l.foldl step s).kind = s.kind := by
  induction l generalizing s with
  | nil => rfl
  | cons x l ih => rw [List.foldl_cons, ih, hstep]

@[simp] theorem secretIf_kind (present : NonEmpty) (name label : String) :
    (secretIf s present name label).kind = s.kind := by
  unfold secretIf
  split <;> rfl

@[simp] theorem plainIf_kind (value : Option String) (name label : String) :
    (plainIf s value name label).kind = s.kind := by
  cases value <;> rfl

@[simp] theorem unstoredIf_kind (present : List String) (members : List (String × String)) :
    (unstoredIf s present members).kind = s.kind :=
  foldl_kind s (fun s member => by split <;> rfl) members

@[simp] theorem customFieldsIn_kind (section? : Option String) (raw : List RawCustomField) :
    (customFieldsIn s section? raw).kind = s.kind :=
  foldl_kind s (fun s f => by cases f.content <;> rfl) raw

@[simp] theorem sectionFields_kind (sections : List RawSection) :
    (sectionFields s sections).kind = s.kind := by
  apply foldl_kind
  exact fun s sec => customFieldsIn_kind s sec.sectionName sec.sectionFields

@[simp] theorem websites_kind (urls : List String) (i : Nat) : (websites s i urls).kind = s.kind := by
  induction urls generalizing s i with
  | nil => rfl
  | cons url urls ih => exact ih _ _

@[simp] theorem documents_kind (present : List String) :
    (documentMembers.foldl
      (fun s member => secretIf s ⟨member.1 ∈ present⟩ member.1 member.2) s).kind = s.kind := by
  apply foldl_kind
  exact fun s member => secretIf_kind s ⟨member.1 ∈ present⟩ member.1 member.2

theorem fill_kind (content : KindContent) : (content.fill s).kind = content.kindOr s.kind := by
  have hcode : ∀ (present : Bool) (s : ItemSummary),
      (if present then pushTotp s "totp_uri" else s).kind = s.kind := by
    intro present s
    split <;> rfl
  cases content with
  | login b => simp [KindContent.fill, KindContent.kindOr, hcode]
  | identity b => simp [KindContent.fill, KindContent.kindOr, IdentityBody.fill, customFields]
  | card | wifi | ssh | custom | note | «alias» | unknown | missing =>
      simp [KindContent.fill, KindContent.kindOr]

end Steps

/-! ### The item gathered, before its fields are told apart -/

def noteField : FieldRef := .secretField "note" "Note"

namespace RawItem

variable (i : RawItem) (share : ShareId) (vaultName : String)

def listedKind : ItemKind := (i.itemType.map ItemKind.fromCli).getD (.unknown "")

/-- Everything that is pushed into an item. -/
def gathered : ItemSummary :=
  let share := (i.shareId.map ShareId.mk).getD share
  let summary : ItemSummary :=
    { key := ⟨share, ⟨i.id⟩⟩
      vaultName
      kind := i.listedKind
      title := i.title.getD ""
      username := none
      email := none
      subtitle := none
      urls := []
      totpFields := []
      fields := []
      modifiedAt := (parseTimestamp i.modifyTime).getD 0 }
  match i.content with
  | some content => content.fill summary
  | none => summary

/-- The hidden custom fields of an item, those of its sections first. -/
def hiddenFields : List HiddenField :=
  i.content.elim [] fun c => hiddenOfSections c.content.sections ++ hiddenOf none c.extraFields

/-- A note that is pushed after the custom fields. -/
def notedLast (c : RawContent) : Bool :=
  c.note.present ∧ c.content.kindOr i.listedKind ≠ .note

variable {i} {share} {vaultName}

theorem gathered_fields {c : RawContent} (hcontent : i.content = some c) :
    ∃ own, (i.gathered share vaultName).fields =
      own ++ (i.hiddenFields.map HiddenField.field ++ if i.notedLast c then [noteField] else []) := by
  have hhidden : i.hiddenFields =
      hiddenOfSections c.content.sections ++ hiddenOf none c.extraFields := by
    rw [hiddenFields, hcontent, Option.elim_some]
  rw [gathered, hcontent, hhidden]
  generalize hstart : ItemSummary.mk _ _ i.listedKind _ _ _ _ _ _ _ _ = start
  have hlisted : start.kind = i.listedKind := by rw [← hstart]
  obtain ⟨own, hown⟩ := fill_fields { start with title := c.title } c.content
  have hkind : (customFields (c.content.fill { start with title := c.title }) c.extraFields).kind =
      c.content.kindOr i.listedKind := by
    rw [customFields, customFieldsIn_kind, fill_kind, hlisted]
  have hfields : (customFields (c.content.fill { start with title := c.title }) c.extraFields).fields =
      own ++ (hiddenOfSections c.content.sections ++ hiddenOf none c.extraFields).map
        HiddenField.field := by
    rw [customFields, customFieldsIn_fields, hown, List.map_append, List.append_assoc]
  dsimp only
  rw [RawContent.fill]
  dsimp only
  by_cases hnote : c.note.present
  · by_cases hlast : c.content.kindOr i.listedKind = .note
    · refine ⟨noteField :: own, ?_⟩
      rw [if_pos hnote, hkind, if_pos hlast, hfields]
      simp [notedLast, hlast, noteField]
    · refine ⟨own, ?_⟩
      rw [if_pos hnote, hkind, if_neg hlast]
      simp [notedLast, hlast, hnote, pushField, hfields, noteField]
  · refine ⟨own, ?_⟩
    rw [if_neg hnote, hfields]
    simp [notedLast, hnote]

theorem fields_eq : (i.intoSummary share vaultName).fields =
    keepLast (·.name) (i.gathered share vaultName).fields := rfl

theorem nodup_names : (i.intoSummary share vaultName).names.Nodup :=
  nodup_map_keepLast _ _

theorem field_of_mem {field : FieldRef} (h : field ∈ (i.intoSummary share vaultName).fields) :
    (i.intoSummary share vaultName).field field.name = some field := by
  cases hfound : (i.intoSummary share vaultName).field field.name with
  | none => simpa using List.find?_eq_none.mp hfound field h
  | some other =>
      have hname : other.name = field.name := by simpa using List.find?_some hfound
      rw [List.inj_on_of_nodup_map nodup_names (List.mem_of_find?_eq_some hfound) h hname]

/-! ### Extra fields are kept -/

theorem mem_hiddenOf {section? : Option String} {raw : List RawCustomField} {f : HiddenField} :
    f ∈ hiddenOf section? raw ↔
      f.1 = section? ∧ ∃ custom ∈ raw, custom.content = .hidden ∧ custom.name = f.2 := by
  simp only [hiddenOf, List.mem_map, List.mem_filter, decide_eq_true_iff, Prod.ext_iff]
  grind

/-- What is pushed after the extra fields is the note at most. -/
theorem extra_kept_iff {c : RawContent} (hcontent : i.content = some c) {f : RawCustomField}
    (hmem : f ∈ c.extraFields) (hhidden : f.content = .hidden) :
    (i.intoSummary share vaultName).field f.name = some (.secretField f.name f.name) ↔
      ¬ (i.notedLast c ∧ f.name = "note") := by
  obtain ⟨own, hown⟩ := @gathered_fields i share vaultName c hcontent
  have hextra : i.hiddenFields =
      hiddenOfSections c.content.sections ++ hiddenOf none c.extraFields := by
    rw [hiddenFields, hcontent, Option.elim_some]
  rw [hextra, List.map_append, List.append_assoc, ← List.append_assoc] at hown
  constructor
  · rintro hkept ⟨hlast, hname⟩
    have hnote : noteField ∈ (i.intoSummary share vaultName).fields := by
      rw [fields_eq, hown, if_pos hlast]
      refine mem_keepLast_append.mpr (.inr (mem_keepLast_append.mpr (.inr ?_)))
      exact List.mem_singleton_self noteField
    have hfield := field_of_mem hnote
    rw [hname] at hkept
    exact absurd (hfield.symm.trans hkept) (by decide)
  · intro hfree
    have hpushed : f.name ∈ ((hiddenOf none c.extraFields).map HiddenField.field).map FieldRef.name :=
      List.mem_map.mpr ⟨.secretField f.name f.name, List.mem_map.mpr
        ⟨(none, f.name), mem_hiddenOf.mpr ⟨rfl, f, hmem, hhidden, rfl⟩, rfl⟩, rfl⟩
    obtain ⟨field, hfield, hname⟩ := List.mem_map.mp (mem_map_keepLast.mpr hpushed)
    obtain ⟨⟨section?, name⟩, hentry, rfl⟩ := List.mem_map.mp ((keepLast_sublist _ _).subset hfield)
    obtain ⟨rfl, -⟩ := mem_hiddenOf.mp hentry
    obtain rfl : name = f.name := hname
    have hkept : FieldRef.secretField f.name f.name ∈ (i.intoSummary share vaultName).fields := by
      rw [fields_eq, hown]
      refine mem_keepLast_append.mpr (.inr (mem_keepLast_append.mpr (.inl ⟨hfield, ?_⟩)))
      intro other hother heq
      split at hother
      next hlast =>
        obtain rfl := List.mem_singleton.mp hother
        exact hfree ⟨hlast, heq.symm⟩
      next => simp at hother
    exact field_of_mem hkept

/-- A custom field called `note`, in an item whose note is pushed after it. -/
def NoteShadows (i : RawItem) : Prop :=
  ∃ c, i.content = some c ∧ i.notedLast c ∧
    ∃ f ∈ c.extraFields, f.content = .hidden ∧ f.name = "note"

/-- Names are told apart, none is lost or moved, and an extra field is kept over its namesakes. -/
structure KeepsExtras (i : RawItem) (share : ShareId) (vaultName : String) : Prop where
  fieldsDistinct : ((i.intoSummary share vaultName).fields.map (·.name)).Nodup
  totpsDistinct : (i.intoSummary share vaultName).totpFields.Nodup
  fieldsNamed : ∀ name, name ∈ (i.intoSummary share vaultName).fields.map (·.name) ↔
    name ∈ (i.gathered share vaultName).fields.map (·.name)
  totpsNamed : ∀ name, name ∈ (i.intoSummary share vaultName).totpFields ↔
    name ∈ (i.gathered share vaultName).totpFields
  fieldsInOrder : (i.intoSummary share vaultName).fields.Sublist (i.gathered share vaultName).fields
  totpsInOrder :
    (i.intoSummary share vaultName).totpFields.Sublist (i.gathered share vaultName).totpFields
  extrasKept : ∀ c, i.content = some c → ∀ f ∈ c.extraFields, f.content = .hidden →
    (i.intoSummary share vaultName).field f.name = some (.secretField f.name f.name)

/-- **An extra field is kept over its namesakes, except over a note pushed after it.** -/
theorem keepsExtras_iff (i : RawItem) (share : ShareId) (vaultName : String) :
    KeepsExtras i share vaultName ↔ ¬ i.NoteShadows := by
  constructor
  · rintro h ⟨c, hcontent, hlast, f, hmem, hhidden, hname⟩
    exact (extra_kept_iff hcontent hmem hhidden).mp (h.extrasKept c hcontent f hmem hhidden)
      ⟨hlast, hname⟩
  · intro hfree
    refine ⟨nodup_names, ?_, fun _ => mem_map_keepLast, fun name => ?_, keepLast_sublist _ _,
      keepLast_sublist _ _, fun c hcontent f hmem hhidden => ?_⟩
    · have hnodup := nodup_map_keepLast (fun name => name) (i.gathered share vaultName).totpFields
      rwa [List.map_id'] at hnodup
    · have hmem := @mem_map_keepLast name _ (fun name => name) (i.gathered share vaultName).totpFields
      rwa [List.map_id', List.map_id'] at hmem
    · refine (extra_kept_iff hcontent hmem hhidden).mpr fun hnote => hfree ?_
      exact ⟨c, hcontent, hnote.1, f, hmem, hhidden, hnote.2⟩

section Examples

/-- A login with a note, and a hidden custom field that is called `note` too. -/
def notedEntry : Json :=
  .object [("id", .string "id1"), ("state", .string "Active"), ("content", .object
    [("title", .string "Bank"), ("note", .string "branch 7"), ("content", .object [("Login", .object
      [("username", .string "ada")])]), ("extra_fields", .array [.object
        [("name", .string "note"), ("content", .object [("Hidden", .string "s3cret")])]])])]

def notedLogin : RawItem :=
  { id := "id1"
    shareId := none
    state := "Active"
    modifyTime := ""
    title := none
    itemType := none
    content := some
      { title := "Bank"
        note := ⟨true⟩
        content := .login { username := some "ada" }
        extraFields := [⟨"note", .hidden⟩] } }

theorem extra_lost_to_note : RawItem.decode notedEntry = some notedLogin ∧
    (notedLogin.intoSummary ⟨"share"⟩ "Personal").field "note" = some noteField ∧
    ¬ KeepsExtras notedLogin ⟨"share"⟩ "Personal" := by
  have hfield : (notedLogin.intoSummary ⟨"share"⟩ "Personal").field "note" = some noteField := by
    decide
  refine ⟨rfl, hfield, fun h => ?_⟩
  have hkept := h.extrasKept _ rfl ⟨"note", .hidden⟩ (List.mem_singleton_self _) rfl
  exact absurd (hfield.symm.trans hkept) (by decide)

end Examples

end RawItem

/-! ### Section fields are kept -/

/-- The two parts of a text around its first dot. -/
def splitAtDot (text : String) : Option (String × String) :=
  match text.toList.dropWhile (· ≠ '.') with
  | [] => none
  | _ :: rest => some (String.ofList (text.toList.takeWhile (· ≠ '.')), String.ofList rest)

/-- A section and a field of it that a selector can name. -/
structure Addressable (sec name : String) : Prop where
  titled : sec ≠ ""
  sectionDotless : '.' ∉ sec.toList
  nameDotless : '.' ∉ name.toList

theorem splitAtDot_append {sec : String} (h : '.' ∉ sec.toList) (name : String) :
    splitAtDot (sec ++ "." ++ name) = some (sec, name) := by
  have hbefore : ∀ c ∈ sec.toList, decide (c ≠ '.') = true := by
    intro c hmem
    have hne : c ≠ '.' := fun heq => h (heq ▸ hmem)
    simpa using hne
  have hchars : (sec ++ "." ++ name).toList = sec.toList ++ '.' :: name.toList := by simp
  rw [splitAtDot, hchars, List.dropWhile_append_of_pos hbefore, List.takeWhile_append_of_pos hbefore]
  simp

namespace HiddenField

variable {sec name : String}

theorem field_of_addressable (h : Addressable sec name) :
    field (some sec, name) = .secretField (sec ++ "." ++ name) name := by
  rw [field, qualified, if_pos ⟨h.titled, h.sectionDotless, h.nameDotless⟩]

theorem dot_mem (sec name : String) : '.' ∈ (sec ++ "." ++ name).toList := by simp

/-- A hidden field is pushed under `Section.Field` as that field of the section, or because it is
called that. -/
theorem name_eq_iff (h : Addressable sec name) (f : HiddenField) :
    f.field.name = sec ++ "." ++ name ↔ f = (some sec, name) ∨ f.2 = sec ++ "." ++ name := by
  obtain ⟨section?, own⟩ := f
  constructor
  · intro heq
    change qualified section? own = _ at heq
    cases section? with
    | none => exact .inr heq
    | some other =>
        unfold qualified at heq
        dsimp only at heq
        split at heq
        next hqualified =>
          have hsplit := splitAtDot_append hqualified.2.1 own
          rw [heq, splitAtDot_append h.sectionDotless] at hsplit
          obtain ⟨rfl, rfl⟩ := Prod.ext_iff.mp (Option.some.inj hsplit)
          exact .inl rfl
        next => exact .inr heq
  · rintro (heq | heq)
    · rw [heq, field_of_addressable h]
      rfl
    · change qualified section? own = _
      change own = _ at heq
      have hdot : '.' ∈ own.toList := heq ▸ dot_mem sec name
      cases section? with
      | none => exact heq
      | some other => rw [qualified, if_neg fun hqualified => hqualified.2.2 hdot, heq]

/-- Only the field of the section is pushed under that name with that label. -/
theorem eq_of_field_eq (h : Addressable sec name) {f : HiddenField}
    (heq : f.field = field (some sec, name)) : f = (some sec, name) := by
  rw [field_of_addressable h] at heq
  rcases (name_eq_iff h f).mp (congrArg FieldRef.name heq) with hsame | hcalled
  · exact hsame
  · have hlabel : f.2 = name := congrArg FieldRef.label heq
    have hdot := dot_mem sec name
    rw [← hcalled, hlabel] at hdot
    exact absurd hdot h.nameDotless

end HiddenField

namespace RawItem

variable {i : RawItem} {share : ShareId} {vaultName : String} {sec name : String}
  {before after : List HiddenField}

/-- The last field of a section and a name is kept unless one pushed after it is called by both. -/
theorem section_kept_iff (h : Addressable sec name)
    (hfields : i.hiddenFields = before ++ (some sec, name) :: after) (hlast : (some sec, name) ∉ after) :
    HiddenField.field (some sec, name) ∈ (i.intoSummary share vaultName).fields ↔
      ∀ f ∈ after, f.2 ≠ sec ++ "." ++ name := by
  obtain ⟨c, hcontent⟩ : ∃ c, i.content = some c := by
    cases hcontent : i.content with
    | none => simp [hiddenFields, hcontent] at hfields
    | some c => exact ⟨c, rfl⟩
  obtain ⟨own, hown⟩ := @gathered_fields i share vaultName c hcontent
  have hnote : ∀ other ∈ (if i.notedLast c then [noteField] else []),
      other.name ≠ sec ++ "." ++ name := by
    intro other hother heq
    split at hother
    next =>
      obtain rfl := List.mem_singleton.mp hother
      have hdot := HiddenField.dot_mem sec name
      rw [← heq] at hdot
      exact absurd hdot (by decide)
    next => simp at hother
  have hname : (HiddenField.field (some sec, name)).name = sec ++ "." ++ name := by
    rw [HiddenField.field_of_addressable h]
    rfl
  rw [fields_eq, hown, hfields, List.map_append, List.map_cons, List.append_assoc, List.cons_append,
    ← List.singleton_append, ← List.append_assoc, ← List.append_assoc, mem_keepLast_append]
  constructor
  · rintro (⟨-, hfree⟩ | hlater) f hmem hcalled
    · refine hfree f.field (List.mem_append_left _ (List.mem_map_of_mem hmem)) ?_
      rw [hname]
      exact (HiddenField.name_eq_iff h f).mpr (.inr hcalled)
    · rcases List.mem_append.mp ((keepLast_sublist _ _).subset hlater) with hhidden | hnoted
      · obtain ⟨g, hg, heq⟩ := List.mem_map.mp hhidden
        exact hlast (HiddenField.eq_of_field_eq h heq ▸ hg)
      · exact hnote _ hnoted hname
  · intro hfree
    refine .inl ⟨mem_keepLast_append.mpr (.inr (List.mem_singleton_self _)), fun other hother => ?_⟩
    rw [hname]
    rcases List.mem_append.mp hother with hhidden | hnoted
    · obtain ⟨f, hf, rfl⟩ := List.mem_map.mp hhidden
      intro heq
      rcases (HiddenField.name_eq_iff h f).mp heq with hsame | hcalled
      · exact hlast (hsame ▸ hf)
      · exact hfree f hf hcalled
    · exact hnote other hnoted

/-- A field of a section that no other hidden field repeats, and the fields around it. -/
structure Lone (i : RawItem) (sec name : String) (before after : List HiddenField) : Prop where
  addressable : Addressable sec name
  fields : i.hiddenFields = before ++ (some sec, name) :: after
  alone : (some sec, name) ∉ before ++ after

/-- No field of a section is lost, or goes by the selector of another. -/
structure KeepsSections (i : RawItem) (share : ShareId) (vaultName : String) : Prop where
  split : ∀ sec name, Addressable sec name → (some sec, name) ∈ i.hiddenFields →
    splitAtDot (qualified (some sec) name) = some (sec, name)
  kept : ∀ sec name before after, i.Lone sec name before after →
    FieldRef.secretField (sec ++ "." ++ name) name ∈ (i.intoSummary share vaultName).fields ∧
      ∀ f ∈ i.hiddenFields,
        HiddenField.field f = .secretField (sec ++ "." ++ name) name → f = (some sec, name)
  apart : ∀ sec name sec' name', Addressable sec name → Addressable sec' name' →
    (some sec, name) ∈ i.hiddenFields → (some sec', name') ∈ i.hiddenFields →
    qualified (some sec) name = qualified (some sec') name' → sec = sec' ∧ name = name'

/-- **No section field is lost, unless a later custom field is called by its section and name.** -/
theorem keepsSections_iff (i : RawItem) (share : ShareId) (vaultName : String) :
    i.KeepsSections share vaultName ↔
      ∀ sec name before after, i.Lone sec name before after →
        ∀ f ∈ after, f.2 ≠ sec ++ "." ++ name := by
  have hqualified : ∀ {sec name}, Addressable sec name →
      qualified (some sec) name = sec ++ "." ++ name := fun h =>
    congrArg FieldRef.name (HiddenField.field_of_addressable h)
  constructor
  · intro h sec name before after hlone
    have hkept := (h.kept sec name before after hlone).1
    rw [← HiddenField.field_of_addressable hlone.addressable] at hkept
    exact (section_kept_iff hlone.addressable hlone.fields fun hmem =>
      hlone.alone (List.mem_append_right _ hmem)).mp hkept
  · intro h
    refine ⟨fun sec name haddressable _ => ?_, fun sec name before after hlone => ⟨?_, ?_⟩, ?_⟩
    · rw [hqualified haddressable]
      exact splitAtDot_append haddressable.sectionDotless name
    · rw [← HiddenField.field_of_addressable hlone.addressable]
      exact (section_kept_iff hlone.addressable hlone.fields fun hmem =>
        hlone.alone (List.mem_append_right _ hmem)).mpr (h sec name before after hlone)
    · intro f _ heq
      rw [← HiddenField.field_of_addressable hlone.addressable] at heq
      exact HiddenField.eq_of_field_eq hlone.addressable heq
    · intro sec name sec' name' haddressable haddressable' _ _ heq
      rw [hqualified haddressable, hqualified haddressable'] at heq
      have hsplit := splitAtDot_append haddressable.sectionDotless name
      rw [heq, splitAtDot_append haddressable'.sectionDotless] at hsplit
      obtain ⟨hsec, hname⟩ := Prod.ext_iff.mp (Option.some.inj hsplit)
      exact ⟨hsec.symm, hname.symm⟩

section Examples

/-- A section `Bank` with two hidden fields: `PIN`, and one that is called `Bank.PIN`. -/
def bankEntry : Json :=
  .object [("id", .string "id1"), ("state", .string "Active"), ("content", .object
    [("title", .string "Bank"), ("content", .object [("Custom", .object [("sections", .array [.object
      [("section_name", .string "Bank"), ("section_fields", .array
        [.object [("name", .string "PIN"), ("content", .object [("Hidden", .string "1234")])],
          .object [("name", .string "Bank.PIN"), ("content", .object
            [("Hidden", .string "5678")])]])]])])])])]

def bankItem : RawItem :=
  { id := "id1"
    shareId := none
    state := "Active"
    modifyTime := ""
    title := none
    itemType := none
    content := some
      { title := "Bank"
        note := ⟨false⟩
        content := .custom { sections := [⟨some "Bank", [⟨"PIN", .hidden⟩, ⟨"Bank.PIN", .hidden⟩]⟩] }
        extraFields := [] } }

theorem section_field_lost : RawItem.decode bankEntry = some bankItem ∧
    (bankItem.intoSummary ⟨"share"⟩ "Personal").fields = [.secretField "Bank.PIN" "Bank.PIN"] ∧
    ¬ KeepsSections bankItem ⟨"share"⟩ "Personal" := by
  have hfields : (bankItem.intoSummary ⟨"share"⟩ "Personal").fields =
      [.secretField "Bank.PIN" "Bank.PIN"] := by decide
  refine ⟨rfl, hfields, fun h => ?_⟩
  have hlone : bankItem.Lone "Bank" "PIN" [] [(some "Bank", "Bank.PIN")] :=
    ⟨⟨by decide, by decide, by decide⟩, rfl, by decide⟩
  have hkept := (h.kept "Bank" "PIN" _ _ hlone).1
  rw [hfields] at hkept
  exact absurd hkept (by decide)

end Examples

end RawItem

end CosmicPass
