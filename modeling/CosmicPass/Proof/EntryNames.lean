import CosmicPass.Pass.Selectors
import CosmicPass.Proof.FieldNames

/-!
# Field names and the entry they come from

The parser names the fields of an item after what it read them from: a member of the body that is not
empty, the note, a custom field, or a field of a section, by its section where that tells it apart.
Only the names of the websites are made up.
-/

namespace CosmicPass

open Json

/-! ### What the parser found -/

section Reading

variable {v w : Json} {r : List (String × Json)} {field name : String}

theorem filled_of_text {value : String} (h : text v = some (some value)) : v.filled := by
  obtain ⟨read, hread, hvalue⟩ := Option.map_eq_some_iff.mp h
  obtain ⟨rfl, hblank⟩ := Option.filter_eq_some_iff.mp hvalue
  cases v with
  | string text =>
      obtain rfl : text = value := by simpa [asOption, asString] using hread
      have hne : text ≠ "" := by
        rintro rfl
        simp [isBlank] at hblank
      simpa [filled] using hne
  | _ => simp [asOption, asString] at hread

theorem filled_of_nonEmpty {flag : NonEmpty} (h : NonEmpty.decode v = some flag)
    (hpresent : flag.present) : v.filled := by
  cases v with
  | string text =>
      obtain rfl := Option.some.inj h
      simpa [filled] using hpresent
  | null =>
      obtain rfl := Option.some.inj h
      simp at hpresent
  | _ => simp [NonEmpty.decode] at h

theorem filled_of_orElse {flag : NonEmpty} (h : orElse r field {} NonEmpty.decode = some flag)
    (hpresent : flag.present) : ∃ w, r.lookup field = some w ∧ w.filled := by
  have hne : flag ≠ {} := by
    rintro rfl
    simp at hpresent
  obtain ⟨w, hlookup, hread⟩ := lookup_of_orElse h hne
  exact ⟨w, hlookup, filled_of_nonEmpty hread hpresent⟩

theorem name_mem_namesIn {fields : List Json} {raw : List RawCustomField} {f : RawCustomField}
    (h : fields.map RawCustomField.decode = raw.map some) (hmem : f ∈ raw) :
    f.name ∈ namesIn fields := by
  obtain ⟨v, hv, hdecode⟩ := mem_of_map_decode h hmem
  refine List.mem_filterMap.mpr ⟨v, hv, ?_⟩
  obtain ⟨r, hrecord, hread⟩ := Option.bind_eq_some_iff.mp hdecode
  obtain ⟨name, hname, hrest⟩ := Option.bind_eq_some_iff.mp hread
  obtain ⟨content, -, hf⟩ := Option.bind_eq_some_iff.mp hrest
  obtain rfl := Option.some.inj hf
  rw [member_of_record hrecord]
  exact hname

theorem section_of_decode {sec : RawSection} (h : RawSection.decode v = some sec) :
    (elementsAt RawSection.shape "section_fields" v).map RawCustomField.decode =
        sec.sectionFields.map some ∧
      ∀ title, sec.sectionName = some title →
        (member RawSection.shape "section_name" v).bind asString = some title := by
  obtain ⟨r, hrecord, hread⟩ := Option.bind_eq_some_iff.mp h
  obtain ⟨sectionName, hname, hrest⟩ := Option.bind_eq_some_iff.mp hread
  obtain ⟨sectionFields, hfields, hsec⟩ := Option.bind_eq_some_iff.mp hrest
  obtain rfl := Option.some.inj hsec
  refine ⟨elementsAt_of_orElse hrecord hfields, ?_⟩
  rintro title rfl
  obtain ⟨w, hlookup, hw⟩ := lookup_of_orElse hname (by simp)
  rw [member_of_record hrecord, hlookup]
  cases w with
  | string text => simpa [asOption, asString] using hw
  | _ => simp [asOption, asString] at hw

/-- A field is named by its section where that tells it apart, and by itself elsewhere. -/
theorem hidden_mem_section {sec : RawSection} (h : RawSection.decode v = some sec)
    (hmem : name ∈ hiddenNames sec.sectionName sec.sectionFields) :
    name ∈ sectionNames v ∨ name ∈ sectionSelectors v := by
  obtain ⟨hfields, htitle⟩ := section_of_decode h
  obtain ⟨f, hf, hname⟩ := List.mem_flatMap.mp hmem
  obtain ⟨-, hname⟩ := List.mem_ite_nil_right.mp hname
  obtain rfl := List.mem_singleton.mp hname
  have hnamed : f.name ∈ sectionNames v := name_mem_namesIn hfields hf
  cases hsection : sec.sectionName with
  | none => exact Or.inl hnamed
  | some title =>
      simp only [qualified]
      split
      next hplain =>
        apply Or.inr
        rw [sectionSelectors, htitle title hsection]
        exact List.mem_map.mpr ⟨f.name, List.mem_filter.mpr ⟨hnamed, by simpa using hplain⟩, rfl⟩
      next => exact Or.inl hnamed

theorem hidden_mem_namesIn {fields : List Json} {raw : List RawCustomField}
    (h : fields.map RawCustomField.decode = raw.map some) (hmem : name ∈ hiddenNames none raw) :
    name ∈ namesIn fields := by
  obtain ⟨f, hf, hname⟩ := List.mem_flatMap.mp hmem
  obtain ⟨-, hname⟩ := List.mem_ite_nil_right.mp hname
  obtain rfl := List.mem_singleton.mp hname
  exact name_mem_namesIn h hf

end Reading

/-! ### The names of each kind -/

section Kinds

variable {entry v : Json} {kind : ItemKind} {r : List (String × Json)} {field name : String}
  {s : ItemSummary}

theorem memberName_selects (hbody : itemBody entry = some (kind, v))
    (hmem : name ∈ filledNames (bodyShape kind) v) : name ∈ selectors entry := by
  simp only [selectors, memberNames, hbody, Option.elim_some, List.mem_append, hmem, true_or]

theorem text_selects (hbody : itemBody entry = some (kind, v))
    (hrecord : asRecord (bodyShape kind) v = some r) {value : Option String}
    (h : orElse r field none text = some value)
    (halias : field ∉ (bodyShape kind).aliases.map Prod.snd) (hname : value.isSome ∧ name = field) :
    name ∈ selectors entry := by
  obtain ⟨hvalue, rfl⟩ := hname
  obtain ⟨value, rfl⟩ := Option.isSome_iff_exists.mp hvalue
  obtain ⟨w, hlookup, hread⟩ := lookup_of_orElse h (by simp)
  exact memberName_selects hbody (mem_filledNames hrecord hlookup (filled_of_text hread) halias)

theorem nonEmpty_selects (hbody : itemBody entry = some (kind, v))
    (hrecord : asRecord (bodyShape kind) v = some r) {flag : NonEmpty}
    (h : orElse r field {} NonEmpty.decode = some flag)
    (halias : field ∉ (bodyShape kind).aliases.map Prod.snd) (hname : flag.present ∧ name = field) :
    name ∈ selectors entry := by
  obtain ⟨hpresent, rfl⟩ := hname
  obtain ⟨w, hlookup, hfilled⟩ := filled_of_orElse h hpresent
  exact memberName_selects hbody (mem_filledNames hrecord hlookup hfilled halias)

theorem detail_selects (hbody : itemBody entry = some (kind, v))
    (hrecord : asRecord (bodyShape kind) v = some r) {raw : List RawCustomField}
    (h : orElse r field [] (asList RawCustomField.decode) = some raw) (hgroup : field ∈ detailGroups)
    (hmem : name ∈ hiddenNames none raw) : name ∈ selectors entry := by
  have hnamed := hidden_mem_namesIn (elementsAt_of_orElse hrecord h) hmem
  have hdetail : name ∈ detailGroups.flatMap fun group => namesIn (bodyElements entry group) := by
    refine List.mem_flatMap.mpr ⟨field, hgroup, ?_⟩
    rwa [bodyElements, hbody]
  simp only [selectors, customNames, List.mem_append, hdetail, true_or, or_true]

theorem section_selects (hbody : itemBody entry = some (kind, v))
    (hrecord : asRecord (bodyShape kind) v = some r) {sections : List RawSection}
    (h : orElse r field [] (asList RawSection.decode) = some sections)
    (hgroup : field ∈ ["sections", "extra_sections"]) (hmem : name ∈ hiddenInSections sections) :
    name ∈ selectors entry := by
  obtain ⟨sec, hsec, hhidden⟩ := List.mem_flatMap.mp hmem
  obtain ⟨w, hw, hdecode⟩ := mem_of_map_decode (elementsAt_of_orElse hrecord h) hsec
  have hlisted : w ∈ sectionsOf entry := by
    refine List.mem_flatMap.mpr ⟨field, hgroup, ?_⟩
    rwa [bodyElements, hbody]
  rcases hidden_mem_section hdecode hhidden with hbare | hqualified
  · have hcustom : name ∈ (sectionsOf entry).flatMap sectionNames :=
      List.mem_flatMap.mpr ⟨w, hlisted, hbare⟩
    simp only [selectors, customNames, List.mem_append, hcustom, true_or, or_true]
  · have hselector : name ∈ (sectionsOf entry).flatMap sectionSelectors :=
      List.mem_flatMap.mpr ⟨w, hlisted, hqualified⟩
    simp only [selectors, List.mem_append, hselector, or_true]

theorem login_names {b : LoginBody} (hbody : itemBody entry = some (.login, v))
    (hdecode : LoginBody.decode v = some b) (hs : s.names = []) :
    (name ∈ websiteNames entry → name ∈ ((KindContent.login b).fill s).names) ∧
      (name ∈ ((KindContent.login b).fill s).names →
        name ∈ selectors entry ∨ name ∈ websiteNames entry) := by
  obtain ⟨r, hrecord, hread⟩ := Option.bind_eq_some_iff.mp hdecode
  simp only [Option.bind_eq_bind, Option.bind_eq_some_iff] at hread
  obtain ⟨username, husername, email, hemail, urls, hurls, password, hpassword, totpUri, -, hb⟩ :=
    hread
  obtain rfl := Option.some.inj hb
  have hcount : (bodyElements entry "urls").length = urls.length := by
    have hlength := congrArg List.length (elementsAt_of_orElse hrecord hurls)
    rw [List.length_map, List.length_map] at hlength
    rw [bodyElements, hbody]
    exact hlength
  have hwebsites : name ∈ websiteNames entry ↔ ∃ i < urls.length, (websiteField i).1 = name := by
    simp [websiteNames, hcount]
  rw [mem_login_names, hwebsites, hs]
  refine ⟨fun hmem => by simp [hmem], ?_⟩
  rintro (hnone | hmem | hmem | hmem | hmem)
  · simp at hnone
  · exact Or.inl (text_selects hbody hrecord husername (by decide) hmem)
  · exact Or.inl (text_selects hbody hrecord hemail (by decide) hmem)
  · exact Or.inl (nonEmpty_selects hbody hrecord hpassword (by decide) hmem)
  · exact Or.inr hmem

theorem card_selects {b : CardBody} (hbody : itemBody entry = some (.creditCard, v))
    (hdecode : CardBody.decode v = some b) (hs : s.names = [])
    (hmem : name ∈ ((KindContent.card b).fill s).names) : name ∈ selectors entry := by
  obtain ⟨r, hrecord, hread⟩ := Option.bind_eq_some_iff.mp hdecode
  simp only [Option.bind_eq_bind, Option.bind_eq_some_iff] at hread
  obtain ⟨cardholderName, hholder, expirationDate, hdate, number, hnumber, code, hcode, pin, hpin,
    hb⟩ := hread
  obtain rfl := Option.some.inj hb
  rw [mem_card_names, hs] at hmem
  rcases hmem with hnone | hmem | hmem | hmem | hmem | hmem
  · simp at hnone
  · exact nonEmpty_selects hbody hrecord hnumber (by decide) hmem
  · exact text_selects hbody hrecord hholder (by decide) hmem
  · exact text_selects hbody hrecord hdate (by decide) hmem
  · exact nonEmpty_selects hbody hrecord hcode (by decide) hmem
  · exact nonEmpty_selects hbody hrecord hpin (by decide) hmem

theorem mem_decodePresent {present : List String} (h : IdentityBody.decodePresent r = some present)
    (hmem : name ∈ present) : name ∈ presenceMembers ∧
      ∃ flag, orElse r name {} NonEmpty.decode = some flag ∧ flag.present := by
  obtain ⟨flags, hflags, heq⟩ := Option.bind_eq_some_iff.mp h
  obtain rfl := Option.some.inj heq
  obtain ⟨⟨_, flag⟩, hkept, rfl⟩ := List.mem_map.mp hmem
  obtain ⟨hpair, hpresent⟩ := List.mem_filter.mp hkept
  obtain ⟨hmember, hread⟩ := mem_zip_of_mapM hflags hpair
  exact ⟨hmember, flag, hread, hpresent⟩

theorem identity_selects {b : IdentityBody} (hbody : itemBody entry = some (.identity, v))
    (hdecode : IdentityBody.decode v = some b) (hs : s.names = [])
    (hmem : name ∈ ((KindContent.identity b).fill s).names) : name ∈ selectors entry := by
  obtain ⟨r, hrecord, hread⟩ := Option.bind_eq_some_iff.mp hdecode
  simp only [Option.bind_eq_bind, Option.bind_eq_some_iff] at hread
  obtain ⟨fullName, hfull, email, hemail, present, hpresent, personal, hpersonal, address, haddress,
    contact, hcontact, work, hwork, sections, hsections, hb⟩ := hread
  obtain rfl := Option.some.inj hb
  rw [mem_identity_names, hs] at hmem
  rcases hmem with hnone | hmem | hmem | ⟨-, hmem⟩ | hmem | hmem
  · simp at hnone
  · exact text_selects hbody hrecord hfull (by decide) hmem
  · exact text_selects hbody hrecord hemail (by decide) hmem
  · obtain ⟨hmember, flag, hflag, hfilled⟩ := mem_decodePresent hpresent hmem
    refine nonEmpty_selects hbody hrecord hflag ?_ ⟨hfilled, rfl⟩
    rintro halias
    obtain rfl : name = "extra_sections" := by simpa [bodyShape, IdentityBody.shape] using halias
    exact absurd hmember (by decide)
  · simp only [hiddenNames_append, List.mem_append] at hmem
    rcases hmem with ((hmem | hmem) | hmem) | hmem
    · exact detail_selects hbody hrecord hpersonal (by decide) hmem
    · exact detail_selects hbody hrecord haddress (by decide) hmem
    · exact detail_selects hbody hrecord hcontact (by decide) hmem
    · exact detail_selects hbody hrecord hwork (by decide) hmem
  · exact section_selects hbody hrecord hsections (by decide) hmem

theorem wifi_selects {b : WifiBody} (hbody : itemBody entry = some (.wifi, v))
    (hdecode : WifiBody.decode v = some b) (hs : s.names = [])
    (hmem : name ∈ ((KindContent.wifi b).fill s).names) : name ∈ selectors entry := by
  obtain ⟨r, hrecord, hread⟩ := Option.bind_eq_some_iff.mp hdecode
  simp only [Option.bind_eq_bind, Option.bind_eq_some_iff] at hread
  obtain ⟨ssid, hssid, password, hpassword, sections, hsections, hb⟩ := hread
  obtain rfl := Option.some.inj hb
  rw [mem_wifi_names, hs] at hmem
  rcases hmem with hnone | hmem | hmem | hmem
  · simp at hnone
  · exact nonEmpty_selects hbody hrecord hpassword (by decide) hmem
  · exact text_selects hbody hrecord hssid (by decide) hmem
  · exact section_selects hbody hrecord hsections (by decide) hmem

theorem ssh_selects {b : SshBody} (hbody : itemBody entry = some (.sshKey, v))
    (hdecode : SshBody.decode v = some b) (hs : s.names = [])
    (hmem : name ∈ ((KindContent.ssh b).fill s).names) : name ∈ selectors entry := by
  obtain ⟨r, hrecord, hread⟩ := Option.bind_eq_some_iff.mp hdecode
  simp only [Option.bind_eq_bind, Option.bind_eq_some_iff] at hread
  obtain ⟨publicKey, hpublic, privateKey, hprivate, sections, hsections, hb⟩ := hread
  obtain rfl := Option.some.inj hb
  rw [mem_ssh_names, hs] at hmem
  rcases hmem with hnone | hmem | hmem | hmem
  · simp at hnone
  · exact nonEmpty_selects hbody hrecord hprivate (by decide) hmem
  · exact text_selects hbody hrecord hpublic (by decide) hmem
  · exact section_selects hbody hrecord hsections (by decide) hmem

theorem custom_selects {b : CustomBody} (hbody : itemBody entry = some (.custom, v))
    (hdecode : CustomBody.decode v = some b) (hs : s.names = [])
    (hmem : name ∈ ((KindContent.custom b).fill s).names) : name ∈ selectors entry := by
  obtain ⟨r, hrecord, hread⟩ := Option.bind_eq_some_iff.mp hdecode
  simp only [Option.bind_eq_bind, Option.bind_eq_some_iff] at hread
  obtain ⟨sections, hsections, hb⟩ := hread
  obtain rfl := Option.some.inj hb
  rw [mem_custom_names, hs] at hmem
  rcases hmem with hnone | hmem
  · simp at hnone
  · exact section_selects hbody hrecord hsections (by decide) hmem

theorem urls_undeclared (h : kind ≠ .login) :
    "urls" ∉ (bodyShape kind).fields ++ (bodyShape kind).aliases.map Prod.snd := by
  cases kind with
  | login => exact absurd rfl h
  | unknown _ => simp [bodyShape]
  | _ => decide

theorem login_of_websites (h : name ∈ websiteNames entry) :
    ∃ v, itemBody entry = some (.login, v) := by
  obtain ⟨i, hi, -⟩ := List.mem_map.mp h
  have hlength := List.mem_range.mp hi
  unfold bodyElements at hlength
  cases hbody : itemBody entry with
  | none => simp [hbody] at hlength
  | some body =>
      obtain ⟨kind, v⟩ := body
      refine ⟨v, ?_⟩
      rw [hbody, Option.elim_some] at hlength
      by_cases hkind : kind = .login
      · rw [hkind]
      · simp [elementsAt_undeclared (urls_undeclared hkind)] at hlength

/-- The names an item has are found, but for those of its websites. -/
def Named (entry : Json) (s : ItemSummary) : Prop :=
  ∀ name, (name ∈ websiteNames entry → name ∈ s.names) ∧
    (name ∈ s.names → name ∈ selectors entry ∨ name ∈ websiteNames entry)

theorem not_login (hbody : itemBody entry = some (kind, v)) (hkind : kind ≠ .login) :
    ∀ w, itemBody entry ≠ some (.login, w) := by
  intro w hlogin
  exact hkind (Prod.mk.inj (Option.some.inj (hbody.symm.trans hlogin))).1

theorem named_of_selects (hwebsites : ∀ v, itemBody entry ≠ some (.login, v))
    (h : ∀ name ∈ s.names, name ∈ selectors entry) : Named entry s := by
  intro name
  refine ⟨fun hmem => ?_, fun hmem => Or.inl (h name hmem)⟩
  obtain ⟨v, hbody⟩ := login_of_websites hmem
  exact absurd hbody (hwebsites v)

section Bodies

variable {α : Type} {decode : Decoder α} {make : Option α → KindContent} {content : KindContent}

/-- A body is read, or is null and as good as empty. -/
theorem named_of_body (h : (asOption decode v).map make = some content)
    (hnull : v = .null → Named entry ((make none).fill s))
    (hread : ∀ b, decode v = some b → Named entry ((make (some b)).fill s)) :
    Named entry (content.fill s) := by
  obtain ⟨body, hbody, rfl⟩ := Option.map_eq_some_iff.mp h
  rcases asOption_cases hbody with ⟨hv, rfl⟩ | ⟨b, hb, rfl⟩
  · exact hnull hv
  · exact hread b hb

theorem named_of_other (hbody : itemBody entry = some (kind, v)) (hkind : kind ≠ .login)
    (h : (asOption decode v).map make = some content)
    (hempty : ∀ name, name ∉ ((make none).fill s).names)
    (hread : ∀ b, decode v = some b →
      ∀ name ∈ ((make (some b)).fill s).names, name ∈ selectors entry) :
    Named entry (content.fill s) := by
  have hother := not_login hbody hkind
  refine named_of_body h (fun _ => ?_) fun b hb => named_of_selects hother (hread b hb)
  exact named_of_selects hother fun name hmem => absurd hmem (hempty name)

theorem named_of_bare (hbody : itemBody entry = some (kind, v)) (hkind : kind ≠ .login)
    (hnames : (content.fill s).names = []) : Named entry (content.fill s) :=
  named_of_selects (not_login hbody hkind) (by simp [hnames])

theorem named_of_member {m : String × Json}
    (hbody : itemBody entry = some (ItemKind.fromCli m.1, m.2))
    (h : KindContent.decodeMember m.1 m.2 = some content) (hs : s.names = []) :
    Named entry (content.fill s) := by
  unfold KindContent.decodeMember at h
  -- One case for each kind, in the order of the parser's; only a login has names made up.
  split at h <;> rename_i hkind <;> rw [hkind] at hbody
  · refine named_of_body h (fun hnull name => ?_) fun b hb name => login_names hbody hb hs
    rw [hnull] at hbody
    have hnone : websiteNames entry = [] := by
      simp [websiteNames, bodyElements, hbody, elementsAt, Json.member, asRecord]
    simp [hnone, mem_login_names, hs]
  · exact named_of_other hbody (by simp) h (by simp [mem_card_names, hs]) fun b hb _ =>
      card_selects hbody hb hs
  · exact named_of_other hbody (by simp) h (by simp [mem_identity_names, hs, hiddenNames,
      hiddenInSections]) fun b hb _ => identity_selects hbody hb hs
  · exact named_of_other hbody (by simp) h (by simp [mem_wifi_names, hs, hiddenInSections])
      fun b hb _ => wifi_selects hbody hb hs
  · exact named_of_other hbody (by simp) h (by simp [mem_ssh_names, hs, hiddenInSections])
      fun b hb _ => ssh_selects hbody hb hs
  · exact named_of_other hbody (by simp) h (by simp [mem_custom_names, hs, hiddenInSections])
      fun b hb _ => custom_selects hbody hb hs
  all_goals
    obtain rfl := Option.some.inj h
    exact named_of_bare hbody (by simp) hs

end Bodies

end Kinds

/-! ### The names of an item -/

section Items

variable {entry : Json} {i : RawItem} {s : ItemSummary}

theorem named_of_noBody (hbody : itemBody entry = none) (hs : s.names = []) : Named entry s :=
  named_of_selects (by simp [hbody]) (by simp [hs])

theorem named_of_kinds {kinds : Json} {content : KindContent}
    (hbody : itemBody entry =
      kinds.members.getLast?.map fun m => (ItemKind.fromCli m.1, m.2))
    (h : KindContent.decode kinds = some content) (hs : s.names = []) :
    Named entry (content.fill s) := by
  cases kinds with
  | object ms =>
      rcases foldlM_last h with ⟨rfl, rfl⟩ | ⟨m, hlast, hread⟩
      · exact named_of_noBody hbody hs
      · refine named_of_member (m := m) ?_ hread hs
        simp [hbody, Json.members, hlast]
  | _ => simp [KindContent.decode] at h

theorem named_of_content {v : Json} {content : RawContent} (hcontent : itemContent entry = some v)
    (h : RawContent.decode v = some content) (hs : s.names = []) : Named entry (content.fill s) := by
  obtain ⟨r, hrecord, hread⟩ := Option.bind_eq_some_iff.mp h
  simp only [Option.bind_eq_bind, Option.bind_eq_some_iff] at hread
  obtain ⟨title, -, note, hnote, kind, hkind, extra, hextra, hc⟩ := hread
  obtain rfl := Option.some.inj hc
  have hbody : itemBody entry = (r.lookup "content").bind fun kinds =>
      kinds.members.getLast?.map fun m => (ItemKind.fromCli m.1, m.2) := by
    simp [itemBody, hcontent, member_of_record hrecord]
  have hnamed : Named entry (kind.fill { s with title }) := by
    unfold orElse at hkind
    split at hkind
    next w hlookup =>
      rw [hlookup] at hbody
      exact named_of_kinds hbody hkind hs
    next hlookup =>
      rw [hlookup] at hbody
      obtain rfl := Option.some.inj hkind
      exact named_of_noBody hbody hs
  intro name
  rw [mem_fill_names]
  refine ⟨fun hmem => Or.inl ((hnamed name).1 hmem), ?_⟩
  rintro (hmem | hmem | ⟨hpresent, rfl⟩)
  · exact (hnamed name).2 hmem
  · apply Or.inl
    have hextras := hidden_mem_namesIn (elementsAt_of_orElse hrecord hextra) hmem
    simp only [selectors, customNames, hcontent, Option.elim_some, List.mem_append, hextras, true_or,
      or_true]
  · apply Or.inl
    obtain ⟨w, hlookup, hfilled⟩ := filled_of_orElse hnote hpresent
    have hmember : (itemContent entry).bind (member RawContent.shape "note") = some w := by
      rw [hcontent, Option.bind_some, member_of_record hrecord, hlookup]
    have hnoted : "note" ∈ noteNames entry := by
      simp [noteNames, hmember, hfilled]
    simp only [selectors, List.mem_append, hnoted, true_or, or_true]

/-- **The names of an item's fields**: whatever the entry, each is a name of something in it or of a
website, and each website has its name. -/
theorem named_of_entry (h : RawItem.decode entry = some i) (share : ShareId) (vaultName : String) :
    Named entry (i.intoSummary share vaultName) := by
  obtain ⟨r, hrecord, hread⟩ := Option.bind_eq_some_iff.mp h
  simp only [Option.bind_eq_bind, Option.bind_eq_some_iff] at hread
  obtain ⟨id, -, shareId, -, state, -, modifyTime, -, title, -, itemType, -, content, hcontent, hi⟩ :=
    hread
  obtain rfl := Option.some.inj hi
  intro name
  rw [RawItem.intoSummary, mem_dedupeSelectors_names]
  revert name
  have hlookup : itemContent entry = r.lookup "content" := member_of_record hrecord "content"
  cases content with
  | none =>
      refine named_of_noBody ?_ rfl
      have hnull : ∀ w, r.lookup "content" = some w → w = .null := by
        intro w hw
        rw [orElse, hw] at hcontent
        rcases asOption_cases hcontent with ⟨hw, -⟩ | ⟨_, -, hsome⟩
        · exact hw
        · simp at hsome
      unfold itemBody
      cases hw : r.lookup "content" with
      | none => simp [hlookup, hw]
      | some w => simp [hlookup, hw, hnull w hw, Json.member, asRecord]
  | some content =>
      obtain ⟨w, hw, hread⟩ := lookup_of_orElse hcontent (by simp)
      refine named_of_content (hlookup.trans hw) ?_ rfl
      rcases asOption_cases hread with ⟨-, hnone⟩ | ⟨_, hdecode, heq⟩
      · simp at hnone
      · rw [hdecode, Option.some.inj heq]

end Items

end CosmicPass
