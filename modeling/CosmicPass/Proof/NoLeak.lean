import CosmicPass.Pass.Parse

/-!
# Secrets never reach the summaries

Two listings that differ only in secrets parse alike. `listings` says where a listing may differ: the
text of a secret member, as long as it stays empty or non-empty, and whatever is inside a custom
field's content or under a kind whose body is not read. Everywhere else the documents are the same.
Each decoder reads what agrees in the same way, so the whole parse does.
-/

namespace CosmicPass

open Json Tolerance

def secretMembers : List String :=
  ["password", "totp_uri", "number", "verification_number", "pin", "note", "private_key"] ++
    presenceMembers

/-- The places of an item listing, by what is read there. -/
inductive Place where
  | document
  | items
  | item
  | content
  | kinds
  | login
  | card
  | identity
  | wifi
  | ssh
  | custom
  | sections
  | section
  | customFields
  | customField
  | contentMap
  /-- A secret member: only its presence is kept. -/
  | presence
  /-- Never looked at. -/
  | ignored
  | plain
deriving DecidableEq

namespace Place

def ofKind : ItemKind → Place
  | .login => login
  | .creditCard => card
  | .identity => identity
  | .wifi => wifi
  | .sshKey => ssh
  | .custom => custom
  | .note | .alias | .unknown _ => ignored

/-- The places below one, where they are not plain or secret. -/
def members : Place → List (String × Place)
  | document => [("items", items)]
  | item => [("content", content)]
  | content => [("content", kinds), ("extra_fields", customFields)]
  | identity =>
      [("extra_personal_details", customFields), ("extra_address_details", customFields),
        ("extra_contact_details", customFields), ("extra_work_details", customFields),
        ("extra_sections", sections), ("sections", sections)]
  | wifi | ssh | custom => [("sections", sections)]
  | .section => [("section_fields", customFields)]
  | customField => [("content", contentMap)]
  | _ => []

def member (p : Place) (name : String) : Place :=
  match p with
  | contentMap | ignored => ignored
  | kinds => ofKind (ItemKind.fromCli name)
  | _ =>
      if name ∈ secretMembers then presence
      else (p.members.lookup name).getD plain

def shape : Place → Option Shape
  | document => some itemListShape
  | item => some RawItem.shape
  | content => some RawContent.shape
  | login => some LoginBody.shape
  | card => some CardBody.shape
  | identity => some IdentityBody.shape
  | wifi => some WifiBody.shape
  | ssh => some SshBody.shape
  | custom => some CustomBody.shape
  | .section => some RawSection.shape
  | customField => some RawCustomField.shape
  | _ => none

/-- The place of an element: of a list, or of a record written as an array. -/
def element (p : Place) (n : Nat) : Place :=
  match p with
  | items => item
  | sections => .section
  | customFields => customField
  | ignored => ignored
  | _ => ((p.shape.bind fun shape => shape.fields[n]?).map p.member).getD plain

end Place

/-- Where two listings may differ, and how. -/
def listings : Tolerance Place :=
  { member := Place.member
    element := Place.element
    tolerates := fun p v w =>
      match p, v, w with
      | .presence, .string s, .string t => s = "" ↔ t = ""
      | .ignored, _, _ => True
      | _, _, _ => False
    -- Of several kinds or variants the last one counts.
    unordered := fun p => p ≠ .kinds ∧ p ≠ .contentMap }

theorem strict_listings {p : Place} (hpresence : p ≠ .presence) (hignored : p ≠ .ignored) :
    listings.Strict p := by
  intro v w h
  cases p <;> simp [listings] at h hpresence hignored

section Records

variable {α : Type} {p q : Place} {v w : Json} {shape : Shape} {r s : List (String × Json)}

theorem strict_of_shape (hshape : p.shape = some shape) : listings.Strict p := by
  apply strict_listings
  · rintro rfl
    simp [Place.shape] at hshape
  · rintro rfl
    simp [Place.shape] at hshape

theorem element_of_field (hshape : p.shape = some shape) {n : Nat} {field : String}
    (hfield : shape.fields[n]? = some field) : listings.element p n = listings.member p field := by
  cases p <;> simp [Place.shape] at hshape <;> subst hshape <;>
    simp [listings, Place.element, Place.shape, hfield]

theorem aliases_of_shape (hshape : p.shape = some shape) {name field : String}
    (hname : shape.aliases.lookup name = some field) :
    p = .identity ∧ name = "sections" ∧ field = "extra_sections" := by
  cases p <;> simp only [Place.shape, Option.some.injEq, reduceCtorEq] at hshape <;>
    subst hshape <;> simp [itemListShape, RawItem.shape, RawContent.shape, LoginBody.shape,
      CardBody.shape, IdentityBody.shape, WifiBody.shape, SshBody.shape, CustomBody.shape,
      RawSection.shape, RawCustomField.shape] at hname
  exact ⟨rfl, hname.1, hname.2.symm⟩

theorem member_of_field (hshape : p.shape = some shape) {name field : String}
    (hfield : shape.field name = some field) : listings.member p name = listings.member p field := by
  unfold Shape.field at hfield
  split at hfield
  next =>
    obtain rfl : name = field := by simpa using hfield
    rfl
  next =>
    obtain ⟨rfl, rfl, rfl⟩ := aliases_of_shape hshape hfield
    decide

theorem record_alike {read : List (String × Json) → Option α} (hshape : p.shape = some shape)
    (h : listings.Agree p v w) (hread : ∀ r s, listings.AgreeRecords p r s → read r = read s) :
    (asRecord shape v).bind read = (asRecord shape w).bind read :=
  h.bindRecord (strict_of_shape hshape) (fun _ _ => element_of_field hshape)
    (fun _ _ => member_of_field hshape) hread

theorem required_alike {decode : Decoder α}
    (hdecode : ∀ {v w}, listings.Agree q v w → decode v = decode w)
    (h : listings.AgreeRecords p r s) (field : String) (hplace : p.member field = q) :
    required r field decode = required s field decode :=
  h.required field fun _ _ hagree => hdecode (hplace ▸ hagree)

theorem orElse_alike {decode : Decoder α}
    (hdecode : ∀ {v w}, listings.Agree q v w → decode v = decode w)
    (h : listings.AgreeRecords p r s) (field : String) (absent : α) (hplace : p.member field = q) :
    orElse r field absent decode = orElse s field absent decode :=
  h.orElse field absent fun _ _ hagree => hdecode (hplace ▸ hagree)

end Records

section Decoders

variable {v w : Json}

theorem asString_alike (h : listings.Agree .plain v w) : asString v = asString w :=
  h.asString (strict_listings (by decide) (by decide))

theorem asOptionString_alike (h : listings.Agree .plain v w) :
    asOption asString v = asOption asString w :=
  h.asOption (strict_listings (by decide) (by decide)) (asString_alike h)

theorem text_alike (h : listings.Agree .plain v w) : text v = text w := by
  unfold text
  rw [asOptionString_alike h]

theorem asListString_alike (h : listings.Agree .plain v w) :
    asList asString v = asList asString w :=
  h.asList (strict_listings (by decide) (by decide)) fun _ _ _ => asString_alike

theorem nonEmpty_alike (h : listings.Agree .presence v w) :
    NonEmpty.decode v = NonEmpty.decode w := by
  cases h with
  | refl => rfl
  | array => rfl
  | object => rfl
  | tolerated h =>
      cases v <;> cases w <;> simp only [listings] at h
      simp [NonEmpty.decode, h]

theorem customFieldKind_alike (h : listings.Agree .contentMap v w) :
    CustomFieldKind.decode v = CustomFieldKind.decode w := by
  cases h with
  | refl => rfl
  | array => rfl
  | tolerated h => exact absurd h (strict_listings (by decide) (by decide) v w)
  | @object _ ms ms' ns _ hordered hnames _ =>
      obtain rfl : ms = ms' := by simpa [listings] using hordered
      have hfold : ∀ members : List (String × Json),
          members.foldl (fun _ member => CustomFieldKind.of member.1) CustomFieldKind.other =
            (members.map Prod.fst).foldl (fun _ name => CustomFieldKind.of name) .other :=
        fun members => (List.foldl_map ..).symm
      simp only [CustomFieldKind.decode, hfold, hnames]

theorem customField_alike (h : listings.Agree .customField v w) :
    RawCustomField.decode v = RawCustomField.decode w := by
  refine record_alike rfl h fun r s hr => ?_
  have hname := required_alike asString_alike hr "name" (by decide)
  have hcontent := required_alike customFieldKind_alike hr "content" (by decide)
  simp only [hname, hcontent]

theorem customFields_alike (h : listings.Agree .customFields v w) :
    asList RawCustomField.decode v = asList RawCustomField.decode w :=
  h.asList (strict_listings (by decide) (by decide)) fun _ _ _ => customField_alike

theorem section_alike (h : listings.Agree .section v w) :
    RawSection.decode v = RawSection.decode w := by
  refine record_alike rfl h fun r s hr => ?_
  have hname := orElse_alike asOptionString_alike hr "section_name" none (by decide)
  have hfields := orElse_alike customFields_alike hr "section_fields" [] (by decide)
  simp only [hname, hfields]

theorem sections_alike (h : listings.Agree .sections v w) :
    asList RawSection.decode v = asList RawSection.decode w :=
  h.asList (strict_listings (by decide) (by decide)) fun _ _ _ => section_alike

theorem login_alike (h : listings.Agree .login v w) : LoginBody.decode v = LoginBody.decode w := by
  refine record_alike rfl h fun r s hr => ?_
  have husername := orElse_alike text_alike hr "username" none (by decide)
  have hemail := orElse_alike text_alike hr "email" none (by decide)
  have hurls := orElse_alike asListString_alike hr "urls" [] (by decide)
  have hpassword := orElse_alike nonEmpty_alike hr "password" {} (by decide)
  have htotpUri := orElse_alike nonEmpty_alike hr "totp_uri" {} (by decide)
  simp only [husername, hemail, hurls, hpassword, htotpUri]

theorem card_alike (h : listings.Agree .card v w) : CardBody.decode v = CardBody.decode w := by
  refine record_alike rfl h fun r s hr => ?_
  have hname := orElse_alike text_alike hr "cardholder_name" none (by decide)
  have hdate := orElse_alike text_alike hr "expiration_date" none (by decide)
  have hnumber := orElse_alike nonEmpty_alike hr "number" {} (by decide)
  have hcode := orElse_alike nonEmpty_alike hr "verification_number" {} (by decide)
  have hpin := orElse_alike nonEmpty_alike hr "pin" {} (by decide)
  simp only [hname, hdate, hnumber, hcode, hpin]

theorem member_presence {name : String} (hmem : name ∈ presenceMembers) :
    Place.member .identity name = .presence := by
  have hsecret : name ∈ secretMembers := List.mem_append_right _ hmem
  simp [Place.member, hsecret]

theorem present_alike {r s : List (String × Json)} (hr : listings.AgreeRecords .identity r s) :
    IdentityBody.decodePresent r = IdentityBody.decodePresent s := by
  have hflags : ∀ names : List String, (∀ name ∈ names, name ∈ presenceMembers) →
      names.mapM (fun name => orElse r name {} NonEmpty.decode) =
        names.mapM (fun name => orElse s name {} NonEmpty.decode) := by
    intro names hnames
    induction names with
    | nil => rfl
    | cons name names ih =>
        obtain ⟨hname, hrest⟩ := List.forall_mem_cons.mp hnames
        have hhead := orElse_alike nonEmpty_alike hr name {} (member_presence hname)
        simp only [List.mapM_cons, hhead, ih hrest]
  unfold IdentityBody.decodePresent
  rw [hflags presenceMembers fun _ hname => hname]

theorem identity_alike (h : listings.Agree .identity v w) :
    IdentityBody.decode v = IdentityBody.decode w := by
  refine record_alike rfl h fun r s hr => ?_
  have hname := orElse_alike text_alike hr "full_name" none (by decide)
  have hemail := orElse_alike text_alike hr "email" none (by decide)
  have hpresent := present_alike hr
  have hpersonal := orElse_alike customFields_alike hr "extra_personal_details" [] (by decide)
  have haddress := orElse_alike customFields_alike hr "extra_address_details" [] (by decide)
  have hcontact := orElse_alike customFields_alike hr "extra_contact_details" [] (by decide)
  have hwork := orElse_alike customFields_alike hr "extra_work_details" [] (by decide)
  have hsections := orElse_alike sections_alike hr "extra_sections" [] (by decide)
  simp only [hname, hemail, hpresent, hpersonal, haddress, hcontact, hwork, hsections]

theorem wifi_alike (h : listings.Agree .wifi v w) : WifiBody.decode v = WifiBody.decode w := by
  refine record_alike rfl h fun r s hr => ?_
  have hssid := orElse_alike text_alike hr "ssid" none (by decide)
  have hpassword := orElse_alike nonEmpty_alike hr "password" {} (by decide)
  have hsections := orElse_alike sections_alike hr "sections" [] (by decide)
  simp only [hssid, hpassword, hsections]

theorem ssh_alike (h : listings.Agree .ssh v w) : SshBody.decode v = SshBody.decode w := by
  refine record_alike rfl h fun r s hr => ?_
  have hpublic := orElse_alike text_alike hr "public_key" none (by decide)
  have hprivate := orElse_alike nonEmpty_alike hr "private_key" {} (by decide)
  have hsections := orElse_alike sections_alike hr "sections" [] (by decide)
  simp only [hpublic, hprivate, hsections]

theorem custom_alike (h : listings.Agree .custom v w) :
    CustomBody.decode v = CustomBody.decode w := by
  refine record_alike rfl h fun r s hr => ?_
  have hsections := orElse_alike sections_alike hr "sections" [] (by decide)
  simp only [hsections]

theorem kindMember_alike {name : String}
    (h : listings.Agree (Place.ofKind (ItemKind.fromCli name)) v w) :
    KindContent.decodeMember name v = KindContent.decodeMember name w := by
  unfold KindContent.decodeMember
  cases hkind : ItemKind.fromCli name <;> rw [hkind] at h <;> simp only [Place.ofKind] at h ⊢
  case login => rw [h.asOption (strict_of_shape rfl) (login_alike h)]
  case creditCard => rw [h.asOption (strict_of_shape rfl) (card_alike h)]
  case identity => rw [h.asOption (strict_of_shape rfl) (identity_alike h)]
  case wifi => rw [h.asOption (strict_of_shape rfl) (wifi_alike h)]
  case sshKey => rw [h.asOption (strict_of_shape rfl) (ssh_alike h)]
  case custom => rw [h.asOption (strict_of_shape rfl) (custom_alike h)]

theorem kindMembers_alike {ms ns : List (String × Json)}
    (h : listings.AgreeMembers .kinds ms ns) : ∀ last : KindContent,
    ms.foldlM (fun _ member => KindContent.decodeMember member.1 member.2) last =
      ns.foldlM (fun _ member => KindContent.decodeMember member.1 member.2) last := by
  induction h with
  | nil => exact fun _ => rfl
  | @cons m n _ _ hm _ ih =>
      have hread : KindContent.decodeMember m.1 m.2 = KindContent.decodeMember n.1 n.2 :=
        hm.1 ▸ kindMember_alike hm.2
      intro last
      simp only [List.foldlM_cons, hread, ih]

theorem kinds_alike (h : listings.Agree .kinds v w) :
    KindContent.decode v = KindContent.decode w := by
  cases h with
  | refl => rfl
  | array => rfl
  | tolerated h => exact absurd h (strict_listings (by decide) (by decide) v w)
  | @object _ ms ms' ns _ hordered hnames h =>
      obtain rfl : ms = ms' := by simpa [listings] using hordered
      exact kindMembers_alike (agreeMembers_of_names hnames h) .missing

theorem content_alike (h : listings.Agree .content v w) :
    RawContent.decode v = RawContent.decode w := by
  refine record_alike rfl h fun r s hr => ?_
  have htitle := orElse_alike asString_alike hr "title" "" (by decide)
  have hnote := orElse_alike nonEmpty_alike hr "note" {} (by decide)
  have hcontent := orElse_alike kinds_alike hr "content" .missing (by decide)
  have hextra := orElse_alike customFields_alike hr "extra_fields" [] (by decide)
  simp only [htitle, hnote, hcontent, hextra]

theorem asOptionContent_alike (h : listings.Agree .content v w) :
    asOption RawContent.decode v = asOption RawContent.decode w :=
  h.asOption (strict_of_shape rfl) (content_alike h)

theorem item_alike (h : listings.Agree .item v w) : RawItem.decode v = RawItem.decode w := by
  refine record_alike rfl h fun r s hr => ?_
  have hid := required_alike asString_alike hr "id" (by decide)
  have hshare := orElse_alike asOptionString_alike hr "share_id" none (by decide)
  have hstate := orElse_alike asString_alike hr "state" "" (by decide)
  have htime := orElse_alike asString_alike hr "modify_time" "" (by decide)
  have htitle := orElse_alike asOptionString_alike hr "title" none (by decide)
  have htype := orElse_alike asOptionString_alike hr "item_type" none (by decide)
  have hcontent := orElse_alike asOptionContent_alike hr "content" none (by decide)
  simp only [hid, hshare, hstate, htime, htitle, htype, hcontent]

theorem items_alike (h : listings.Agree .items v w) :
    asList RawItem.decode v = asList RawItem.decode w :=
  h.asList (strict_listings (by decide) (by decide)) fun _ _ _ => item_alike

theorem itemList_alike (h : listings.Agree .document v w) : decodeItemList v = decodeItemList w := by
  refine record_alike rfl h fun r s hr => ?_
  exact required_alike items_alike hr "items" (by decide)

end Decoders

/-- **No secret in the summaries**: listings that agree but for secrets give the same result. -/
theorem parse_items_no_leak (readJson : List UInt8 → Option Json) {bytes bytes' : List UInt8}
    (h : Option.Rel (listings.Agree .document) (readJson bytes) (readJson bytes'))
    (share : ShareId) (vaultName : String) :
    parseItems readJson bytes share vaultName = parseItems readJson bytes' share vaultName := by
  unfold parseItems
  generalize readJson bytes = left, readJson bytes' = right at h ⊢
  cases h with
  | none => rfl
  | some hagree => simp only [Option.bind_some, itemList_alike hagree]

section Examples

def loginBody (password : String) : Json :=
  .object [("username", .string "ada"), ("password", .string password)]

def hiddenField (value : String) : Json :=
  .object [("name", .string "Old"), ("content", .object [("Hidden", .string value)])]

def loginContent (password : String) : Json :=
  .object
    [("title", .string "Mail"), ("content", .object [("Login", loginBody password)]),
      ("extra_fields", .array [hiddenField password])]

def loginListing (password : String) : Json :=
  .object [("items", .array [.object
    [("id", .string "id1"), ("state", .string "Active"), ("content", loginContent password)]])]

def loginListingBytes (password : String) : List UInt8 :=
  ("\x7b\"items\":[\x7b\"id\":\"id1\",\"state\":\"Active\",\"content\":\x7b\"title\":\"Mail\"," ++
    "\"content\":\x7b\"Login\":\x7b\"username\":\"ada\",\"password\":\"" ++ password ++
    "\"\x7d\x7d,\"extra_fields\":[\x7b\"name\":\"Old\",\"content\":\x7b\"Hidden\":\"" ++ password ++
    "\"\x7d\x7d]\x7d\x7d]\x7d").toUTF8.data.toList

def readLoginListing (bytes : List UInt8) : Option Json :=
  ["correct", "horse"].findSome? fun password =>
    if bytes = loginListingBytes password then some (loginListing password) else none

theorem readLoginListing_correct :
    readLoginListing (loginListingBytes "correct") = some (loginListing "correct") := by
  simp [readLoginListing]

theorem readLoginListing_horse :
    readLoginListing (loginListingBytes "horse") = some (loginListing "horse") := by
  have hne : loginListingBytes "horse" ≠ loginListingBytes "correct" := by decide
  simp [readLoginListing, hne]

theorem agree_array {p : Place} {v w : Json} (h : listings.Agree (p.element 0) v w) :
    listings.Agree p (.array [v]) (.array [w]) := by
  refine .array rfl fun n v' w' hv hw => ?_
  obtain ⟨rfl, rfl⟩ : n = 0 ∧ v = v' := by simpa [List.getElem?_singleton] using hv
  obtain rfl : w = w' := by simpa using hw
  exact h

theorem loginContent_agree {password password' : String} (h : password = "" ↔ password' = "") :
    listings.Agree .content (loginContent password) (loginContent password') := by
  have hplace : listings.member .kinds "Login" = .login := by decide
  have hbody : listings.Agree (listings.member .kinds "Login") (loginBody password)
      (loginBody password') := by
    rw [hplace]
    exact AgreeMembers.agree (.cons ⟨rfl, .refl _ _⟩ (.cons ⟨rfl, .tolerated h⟩ .nil))
  have hvalue : listings.Agree .contentMap (.object [("Hidden", .string password)])
      (.object [("Hidden", .string password')]) :=
    AgreeMembers.agree (.cons ⟨rfl, .tolerated trivial⟩ .nil)
  have hfield : listings.Agree .customField (hiddenField password) (hiddenField password') :=
    AgreeMembers.agree (.cons ⟨rfl, .refl _ _⟩ (.cons ⟨rfl, hvalue⟩ .nil))
  have hkinds : listings.Agree .kinds (.object [("Login", loginBody password)])
      (.object [("Login", loginBody password')]) :=
    AgreeMembers.agree (.cons ⟨rfl, hbody⟩ .nil)
  exact AgreeMembers.agree (.cons ⟨rfl, .refl _ _⟩
    (.cons ⟨rfl, hkinds⟩ (.cons ⟨rfl, agree_array hfield⟩ .nil)))

theorem loginListing_agree {password password' : String} (h : password = "" ↔ password' = "") :
    listings.Agree .document (loginListing password) (loginListing password') := by
  refine AgreeMembers.agree (.cons ⟨rfl, agree_array ?_⟩ .nil)
  refine AgreeMembers.agree (.cons ⟨rfl, .refl _ _⟩ (.cons ⟨rfl, .refl _ _⟩ ?_))
  exact .cons ⟨rfl, loginContent_agree h⟩ .nil

theorem parse_items_no_leak_password :
    parseItems readLoginListing (loginListingBytes "correct") ⟨"share"⟩ "Personal" =
      parseItems readLoginListing (loginListingBytes "horse") ⟨"share"⟩ "Personal" := by
  have hagree : Option.Rel (listings.Agree .document)
      (readLoginListing (loginListingBytes "correct"))
      (readLoginListing (loginListingBytes "horse")) := by
    rw [readLoginListing_correct, readLoginListing_horse]
    exact .some (loginListing_agree (by decide))
  exact parse_items_no_leak readLoginListing hagree ⟨"share"⟩ "Personal"

end Examples

end CosmicPass
