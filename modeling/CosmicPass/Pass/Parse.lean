import CosmicPass.Library.Json
import CosmicPass.Model
import CosmicPass.Pass.Error

/-!
# Lenient parsing of item listings

`parse_items` of `src/pass/parse.rs`. `serde_json` turns the bytes of a listing into a document, or
rejects them; from the document on, the decoders below are what the structs of the source declare, and
where one rejects a value the whole listing is rejected. Items are decoded into structs that declare
only non-secret members: of a secret at most its presence is kept.
-/

namespace CosmicPass

open Json

/-- The variant of a custom field (`Text`, `Hidden`, `Totp`); the value is never kept. -/
inductive CustomFieldKind where
  | text
  | hidden
  | totp
  | other
deriving DecidableEq

def CustomFieldKind.of : String → CustomFieldKind
  | "Text" => text
  | "Hidden" => hidden
  | "Totp" => totp
  | _ => other

/-- The last key says which variant it is. -/
def CustomFieldKind.decode : Decoder CustomFieldKind
  | .object members =>
      some (members.foldl (fun _ member => CustomFieldKind.of member.1) CustomFieldKind.other)
  | _ => none

/-- Whether a string value is non-empty. The value itself is never kept. -/
structure NonEmpty where
  present : Bool := false
deriving DecidableEq

def NonEmpty.decode : Decoder NonEmpty
  | .string text => some ⟨text ≠ ""⟩
  | .null => some ⟨false⟩
  | _ => none

def text : Decoder (Option String) := fun v =>
  (asOption asString v).map fun value => value.filter fun text => ¬ isBlank text

structure RawCustomField where
  name : String
  content : CustomFieldKind

def RawCustomField.shape : Shape := { fields := ["name", "content"] }

def RawCustomField.decode : Decoder RawCustomField := fun v =>
  (asRecord RawCustomField.shape v).bind fun r => do
    let name ← required r "name" asString
    let content ← required r "content" CustomFieldKind.decode
    some { name, content }

structure RawSection where
  sectionName : Option String
  sectionFields : List RawCustomField

def RawSection.shape : Shape := { fields := ["section_name", "section_fields"] }

def RawSection.decode : Decoder RawSection := fun v =>
  (asRecord RawSection.shape v).bind fun r => do
    let sectionName ← orElse r "section_name" none (asOption asString)
    let sectionFields ← orElse r "section_fields" [] (asList RawCustomField.decode)
    some { sectionName, sectionFields }

structure LoginBody where
  username : Option String := none
  email : Option String := none
  urls : List String := []
  password : NonEmpty := {}
  totpUri : NonEmpty := {}

def LoginBody.shape : Shape := { fields := ["username", "email", "urls", "password", "totp_uri"] }

def LoginBody.decode : Decoder LoginBody := fun v =>
  (asRecord LoginBody.shape v).bind fun r => do
    let username ← orElse r "username" none text
    let email ← orElse r "email" none text
    let urls ← orElse r "urls" [] (asList asString)
    let password ← orElse r "password" {} NonEmpty.decode
    let totpUri ← orElse r "totp_uri" {} NonEmpty.decode
    some { username, email, urls, password, totpUri }

structure CardBody where
  cardholderName : Option String := none
  expirationDate : Option String := none
  number : NonEmpty := {}
  verificationNumber : NonEmpty := {}
  pin : NonEmpty := {}

def CardBody.shape : Shape :=
  { fields := ["cardholder_name", "expiration_date", "number", "verification_number", "pin"] }

def CardBody.decode : Decoder CardBody := fun v =>
  (asRecord CardBody.shape v).bind fun r => do
    let cardholderName ← orElse r "cardholder_name" none text
    let expirationDate ← orElse r "expiration_date" none text
    let number ← orElse r "number" {} NonEmpty.decode
    let verificationNumber ← orElse r "verification_number" {} NonEmpty.decode
    let pin ← orElse r "pin" {} NonEmpty.decode
    some { cardholderName, expirationDate, number, verificationNumber, pin }

/-!
### Identities

The members of an identity of which only the presence is kept, with their labels, in the groups the
Proton Pass UI shows them in. Those of a group are declared one after the other.
-/

def personalMembers : List (String × String) :=
  [("phone_number", "Phone number"), ("first_name", "First name"), ("middle_name", "Middle name"),
    ("last_name", "Last name"), ("birthdate", "Birthdate"), ("gender", "Gender")]

def addressMembers : List (String × String) :=
  [("organization", "Organization"), ("street_address", "Street address"),
    ("zip_or_postal_code", "ZIP or postal code"), ("city", "City"),
    ("state_or_province", "State or province"), ("country_or_region", "Country or region"),
    ("floor", "Floor"), ("county", "County")]

def documentMembers : List (String × String) :=
  [("social_security_number", "Social security number"), ("passport_number", "Passport number"),
    ("license_number", "License number")]

def contactMembers : List (String × String) :=
  [("website", "Website"), ("x_handle", "X handle"), ("second_phone_number", "Second phone number"),
    ("linkedin", "LinkedIn"), ("reddit", "Reddit"), ("facebook", "Facebook"), ("yahoo", "Yahoo"),
    ("instagram", "Instagram")]

def workMembers : List (String × String) :=
  [("company", "Company"), ("job_title", "Job title"), ("personal_website", "Personal website"),
    ("work_phone_number", "Work phone number"), ("work_email", "Work email")]

def presenceMembers : List String :=
  (personalMembers ++ addressMembers ++ documentMembers ++ contactMembers ++ workMembers).map
    Prod.fst

/-- Only `fullName` and `email` are kept as values; of the rest, the names of those present. -/
structure IdentityBody where
  fullName : Option String := none
  email : Option String := none
  present : List String := []
  extraPersonalDetails : List RawCustomField := []
  extraAddressDetails : List RawCustomField := []
  extraContactDetails : List RawCustomField := []
  extraWorkDetails : List RawCustomField := []
  sections : List RawSection := []

/-- Identities name their sections `extra_sections`; the other kinds call theirs `sections`. -/
def IdentityBody.shape : Shape :=
  { fields := ["full_name", "email"] ++ personalMembers.map Prod.fst ++ ["extra_personal_details"] ++
      addressMembers.map Prod.fst ++ ["extra_address_details"] ++ documentMembers.map Prod.fst ++
      contactMembers.map Prod.fst ++ ["extra_contact_details"] ++ workMembers.map Prod.fst ++
      ["extra_work_details", "extra_sections"]
    aliases := [("sections", "extra_sections")] }

def IdentityBody.decodePresent (r : List (String × Json)) : Option (List String) := do
  let flags ← presenceMembers.mapM fun name => orElse r name {} NonEmpty.decode
  some (((presenceMembers.zip flags).filter fun member => member.2.present).map Prod.fst)

def IdentityBody.decode : Decoder IdentityBody := fun v =>
  (asRecord IdentityBody.shape v).bind fun r => do
    let fullName ← orElse r "full_name" none text
    let email ← orElse r "email" none text
    let present ← decodePresent r
    let extraPersonalDetails ← orElse r "extra_personal_details" [] (asList RawCustomField.decode)
    let extraAddressDetails ← orElse r "extra_address_details" [] (asList RawCustomField.decode)
    let extraContactDetails ← orElse r "extra_contact_details" [] (asList RawCustomField.decode)
    let extraWorkDetails ← orElse r "extra_work_details" [] (asList RawCustomField.decode)
    let sections ← orElse r "extra_sections" [] (asList RawSection.decode)
    some
      { fullName, email, present, extraPersonalDetails, extraAddressDetails, extraContactDetails,
        extraWorkDetails, sections }

structure WifiBody where
  ssid : Option String := none
  password : NonEmpty := {}
  sections : List RawSection := []

def WifiBody.shape : Shape := { fields := ["ssid", "password", "sections"] }

def WifiBody.decode : Decoder WifiBody := fun v =>
  (asRecord WifiBody.shape v).bind fun r => do
    let ssid ← orElse r "ssid" none text
    let password ← orElse r "password" {} NonEmpty.decode
    let sections ← orElse r "sections" [] (asList RawSection.decode)
    some { ssid, password, sections }

structure SshBody where
  publicKey : Option String := none
  privateKey : NonEmpty := {}
  sections : List RawSection := []

def SshBody.shape : Shape := { fields := ["public_key", "private_key", "sections"] }

def SshBody.decode : Decoder SshBody := fun v =>
  (asRecord SshBody.shape v).bind fun r => do
    let publicKey ← orElse r "public_key" none text
    let privateKey ← orElse r "private_key" {} NonEmpty.decode
    let sections ← orElse r "sections" [] (asList RawSection.decode)
    some { publicKey, privateKey, sections }

structure CustomBody where
  sections : List RawSection := []

def CustomBody.shape : Shape := { fields := ["sections"] }

def CustomBody.decode : Decoder CustomBody := fun v =>
  (asRecord CustomBody.shape v).bind fun r => do
    let sections ← orElse r "sections" [] (asList RawSection.decode)
    some { sections }

inductive KindContent where
  | login (body : LoginBody)
  | card (body : CardBody)
  | identity (body : IdentityBody)
  | wifi (body : WifiBody)
  | ssh (body : SshBody)
  | custom (body : CustomBody)
  | note
  | alias
  | unknown (name : String)
  | missing

/-- One member of the map: the body of a kind this version knows, `null` standing for an empty one. -/
def KindContent.decodeMember (name : String) (v : Json) : Option KindContent :=
  match ItemKind.fromCli name with
  | .login => (asOption LoginBody.decode v).map fun body => login (body.getD {})
  | .creditCard => (asOption CardBody.decode v).map fun body => card (body.getD {})
  | .identity => (asOption IdentityBody.decode v).map fun body => identity (body.getD {})
  | .wifi => (asOption WifiBody.decode v).map fun body => wifi (body.getD {})
  | .sshKey => (asOption SshBody.decode v).map fun body => ssh (body.getD {})
  | .custom => (asOption CustomBody.decode v).map fun body => custom (body.getD {})
  | .note => some note
  | .alias => some .alias
  | .unknown _ => some (unknown name)

/-- The last key counts, but every body has to be one. -/
def KindContent.decode : Decoder KindContent
  | .object members => members.foldlM (fun _ member => decodeMember member.1 member.2) missing
  | _ => none

structure RawContent where
  title : String
  note : NonEmpty
  content : KindContent
  extraFields : List RawCustomField

def RawContent.shape : Shape := { fields := ["title", "note", "content", "extra_fields"] }

def RawContent.decode : Decoder RawContent := fun v =>
  (asRecord RawContent.shape v).bind fun r => do
    let title ← orElse r "title" "" asString
    let note ← orElse r "note" {} NonEmpty.decode
    let content ← orElse r "content" .missing KindContent.decode
    let extraFields ← orElse r "extra_fields" [] (asList RawCustomField.decode)
    some { title, note, content, extraFields }

structure RawItem where
  id : String
  shareId : Option String
  state : String
  modifyTime : String
  title : Option String
  itemType : Option String
  content : Option RawContent

def RawItem.shape : Shape :=
  { fields := ["id", "share_id", "state", "modify_time", "title", "item_type", "content"] }

def RawItem.decode : Decoder RawItem := fun v =>
  (asRecord RawItem.shape v).bind fun r => do
    let id ← required r "id" asString
    let shareId ← orElse r "share_id" none (asOption asString)
    let state ← orElse r "state" "" asString
    let modifyTime ← orElse r "modify_time" "" asString
    let title ← orElse r "title" none (asOption asString)
    let itemType ← orElse r "item_type" none (asOption asString)
    let content ← orElse r "content" none (asOption RawContent.decode)
    some { id, shareId, state, modifyTime, title, itemType, content }

def itemListShape : Shape := { fields := ["items"] }

def decodeItemList : Decoder (List RawItem) := fun v =>
  (asRecord itemListShape v).bind fun r => required r "items" (asList RawItem.decode)

/-! ### Conversion to summaries -/

/-- The last of the entries of each name, in place. -/
def keepLast {α : Type} (name : α → String) : List α → List α
  | [] => []
  | entry :: rest =>
      if rest.any fun other => name other = name entry then keepLast name rest
      else entry :: keepLast name rest

/-- Drops every field and one-time code whose `pass-cli` selector another entry of the same item
repeats, keeping the one `pass-cli` actually resolves: the last. -/
def dedupeSelectors (s : ItemSummary) : ItemSummary :=
  { s with
    fields := keepLast (·.name) s.fields
    totpFields := keepLast (fun name => name) s.totpFields }

def pushField (s : ItemSummary) (field : FieldRef) : ItemSummary :=
  { s with fields := s.fields ++ [field] }

def pushTotp (s : ItemSummary) (name : String) : ItemSummary :=
  { s with totpFields := s.totpFields ++ [name] }

def secretIf (s : ItemSummary) (present : NonEmpty) (name label : String) : ItemSummary :=
  if present.present then pushField s (.secretField name label) else s

def plainIf (s : ItemSummary) (value : Option String) (name label : String) : ItemSummary :=
  match value with
  | some value => pushField s (.plain name label value)
  | none => s

def unstoredIf (s : ItemSummary) (present : List String) (members : List (String × String)) :
    ItemSummary :=
  members.foldl (fun s member =>
    if member.1 ∈ present then pushField s (.unstored member.1 member.2) else s) s

def websiteField (i : Nat) : String × String :=
  if i = 0 then ("url", "Website")
  else ("url" ++ toString (i + 1), "Website " ++ toString (i + 1))

/-- The `pass-cli` selector for `name`, qualified with its section where that is unambiguous. -/
def qualified (section? : Option String) (name : String) : String :=
  match section? with
  | some sectionName =>
      if sectionName ≠ "" ∧ '.' ∉ sectionName.toList ∧ '.' ∉ name.toList then
        sectionName ++ "." ++ name
      else name
  | none => name

/-- Offers the custom fields, possibly of a section, whose value the app can produce on demand. A
one-time code is not addressed by selector and takes no qualifier. -/
def customFieldsIn (s : ItemSummary) (section? : Option String) (raw : List RawCustomField) :
    ItemSummary :=
  raw.foldl (fun s f =>
    match f.content with
    | .hidden => pushField s (.secretField (qualified section? f.name) f.name)
    | .totp => pushTotp s f.name
    | .text | .other => s) s

def customFields (s : ItemSummary) (raw : List RawCustomField) : ItemSummary :=
  customFieldsIn s none raw

def sectionFields (s : ItemSummary) (sections : List RawSection) : ItemSummary :=
  sections.foldl (fun s sec => customFieldsIn s sec.sectionName sec.sectionFields) s

def websites (s : ItemSummary) : Nat → List String → ItemSummary
  | _, [] => s
  | i, url :: urls =>
      let (name, label) := websiteField i
      websites (pushField s (.plain name label url)) (i + 1) urls

def IdentityBody.fill (b : IdentityBody) (s : ItemSummary) : ItemSummary :=
  let s := plainIf s b.fullName "full_name" "Full name"
  let s := plainIf s b.email "email" "Email"
  let s := unstoredIf s b.present personalMembers
  let s := customFields s b.extraPersonalDetails
  let s := unstoredIf s b.present addressMembers
  let s := customFields s b.extraAddressDetails
  let s := documentMembers.foldl
    (fun s member => secretIf s ⟨member.1 ∈ b.present⟩ member.1 member.2) s
  let s := unstoredIf s b.present contactMembers
  let s := customFields s b.extraContactDetails
  let s := unstoredIf s b.present workMembers
  let s := customFields s b.extraWorkDetails
  let s := sectionFields s b.sections
  { s with email := b.email, subtitle := b.fullName }

def KindContent.fill (content : KindContent) (s : ItemSummary) : ItemSummary :=
  match content with
  | .login b =>
      let s := { s with kind := .login }
      let s := plainIf s b.username "username" "Username"
      let s := plainIf s b.email "email" "Email"
      let s := secretIf s b.password "password" "Password"
      let s := websites s 0 b.urls
      let s := if b.totpUri.present then pushTotp s "totp_uri" else s
      { s with
        subtitle := b.username.or b.email
        username := b.username
        email := b.email
        urls := b.urls }
  | .card b =>
      let s := { s with kind := .creditCard }
      let s := secretIf s b.number "number" "Card number"
      let s := plainIf s b.cardholderName "cardholder_name" "Cardholder"
      let s := plainIf s b.expirationDate "expiration_date" "Expiration date"
      let s := secretIf s b.verificationNumber "verification_number" "Security code"
      let s := secretIf s b.pin "pin" "PIN"
      { s with subtitle := b.cardholderName }
  | .identity b => b.fill { s with kind := .identity }
  | .wifi b =>
      let s := { s with kind := .wifi }
      let s := secretIf s b.password "password" "Password"
      let s := plainIf s b.ssid "ssid" "Network name"
      sectionFields { s with subtitle := b.ssid } b.sections
  | .ssh b =>
      let s := { s with kind := .sshKey }
      let s := secretIf s b.privateKey "private_key" "Private key"
      let s := plainIf s b.publicKey "public_key" "Public key"
      sectionFields s b.sections
  | .custom b => sectionFields { s with kind := .custom } b.sections
  | .note => { s with kind := .note }
  | .alias => { s with kind := .alias }
  | .unknown name => { s with kind := .unknown name }
  | .missing => s

def RawContent.fill (c : RawContent) (s : ItemSummary) : ItemSummary :=
  let s := c.content.fill { s with title := c.title }
  let s := customFields s c.extraFields
  if c.note.present then
    let note := FieldRef.secretField "note" "Note"
    if s.kind = .note then { s with fields := note :: s.fields } else pushField s note
  else s

def RawItem.intoSummary (i : RawItem) (share : ShareId) (vaultName : String) : ItemSummary :=
  let share := (i.shareId.map ShareId.mk).getD share
  let summary : ItemSummary :=
    { key := ⟨share, ⟨i.id⟩⟩
      vaultName
      kind := (i.itemType.map ItemKind.fromCli).getD (.unknown "")
      title := i.title.getD ""
      username := none
      email := none
      subtitle := none
      urls := []
      totpFields := []
      fields := []
      modifiedAt := (parseTimestamp i.modifyTime).getD 0 }
  let summary := match i.content with
    | some content => content.fill summary
    | none => summary
  dedupeSelectors summary

def summaries (items : List RawItem) (share : ShareId) (vaultName : String) : List ItemSummary :=
  (items.filter fun i => ¬ eqIgnoreAsciiCase i.state "trashed").map fun i =>
    i.intoSummary share vaultName

/-- `readJson` is `serde_json`'s reading of bytes as a document. -/
def parseItems (readJson : List UInt8 → Option Json) (bytes : List UInt8) (share : ShareId)
    (vaultName : String) : Except PassError (List ItemSummary) :=
  match (readJson bytes).bind decodeItemList with
  | some items => .ok (summaries items share vaultName)
  | none => .error (.protocol "item list")

end CosmicPass
