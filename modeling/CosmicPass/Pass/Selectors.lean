import CosmicPass.Pass.Parse

/-!
# What pass-cli finds in an item

`item view --field` finds a member of the body of an item's kind that is not empty, its note, a custom
field by its name, or one of a section by `Section.Field`. `selectors` lists them for an entry of a
listing.
-/

namespace CosmicPass

open Json

def bodyShape : ItemKind → Shape
  | .login => LoginBody.shape
  | .creditCard => CardBody.shape
  | .identity => IdentityBody.shape
  | .wifi => WifiBody.shape
  | .sshKey => SshBody.shape
  | .custom => CustomBody.shape
  | .note | .alias | .unknown _ => { fields := [] }

def itemContent (entry : Json) : Option Json := member RawItem.shape "content" entry

/-- The kind of an item with the members of that kind: the last member of the map. -/
def itemBody (entry : Json) : Option (ItemKind × Json) :=
  ((itemContent entry).bind (member RawContent.shape "content")).bind fun kinds =>
    kinds.members.getLast?.map fun member => (ItemKind.fromCli member.1, member.2)

def bodyElements (entry : Json) (field : String) : List Json :=
  (itemBody entry).elim [] fun body => elementsAt (bodyShape body.1) field body.2

def memberNames (entry : Json) : List String :=
  (itemBody entry).elim [] fun body => filledNames (bodyShape body.1) body.2

def noteNames (entry : Json) : List String :=
  if ((itemContent entry).bind (member RawContent.shape "note")).any filled then ["note"] else []

def namesIn (fields : List Json) : List String :=
  fields.filterMap fun f => (member RawCustomField.shape "name" f).bind asString

def sectionsOf (entry : Json) : List Json :=
  ["sections", "extra_sections"].flatMap (bodyElements entry)

def sectionNames (sec : Json) : List String :=
  namesIn (elementsAt RawSection.shape "section_fields" sec)

/-- `Section.Field`, where the dot between them is the only one. -/
def sectionSelectors (sec : Json) : List String :=
  ((member RawSection.shape "section_name" sec).bind asString).elim [] fun title =>
    ((sectionNames sec).filter fun name =>
      title ≠ "" ∧ '.' ∉ title.toList ∧ '.' ∉ name.toList).map fun name => title ++ "." ++ name

/-- The custom fields of an identity, by the group they are shown in. -/
def detailGroups : List String :=
  ["extra_personal_details", "extra_address_details", "extra_contact_details", "extra_work_details"]

/-- The names of the custom fields, those in sections among them. -/
def customNames (entry : Json) : List String :=
  namesIn ((itemContent entry).elim [] (elementsAt RawContent.shape "extra_fields")) ++
    detailGroups.flatMap (fun group => namesIn (bodyElements entry group)) ++
    (sectionsOf entry).flatMap sectionNames

/-- Every name `item view --field` finds something under. -/
def selectors (entry : Json) : List String :=
  memberNames entry ++ noteNames entry ++ customNames entry ++
    (sectionsOf entry).flatMap sectionSelectors

/-- The names made up for the websites of an entry. -/
def websiteNames (entry : Json) : List String :=
  (List.range (bodyElements entry "urls").length).map fun i => (websiteField i).1

end CosmicPass
