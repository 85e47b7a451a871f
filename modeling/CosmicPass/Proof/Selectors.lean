import CosmicPass.Core.Runs
import CosmicPass.Proof.EntryNames
import CosmicPass.Proof.RevealBooks
import CosmicPass.Proof.CopyReveal

/-!
# The names pass-cli is asked for

A copy or a reveal asks for a field by the name it is listed under, and every field of an item is on
some row, so the names asked for are the names of its fields. They are all found, except the websites:
these are one member, `urls`, and `url`, `url2`, ... are found only where something else in the entry
happens to go by them.
-/

namespace CosmicPass

open Json

/-! ### What the app asks for -/

/-- The item is the one held under its key. -/
def Model.Holds (m : Model) (item : ItemSummary) : Prop :=
  item ∈ m.data.items ∧ ∀ other ∈ m.data.items, other.key = item.key → other = item

section Asking

variable [TextSupport] {item : ItemSummary} {name : String}

/-- In some run, `pass-cli` is asked for a field of the item by that name. -/
def ItemSummary.AsksFor (item : ItemSummary) (name : String) : Prop :=
  ∃ m msg now effect, Model.system.Reach TransitionSystem.anyStep m ∧ m.Holds item ∧
    effect ∈ (Model.update m msg now).2 ∧ effect.request = some (item.key, some name)

theorem mem_names_of_asksFor (h : item.AsksFor name) : name ∈ item.names := by
  obtain ⟨m, msg, now, effect, -, ⟨-, honly⟩, hmem, hrequest⟩ := h
  cases effect with
  | fetchAndCopy key field secret cancel =>
      obtain ⟨rfl, rfl⟩ : key = item.key ∧ field = name := by simpa [Effect.request] using hrequest
      obtain ⟨other, hother, source, hoffers, -, heffect, -⟩ := m.startCopy_of_mem_update hmem rfl
      cases source with
      | totp _ => simp [CopySource.fetch] at heffect
      | field f =>
          obtain ⟨hkey, rfl, -, -⟩ := Effect.fetchAndCopy.inj heffect
          obtain rfl := honly other hother hkey.symm
          exact List.mem_map_of_mem hoffers
  | fetchReveal key field index generation cancel =>
      obtain ⟨rfl, rfl⟩ : key = item.key ∧ field = name := by simpa [Effect.request] using hrequest
      obtain ⟨-, ⟨target, _, heffect, -, -, -, -, hdescribes⟩ | ⟨_, _, _, heffect, -⟩⟩ :=
        World.reveal_of_mem_update hmem rfl
      · obtain ⟨hkey, rfl, -, -, -⟩ := Effect.fetchReveal.inj heffect
        obtain ⟨other, hother, hdescribes⟩ := (Option.any_eq_true _ _).mp hdescribes
        rw [← hkey] at hother
        obtain ⟨hheld, hother⟩ := m.item_eq_some hother
        obtain rfl := honly other hheld hother
        have hfield : other.fields[target.index]? = some target.field := by
          simp only [RevealTarget.stillDescribes, decide_eq_true_eq] at hdescribes
          exact hdescribes.2.2
        exact List.mem_map_of_mem (List.mem_of_getElem? hfield)
      · simp at heffect
  | _ => simp [Effect.request] at hrequest

theorem Model.selectedItem_of_listing (hempty : TextSupport.patternAtoms "" = [])
    (item : ItemSummary) :
    ((Model.new .default).dataLoaded { vaults := [], items := [item] } 0).1.selectedItem =
      some item := by
  have hlimit : Preferences.default.maxResults = 12 := rfl
  simp [dataLoaded, replaceItems, recomputeResults, dropStaleReveal_eq, selectedItem,
    SearchIndex.search, SearchIndex.candidates, hempty, SearchIndex.build, rowOf, new, hlimit]

/-- A listing of the item alone, with its field list open. -/
theorem actions_of_listing (hempty : TextSupport.patternAtoms "" = []) (item : ItemSummary) :
    ∃ m, Model.system.Reach TransitionSystem.anyStep m ∧ m.data.items = [item] ∧
      m.view.mode = .actions item.key 0 := by
  have hstart : Model.system.Reach TransitionSystem.anyStep (Model.new .default) := .start ⟨_, rfl⟩
  have hlisted := hstart.next (e := (.dataLoaded { vaults := [], items := [item] }, 0)) trivial rfl
  have hopened := hlisted.next (e := (.openActions, 0)) trivial rfl
  have hselected := Model.selectedItem_of_listing hempty item
  refine ⟨_, hopened, ?_, ?_⟩ <;> simp only [Model.update, Model.openActions, hselected]
  exact (Model.replaceItems_data _ _).2.1

theorem asksFor_of_mem_names (hempty : TextSupport.patternAtoms "" = []) (h : name ∈ item.names) :
    item.AsksFor name := by
  obtain ⟨field, hfield, rfl⟩ := List.mem_map.mp h
  obtain ⟨m, hreach, hitems, hmode⟩ := actions_of_listing hempty item
  obtain ⟨row, hrow, hsource⟩ := row_of_field hfield
  obtain ⟨i, hi⟩ := List.getElem?_of_mem hrow
  have htarget : m.targetItem = some item := by
    simp [Model.targetItem, hmode, Model.item, hitems]
  have hactions : m.actions[i]? = some row := by rw [Model.actions, htarget]; exact hi
  have hheld : m.Holds item := by simp [Model.Holds, hitems]
  refine ⟨m, .activateAction (some i), 0, (CopySource.field field).fetch item.key m.tokens.next,
    hreach, hheld, ?_, rfl⟩
  simp [Model.update, Model.activateAction, hmode, hactions, hsource, (m.startCopy_spec _ _).1]

end Asking

/-! ### Which of them are found -/

section Listings

variable {entry doc : Json} {name : String} {share : ShareId} {vaultName : String}
  {items : List ItemSummary} {item : ItemSummary}

theorem websiteField_ne_note (i : Nat) : (websiteField i).1 ≠ "note" := by
  intro h
  have hhead := congrArg (fun text => text.toList.head?) h
  unfold websiteField at hhead
  split at hhead <;> simp at hhead

/-- A website's name finds nothing of its own: a member or a custom field goes by it. -/
theorem website_selects (hwebsite : name ∈ websiteNames entry) (h : name ∈ selectors entry) :
    name ∈ memberNames entry ∨ name ∈ customNames entry := by
  obtain ⟨v, hbody⟩ := login_of_websites hwebsite
  obtain ⟨i, -, hname⟩ := List.mem_map.mp hwebsite
  have hsections : sectionsOf entry = [] := by
    simp only [sectionsOf, bodyElements, hbody, List.flatMap_cons, List.flatMap_nil,
      List.append_nil, Option.elim_some]
    rw [elementsAt_undeclared (by decide), elementsAt_undeclared (by decide)]
    rfl
  rw [selectors, hsections, List.flatMap_nil, List.append_nil] at h
  rcases List.mem_append.mp h with hrest | hcustom
  · rcases List.mem_append.mp hrest with hmember | hnote
    · exact Or.inl hmember
    · obtain ⟨-, hnote⟩ := List.mem_ite_nil_right.mp hnote
      exact absurd (hname.trans (List.mem_singleton.mp hnote)) (websiteField_ne_note i)
  · exact Or.inr hcustom

/-- The entry of a listing that an item was read from. -/
structure ReadFrom (doc : Json) (share : ShareId) (vaultName : String) (item : ItemSummary)
    (entry : Json) : Prop where
  listed : entry ∈ elementsAt itemListShape "items" doc
  read : (RawItem.decode entry).map (fun i => i.intoSummary share vaultName) = some item

theorem ReadFrom.named (h : ReadFrom doc share vaultName item entry) : Named entry item := by
  obtain ⟨i, hdecode, rfl⟩ := Option.map_eq_some_iff.mp h.read
  exact named_of_entry hdecode share vaultName

theorem exists_readFrom {readJson : List UInt8 → Option Json} {bytes : List UInt8}
    (hdoc : readJson bytes = some doc)
    (hparse : parseItems readJson bytes share vaultName = .ok items) (hmem : item ∈ items) :
    ∃ entry, ReadFrom doc share vaultName item entry := by
  unfold parseItems at hparse
  split at hparse
  next raw hraw =>
    obtain rfl := Except.ok.inj hparse
    obtain ⟨i, hi, rfl⟩ := List.mem_map.mp hmem
    rw [hdoc, Option.bind_some] at hraw
    obtain ⟨r, hrecord, hrequired⟩ := Option.bind_eq_some_iff.mp hraw
    obtain ⟨entry, hentry, hdecode⟩ := mem_of_map_decode
      (elementsAt_of_required hrecord hrequired) (List.mem_filter.mp hi).1
    exact ⟨entry, hentry, by rw [hdecode]; rfl⟩
  next => simp at hparse

/-- **Which selectors are found.** Every item of a listing is read from an entry of it, and whatever
the app asks `pass-cli` of the item is found there, if and only if the name of each website, if it has
any, happens to be the name of a member or custom field of the entry. -/
theorem selectors_found_iff [TextSupport] (hempty : TextSupport.patternAtoms "" = [])
    {readJson : List UInt8 → Option Json} {bytes : List UInt8} (hdoc : readJson bytes = some doc)
    (hparse : parseItems readJson bytes share vaultName = .ok items) (hmem : item ∈ items) :
    (∃ entry, ReadFrom doc share vaultName item entry) ∧
      ∀ entry, ReadFrom doc share vaultName item entry →
        ((∀ name, item.AsksFor name → name ∈ selectors entry) ↔
          ∀ name ∈ websiteNames entry, name ∈ memberNames entry ∨ name ∈ customNames entry) := by
  refine ⟨exists_readFrom hdoc hparse hmem, fun entry hread => ?_⟩
  have hnamed := hread.named
  constructor
  · intro hfound name hwebsite
    have hasked := asksFor_of_mem_names hempty ((hnamed name).1 hwebsite)
    exact website_selects hwebsite (hfound name hasked)
  · intro hwebsites name hasked
    rcases (hnamed name).2 (mem_names_of_asksFor hasked) with hselects | hwebsite
    · exact hselects
    · rcases hwebsites name hwebsite with hmember | hcustom
      · simp only [selectors, List.mem_append, hmember, true_or]
      · simp only [selectors, List.mem_append, hcustom, true_or, or_true]

end Listings

section Examples

attribute [local instance] World.plainText

def networkEntry : Json :=
  .object [("id", .string "id1"), ("state", .string "Active"), ("content", .object
    [("title", .string "Home"), ("note", .string "attic"), ("content", .object [("Wifi", .object
      [("ssid", .string "home"), ("password", .string "p"), ("sections", .array [.object
        [("section_name", .string "Router"), ("section_fields", .array [.object
          [("name", .string "Admin"), ("content", .object [("Hidden", .string "a")])]])]])])])])]

def networkListingBytes : List UInt8 :=
  ("\x7b\"items\":[\x7b\"id\":\"id1\",\"state\":\"Active\",\"content\":\x7b\"title\":\"Home\"," ++
    "\"note\":\"attic\",\"content\":\x7b\"Wifi\":\x7b\"ssid\":\"home\",\"password\":\"p\"," ++
    "\"sections\":[\x7b\"section_name\":\"Router\",\"section_fields\":[\x7b\"name\":\"Admin\"," ++
    "\"content\":\x7b\"Hidden\":\"a\"\x7d\x7d]\x7d]\x7d\x7d\x7d\x7d]\x7d").toUTF8.data.toList

def siteEntry : Json :=
  .object [("id", .string "id1"), ("state", .string "Active"), ("content", .object
    [("title", .string "Mail"), ("content", .object [("Login", .object
      [("username", .string "ada"), ("urls", .array [.string "https://mail.example"])])])])]

def siteListingBytes : List UInt8 :=
  ("\x7b\"items\":[\x7b\"id\":\"id1\",\"state\":\"Active\",\"content\":\x7b\"title\":\"Mail\"," ++
    "\"content\":\x7b\"Login\":\x7b\"username\":\"ada\",\"urls\":[\"https://mail.example\"]" ++
    "\x7d\x7d\x7d\x7d]\x7d").toUTF8.data.toList

def listingOf (entry : Json) : Json := .object [("items", .array [entry])]

def readListing (listed : List UInt8) (entry : Json) (bytes : List UInt8) : Option Json :=
  if bytes = listed then some (listingOf entry) else none

theorem mem_listingOf (entry : Json) : entry ∈ elementsAt itemListShape "items" (listingOf entry) :=
  List.mem_singleton_self entry

def networkItem : ItemSummary :=
  { key := ⟨⟨"share"⟩, ⟨"id1"⟩⟩
    vaultName := "Personal"
    kind := .wifi
    title := "Home"
    username := none
    email := none
    subtitle := some "home"
    urls := []
    totpFields := []
    fields := [.secretField "password" "Password", .plain "ssid" "Network name" "home",
      .secretField "Router.Admin" "Admin", .secretField "note" "Note"]
    modifiedAt := 0 }

theorem parse_network : parseItems (readListing networkListingBytes networkEntry)
    networkListingBytes ⟨"share"⟩ "Personal" = .ok [networkItem] := by
  unfold parseItems readListing
  rw [if_pos rfl]
  rfl

/-- A field of a section is asked for by its section, and found. -/
theorem selectors_found_network :
    networkItem.AsksFor "Router.Admin" ∧ "Router.Admin" ∈ selectors networkEntry := by
  have hread : ReadFrom (listingOf networkEntry) ⟨"share"⟩ "Personal" networkItem networkEntry :=
    ⟨mem_listingOf _, rfl⟩
  have hfound := selectors_found_iff rfl (if_pos rfl) parse_network (List.mem_singleton_self _)
  have hasked : networkItem.AsksFor "Router.Admin" := asksFor_of_mem_names rfl (by decide)
  exact ⟨hasked, (hfound.2 networkEntry hread).mpr (by decide) _ hasked⟩

def siteItem : ItemSummary :=
  { key := ⟨⟨"share"⟩, ⟨"id1"⟩⟩
    vaultName := "Personal"
    kind := .login
    title := "Mail"
    username := some "ada"
    email := none
    subtitle := some "ada"
    urls := ["https://mail.example"]
    totpFields := []
    fields := [.plain "username" "Username" "ada", .plain "url" "Website" "https://mail.example"]
    modifiedAt := 0 }

/-- A login with one website: it is asked for as `url`, which is no member of the entry. -/
theorem website_not_found :
    parseItems (readListing siteListingBytes siteEntry) siteListingBytes ⟨"share"⟩ "Personal" =
        .ok [siteItem] ∧
      ReadFrom (listingOf siteEntry) ⟨"share"⟩ "Personal" siteItem siteEntry ∧
      siteItem.AsksFor "url" ∧ "url" ∉ selectors siteEntry := by
  refine ⟨?_, ⟨mem_listingOf _, rfl⟩, asksFor_of_mem_names rfl (by decide), by decide⟩
  unfold parseItems readListing
  rw [if_pos rfl]
  rfl

end Examples

end CosmicPass
