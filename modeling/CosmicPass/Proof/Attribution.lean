import CosmicPass.Proof.Restart

/-!
# Whose data is held

A listing belongs to the account `pass-cli` was signed in with when the refresh was asked for, a cache
file to the account it names. The reducer sees neither in a listing: it files it under whoever is signed
in when it arrives, or under the account that what it held before was held for, and what is held for
nobody it takes for that of the next account a probe names. `data_attributed` says which three answers
can be misfiled, and that everything held is the signed-in account's own as long as none of them comes;
`Landed` is what has come in since everything held was last forgotten.
-/

namespace CosmicPass

namespace World

/-- The effect was asked for while the account was signed in to `pass-cli`. -/
def askedUnder (w : World) (id : Nat) (account : AccountId) : Bool :=
  w.flights[id]?.any fun flight => flight.account = some account

def listingsOf (w : World) (account : AccountId) : List Listing :=
  w.answered.filterMap fun done =>
    match done with
    | (id, .dataLoaded listing) => if w.askedUnder id account then some listing else none
    | _ => none

def filesOf (w : World) (account : AccountId) : List CacheFile :=
  w.answered.filterMap fun done =>
    match done with
    | (_, .cacheLoaded (some file)) => if file.account = account then some file else none
    | _ => none

def vaultsOf (w : World) (account : AccountId) : List Vault :=
  (w.listingsOf account).flatMap (·.vaults) ++ (w.filesOf account).flatMap (·.vaults)

def itemsOf (w : World) (account : AccountId) : List ItemSummary :=
  (w.listingsOf account).flatMap (·.items) ++ (w.filesOf account).flatMap (·.items)

/-- The items a usage record of the account may be about. -/
def keysOf (w : World) (account : AccountId) : List ItemKey :=
  (w.itemsOf account).map (·.key) ++ (w.filesOf account).flatMap fun file => file.usage.map (·.key)

/-- Every vault, item and usage record held comes from a listing or a cache file of the account. -/
structure HeldFrom (w : World) (account : AccountId) : Prop where
  vaults : ∀ vault ∈ w.model.data.vaults, vault ∈ w.vaultsOf account
  items : ∀ item ∈ w.model.data.items, item ∈ w.itemsOf account
  usage : ∀ r ∈ w.model.usage.records.values, r.key ∈ w.keysOf account

instance (w : World) (account : AccountId) : Decidable (w.HeldFrom account) :=
  decidable_of_iff ((∀ vault ∈ w.model.data.vaults, vault ∈ w.vaultsOf account) ∧
    (∀ item ∈ w.model.data.items, item ∈ w.itemsOf account) ∧
    ∀ r ∈ w.model.usage.records.values, r.key ∈ w.keysOf account)
    ⟨fun ⟨hvaults, hitems, husage⟩ => ⟨hvaults, hitems, husage⟩,
      fun ⟨hvaults, hitems, husage⟩ => ⟨hvaults, hitems, husage⟩⟩

/-- What has landed since everything held was last forgotten: the last listing, with the effect it
answers, and the items copied since. -/
structure Landed where
  listing : Option (Nat × Listing)
  used : List ItemKey
deriving DecidableEq

namespace Landed

def nothing : Landed := { listing := none, used := [] }

def vaults (landed : Landed) : List Vault := landed.listing.toList.flatMap (·.2.vaults)

def items (landed : Landed) : List ItemSummary := landed.listing.toList.flatMap (·.2.items)

/-- The listing was asked for under the account, and the items copied are the account's. -/
def isOf (landed : Landed) (w : World) (account : AccountId) : Bool :=
  (landed.listing.all fun done => w.askedUnder done.1 account) ∧
    ∀ key ∈ landed.used, key ∈ w.keysOf account

/-- What has landed once the message is handled; `id` is the effect it answers. -/
def after (landed : Landed) (m : Model) (id : Nat) (msg : Msg) : Landed :=
  if m.forgets msg then nothing
  else
    match msg with
    | .dataLoaded listing => { listing := some (id, listing), used := [] }
    | .copyFetched key (.ok _) =>
        if m.awaitsCopy key then { landed with used := key :: landed.used } else landed
    | _ => landed

end Landed

def landedNote (w : World) (landed : Landed) : Event → Landed
  | .deliver id _ =>
      match w.resolved.find? fun done => done.1 = id with
      | some (_, msg) => landed.after w.model id msg
      | none => landed
  | _ => landed

/-- The answer is not filed under an account it does not belong to. A listing goes to whoever is signed
in, or else to the account that what is held is held for; a copied item goes to that account; and the
account a probe names takes over what has landed, where it is held for nobody. -/
def belongs (w : World) (landed : Landed) (id : Nat) : Msg → Bool
  | .dataLoaded _ =>
      (w.model.signedInAccount.or w.model.dataAccount).all fun account => w.askedUnder id account
  | .sessionProbed (.ok account) => w.model.dataAccount = none → landed.isOf w account
  | .copyFetched key (.ok _) =>
      w.model.dataAccount.all fun account => w.model.awaitsCopy key → key ∈ w.keysOf account
  | _ => true

def filed (w : World) (landed : Landed) : Event → Bool
  | .deliver id _ => w.resolved.all fun done => done.1 = id → w.belongs landed id done.2
  | _ => true

/-- Whose data is held, and where what is held for nobody has come from. -/
structure Attributed (w : World) (landed : Landed) : Prop where
  owned : ∀ account, w.model.dataAccount = some account → w.HeldFrom account
  vaults : w.model.dataAccount = none → ∀ vault ∈ w.model.data.vaults, vault ∈ landed.vaults
  items : w.model.dataAccount = none → ∀ item ∈ w.model.data.items, item ∈ landed.items
  usage : w.model.dataAccount = none → ∀ r ∈ w.model.usage.records.values,
    r.key ∈ landed.used ∨ ∃ item ∈ landed.items, item.key = r.key
  answered : ∀ id listing, landed.listing = some (id, listing) → (id, .dataLoaded listing) ∈ w.answered

theorem mem_listingsOf {w : World} {account : AccountId} {listing : Listing} :
    listing ∈ w.listingsOf account ↔
      ∃ id, (id, .dataLoaded listing) ∈ w.answered ∧ w.askedUnder id account := by
  rw [listingsOf, List.mem_filterMap]
  constructor
  · rintro ⟨⟨id, msg⟩, hmem, hlisting⟩
    cases msg with
    | dataLoaded other =>
        obtain ⟨hasked, rfl⟩ := by simpa using hlisting
        exact ⟨id, hmem, hasked⟩
    | _ => simp at hlisting
  · rintro ⟨id, hmem, hasked⟩
    exact ⟨_, hmem, by simp [hasked]⟩

theorem mem_filesOf {w : World} {account : AccountId} {file : CacheFile} :
    file ∈ w.filesOf account ↔
      ∃ id, (id, .cacheLoaded (some file)) ∈ w.answered ∧ file.account = account := by
  rw [filesOf, List.mem_filterMap]
  constructor
  · rintro ⟨⟨id, msg⟩, hmem, hfile⟩
    cases msg with
    | cacheLoaded other =>
        cases other with
        | none => simp at hfile
        | some other =>
            obtain ⟨haccount, rfl⟩ := by simpa using hfile
            exact ⟨id, hmem, haccount⟩
    | _ => simp at hfile
  · rintro ⟨id, hmem, haccount⟩
    exact ⟨_, hmem, by simp [haccount]⟩

/-- Whatever has been handled stays handled. -/
structure Sources (w w' : World) : Prop where
  listings : ∀ account listing, listing ∈ w.listingsOf account → listing ∈ w'.listingsOf account
  files : ∀ account file, file ∈ w.filesOf account → file ∈ w'.filesOf account

namespace Sources

variable {w w' : World} {account : AccountId}

theorem vaultsOf (h : Sources w w') {vault : Vault} (hmem : vault ∈ w.vaultsOf account) :
    vault ∈ w'.vaultsOf account := by
  simp only [World.vaultsOf, List.mem_append, List.mem_flatMap] at hmem ⊢
  exact hmem.imp (fun ⟨listing, hlisting, hv⟩ => ⟨listing, h.listings _ _ hlisting, hv⟩)
    fun ⟨file, hfile, hv⟩ => ⟨file, h.files _ _ hfile, hv⟩

theorem itemsOf (h : Sources w w') {item : ItemSummary} (hmem : item ∈ w.itemsOf account) :
    item ∈ w'.itemsOf account := by
  simp only [World.itemsOf, List.mem_append, List.mem_flatMap] at hmem ⊢
  exact hmem.imp (fun ⟨listing, hlisting, hi⟩ => ⟨listing, h.listings _ _ hlisting, hi⟩)
    fun ⟨file, hfile, hi⟩ => ⟨file, h.files _ _ hfile, hi⟩

theorem keysOf (h : Sources w w') {key : ItemKey} (hmem : key ∈ w.keysOf account) :
    key ∈ w'.keysOf account := by
  simp only [World.keysOf, List.mem_append, List.mem_flatMap, List.mem_map] at hmem ⊢
  exact hmem.imp (fun ⟨item, hitem, hk⟩ => ⟨item, h.itemsOf hitem, hk⟩)
    fun ⟨file, hfile, hk⟩ => ⟨file, h.files _ _ hfile, hk⟩

theorem heldFrom (h : Sources w w') (hheld : w.HeldFrom account)
    (hvaults : w'.model.data.vaults = w.model.data.vaults)
    (hitems : w'.model.data.items = w.model.data.items)
    (husage : w'.model.usage = w.model.usage) : w'.HeldFrom account := by
  refine ⟨?_, ?_, ?_⟩
  · intro vault hmem
    exact h.vaultsOf (hheld.vaults vault (hvaults ▸ hmem))
  · intro item hmem
    exact h.itemsOf (hheld.items item (hitems ▸ hmem))
  · intro r hmem
    exact h.keysOf (hheld.usage r (husage ▸ hmem))

end Sources

theorem heldFrom_of_wiped {w : World} {account : AccountId} (h : w.model.Wiped) :
    w.HeldFrom account := by
  refine ⟨?_, ?_, ?_⟩
  · simp [h.vaults]
  · simp [h.items]
  · simp [h.usage, UsageTable.empty]

theorem attributed_of_wiped {w : World} {landed : Landed} (h : w.model.Wiped)
    (hanswered : ∀ id listing, landed.listing = some (id, listing) →
      (id, .dataLoaded listing) ∈ w.answered) : w.Attributed landed := by
  refine ⟨fun _ _ => heldFrom_of_wiped h, fun _ => ?_, fun _ => ?_, fun _ => ?_, hanswered⟩
  · simp [h.vaults]
  · simp [h.items]
  · simp [h.usage, UsageTable.empty]

theorem attributed_of_owned {w : World} {landed : Landed} {account : AccountId}
    (haccount : w.model.dataAccount = some account) (hheld : w.HeldFrom account)
    (hanswered : ∀ id listing, landed.listing = some (id, listing) →
      (id, .dataLoaded listing) ∈ w.answered) : w.Attributed landed := by
  refine ⟨fun named howner => ?_, ?_, ?_, ?_, hanswered⟩
  · rwa [← Option.some.inj (haccount.symm.trans howner)]
  all_goals simp [haccount]

namespace Landed

theorem after_of_not_isAnswer {msg : Msg} (h : msg.isAnswer = false) (landed : Landed) (m : Model)
    (id : Nat) : landed.after m id msg = landed := by
  cases msg <;> first | rfl | simp [Msg.isAnswer] at h

/-- Only a listing takes the place of what has landed. -/
theorem after_extends {msg : Msg} {m : Model} (hforgets : m.forgets msg = false)
    (hlisting : ∀ listing, msg ≠ .dataLoaded listing) (landed : Landed) (id : Nat) :
    (landed.after m id msg).listing = landed.listing ∧
      ∀ key ∈ landed.used, key ∈ (landed.after m id msg).used := by
  unfold after
  rw [if_neg (by simp [hforgets])]
  split
  next listing => exact absurd rfl (hlisting listing)
  next key _ =>
    split
    · exact ⟨rfl, fun _ hmem => List.mem_cons_of_mem _ hmem⟩
    · exact ⟨rfl, fun _ hmem => hmem⟩
  next => exact ⟨rfl, fun _ hmem => hmem⟩

end Landed

section Runs

variable [TextSupport] {w w' : World} {source : Option Nat} {msg : Msg} {now : Int} {landed : Landed}

theorem Handled.sources (h : Handled w source msg now w') : Sources w w' := by
  refine ⟨fun account listing hmem => ?_, fun account file hmem => ?_⟩
  · obtain ⟨id, hdone, hasked⟩ := mem_listingsOf.mp hmem
    obtain ⟨flight, hflight, haccount⟩ := (Option.any_eq_true _ _).mp hasked
    exact mem_listingsOf.mpr ⟨id, h.still_answered hdone,
      (Option.any_eq_true _ _).mpr ⟨flight, h.flights_mono hflight, haccount⟩⟩
  · obtain ⟨id, hdone, haccount⟩ := mem_filesOf.mp hmem
    exact mem_filesOf.mpr ⟨id, h.still_answered hdone, haccount⟩

theorem Handled.askedUnder (h : Handled w source msg now w') {id : Nat} {account : AccountId}
    (hasked : w.askedUnder id account) : w'.askedUnder id account := by
  obtain ⟨flight, hflight, haccount⟩ := (Option.any_eq_true _ _).mp hasked
  exact (Option.any_eq_true _ _).mpr ⟨flight, h.flights_mono hflight, haccount⟩

theorem dataAccount_of_reach {guard : World → Event → Prop} (h : system.Reach guard w)
    {account : AccountId} (hsession : w.model.session = .signedIn account) :
    w.model.dataAccount = some account := by
  refine @Model.invariant_of_update _ TransitionSystem.anyStep
    (fun m => ∀ account, m.session = .signedIn account → m.dataAccount = some account) ?_ ?_ _
    (model_reach h) account hsession
  · simp [Model.new]
  · exact fun m msg now _ _ hinv account => Model.update_dataAccount msg now hinv

omit [TextSupport] in
/-- What has landed of an account's own is the account's. -/
theorem Attributed.heldFrom (hattributed : w.Attributed landed) (hnone : w.model.dataAccount = none)
    {account : AccountId} (hown : landed.isOf w account) : w.HeldFrom account := by
  obtain ⟨hlisting, hused⟩ := of_decide_eq_true hown
  have hlanded : ∀ done ∈ landed.listing.toList, done.2 ∈ w.listingsOf account := by
    rintro ⟨id, listing⟩ hmem
    have hlast := Option.mem_toList.mp hmem
    exact mem_listingsOf.mpr ⟨id, hattributed.answered id listing hlast,
      (Option.all_eq_true _ _).mp hlisting _ hlast⟩
  have hitems : ∀ item ∈ landed.items, item ∈ w.itemsOf account := by
    intro item hmem
    obtain ⟨done, hdone, hitem⟩ := List.mem_flatMap.mp hmem
    exact List.mem_append_left _ (List.mem_flatMap.mpr ⟨_, hlanded done hdone, hitem⟩)
  refine ⟨fun vault hmem => ?_, fun item hmem => ?_, fun r hmem => ?_⟩
  · obtain ⟨done, hdone, hvault⟩ := List.mem_flatMap.mp (hattributed.vaults hnone vault hmem)
    exact List.mem_append_left _ (List.mem_flatMap.mpr ⟨_, hlanded done hdone, hvault⟩)
  · exact hitems item (hattributed.items hnone item hmem)
  · rcases hattributed.usage hnone r hmem with hcopied | ⟨item, hitem, hkey⟩
    · exact hused _ hcopied
    · exact hkey ▸ List.mem_append_left _ (List.mem_map_of_mem (hitems item hitem))

/-- A listing lands, under the account it was asked for under or under none. -/
theorem Attributed.listed {listing : Listing} {id : Nat}
    (h : Handled w (some id) (.dataLoaded listing) now w') (hkeyed : w.model.usage.Keyed)
    (hbelongs : w.belongs landed id (.dataLoaded listing)) :
    w'.Attributed { listing := some (id, listing), used := [] } := by
  obtain ⟨hvaults, hitems, husage, -, haccount⟩ := w.model.update_dataLoaded listing now
  rw [← h.model] at hvaults hitems husage haccount
  have hanswered : (id, Msg.dataLoaded listing) ∈ w'.answered := h.now_answered rfl
  have hlisted : ∀ r ∈ w'.model.usage.records.values, ∃ item ∈ listing.items, item.key = r.key := by
    rw [husage]
    exact fun r hmem => hkeyed.listed_of_prune hmem
  refine ⟨fun account howner => ?_, fun _ => ?_, fun _ => ?_, fun _ r hmem => ?_, ?_⟩
  · have hasked := (Option.all_eq_true _ _).mp hbelongs account (haccount ▸ howner)
    have hlisting : listing ∈ w'.listingsOf account :=
      mem_listingsOf.mpr ⟨id, hanswered, h.askedUnder hasked⟩
    have hown : ∀ item ∈ listing.items, item ∈ w'.itemsOf account := fun item hmem =>
      List.mem_append_left _ (List.mem_flatMap.mpr ⟨listing, hlisting, hmem⟩)
    refine ⟨fun vault hmem => ?_, fun item hmem => ?_, fun r hmem => ?_⟩
    · exact List.mem_append_left _ (List.mem_flatMap.mpr ⟨listing, hlisting, hvaults ▸ hmem⟩)
    · exact hown item (hitems ▸ hmem)
    · obtain ⟨item, hitem, hkey⟩ := hlisted r hmem
      exact hkey ▸ List.mem_append_left _ (List.mem_map_of_mem (hown item hitem))
  · simp [hvaults, Landed.vaults]
  · simp [hitems, Landed.items]
  · exact Or.inr (by simpa [Landed.items] using hlisted r hmem)
  · rintro other late hlast
    obtain ⟨rfl, rfl⟩ := Prod.mk.inj (Option.some.inj hlast)
    exact hanswered

omit [TextSupport] in
theorem Attributed.quiet (hattributed : w.Attributed landed) (h : Quiet w w') :
    w'.Attributed landed := by
  have hsources : Sources w w' := by
    refine ⟨fun account listing hmem => ?_, fun account file hmem => ?_⟩
    · simpa only [mem_listingsOf, World.askedUnder, h.flights, h.answered] using hmem
    · simpa only [mem_filesOf, h.answered] using hmem
  refine ⟨?_, ?_, ?_, ?_, ?_⟩
  · rw [h.model]
    exact fun account howner => hsources.heldFrom (hattributed.owned account howner) (by rw [h.model])
      (by rw [h.model]) (by rw [h.model])
  · rw [h.model]
    exact hattributed.vaults
  · rw [h.model]
    exact hattributed.items
  · rw [h.model]
    exact hattributed.usage
  · rw [h.answered]
    exact hattributed.answered

/-- What is held stays, for the account it is held for; what has landed may grow. -/
theorem Attributed.kept {landed' : Landed} (hattributed : w.Attributed landed)
    (h : Handled w source msg now w') (hvaults : w'.model.data.vaults = w.model.data.vaults)
    (hitems : w'.model.data.items = w.model.data.items) (husage : w'.model.usage = w.model.usage)
    (haccount : w'.model.dataAccount = w.model.dataAccount)
    (hlisting : landed'.listing = landed.listing) (hused : ∀ key ∈ landed.used, key ∈ landed'.used) :
    w'.Attributed landed' := by
  have hsame : landed'.vaults = landed.vaults ∧ landed'.items = landed.items := by
    simp [Landed.vaults, Landed.items, hlisting]
  refine ⟨?_, ?_, ?_, ?_, ?_⟩
  · rw [haccount]
    exact fun account howner =>
      h.sources.heldFrom (hattributed.owned account howner) hvaults hitems husage
  · rw [haccount, hvaults, hsame.1]
    exact hattributed.vaults
  · rw [haccount, hitems, hsame.2]
    exact hattributed.items
  · rw [haccount, husage, hsame.2]
    exact fun hnone r hmem => (hattributed.usage hnone r hmem).imp_left (hused _)
  · rw [hlisting]
    exact fun id listing hlast => h.still_answered (hattributed.answered id listing hlast)

/-- A copied item is recorded for the account that what is held is held for, or for none. -/
theorem Attributed.used {fetch : PendingFetch} {value : SecretString} {id : Nat}
    (hattributed : w.Attributed landed)
    (h : Handled w source (.copyFetched fetch.key (.ok value)) now w')
    (hpending : w.model.view.pending = some fetch)
    (hdata : w'.model.data.vaults = w.model.data.vaults ∧
      w'.model.data.items = w.model.data.items ∧ w'.model.dataAccount = w.model.dataAccount)
    (husage : w'.model.usage = w.model.usage.record fetch.key now)
    (hbelongs : w.belongs landed id (.copyFetched fetch.key (.ok value))) :
    w'.Attributed { landed with used := fetch.key :: landed.used } := by
  obtain ⟨hvaults, hitems, haccount⟩ := hdata
  have hawaits : w.model.awaitsCopy fetch.key := by simp [Model.awaitsCopy, hpending]
  have hrecorded : ∀ r ∈ w'.model.usage.records.values,
      r.key = fetch.key ∨ ∃ old ∈ w.model.usage.records.values, r.key = old.key := by
    rw [husage]
    exact fun r hmem => UsageTable.key_of_mem_values_record hmem
  refine ⟨fun account howner => ?_, ?_, ?_, fun hnone r hmem => ?_, ?_⟩
  · rw [haccount] at howner
    have hheld := hattributed.owned account howner
    have hkey : fetch.key ∈ w.keysOf account :=
      of_decide_eq_true ((Option.all_eq_true _ _).mp hbelongs account howner) hawaits
    refine ⟨fun vault hmem => ?_, fun item hmem => ?_, fun r hmem => ?_⟩
    · exact h.sources.vaultsOf (hheld.vaults vault (hvaults ▸ hmem))
    · exact h.sources.itemsOf (hheld.items item (hitems ▸ hmem))
    · rcases hrecorded r hmem with hnew | ⟨old, hold, hsame⟩
      · exact hnew ▸ h.sources.keysOf hkey
      · exact hsame ▸ h.sources.keysOf (hheld.usage old hold)
  · rw [haccount, hvaults]
    exact hattributed.vaults
  · rw [haccount, hitems]
    exact hattributed.items
  · rcases hrecorded r hmem with hnew | ⟨old, hold, hsame⟩
    · exact Or.inl (hnew ▸ List.mem_cons_self)
    · exact hsame ▸ (hattributed.usage (haccount ▸ hnone) old hold).imp_left (List.mem_cons_of_mem _)
  · exact fun id listing hlast => h.still_answered (hattributed.answered id listing hlast)

/-- A probe names the account that what is held is held for, or takes over what has landed. -/
theorem Attributed.named {named : AccountId} {id : Nat} (hattributed : w.Attributed landed)
    (h : Handled w source (.sessionProbed (.ok named)) now w')
    (hdata : if w.model.heldForAnother named then w'.model.Wiped else w.model.SameData w'.model)
    (hbelongs : w.belongs landed id (.sessionProbed (.ok named))) : w'.HeldFrom named := by
  by_cases hanother : w.model.heldForAnother named
  · rw [if_pos hanother] at hdata
    exact heldFrom_of_wiped hdata
  · rw [if_neg hanother] at hdata
    have hheld : w.HeldFrom named := by
      cases howner : w.model.dataAccount with
      | none => exact hattributed.heldFrom howner (of_decide_eq_true hbelongs howner)
      | some owner =>
          have hsame : owner = named := by
            by_contra hne
            exact hanother (Or.inr (by simpa [howner] using hne))
          exact hsame ▸ hattributed.owned owner howner
    exact h.sources.heldFrom hheld hdata.vaults hdata.items hdata.usage

/-- The account a cache file names is the one it is filed under. -/
theorem heldFrom_of_cacheLoaded {file : CacheFile}
    (h : Handled w source (.cacheLoaded (some file)) now w')
    (hvaults : w'.model.data.vaults = file.vaults) (hitems : w'.model.data.items = file.items)
    (husage : w'.model.usage = (UsageTable.fromRecords file.usage).prune file.items) :
    w'.HeldFrom file.account := by
  obtain ⟨id, hsource⟩ := h.answers_of_isAnswer rfl
  have hfile : file ∈ w'.filesOf file.account :=
    mem_filesOf.mpr ⟨id, h.now_answered hsource, rfl⟩
  refine ⟨fun vault hmem => ?_, fun item hmem => ?_, fun r hmem => ?_⟩
  · exact List.mem_append_right _ (List.mem_flatMap.mpr ⟨file, hfile, hvaults ▸ hmem⟩)
  · exact List.mem_append_right _ (List.mem_flatMap.mpr ⟨file, hfile, hitems ▸ hmem⟩)
  · rw [husage] at hmem
    have hrecord := UsageTable.mem_values_fromRecords (UsageTable.mem_values_prune hmem)
    exact List.mem_append_right _
      (List.mem_flatMap.mpr ⟨file, hfile, List.mem_map_of_mem hrecord⟩)

/-- **What one message does to whose data is held.** -/
theorem Attributed.handled (hattributed : w.Attributed landed) (h : Handled w source msg now w')
    (hkeyed : w.model.usage.Keyed) (id : Nat)
    (hsource : msg.isAnswer → source = some id) (hbelongs : msg.isAnswer → w.belongs landed id msg) :
    w'.Attributed (landed.after w.model id msg) := by
  by_cases hforgets : w.model.forgets msg
  · have hafter : landed.after w.model id msg = .nothing := if_pos hforgets
    rw [hafter]
    exact attributed_of_wiped (h.model ▸ Model.wiped_of_forgets hforgets now) (by simp [Landed.nothing])
  by_cases hlisting : ∃ listing, msg = .dataLoaded listing
  · obtain ⟨listing, rfl⟩ := hlisting
    have hanswers : source = some id := hsource rfl
    subst hanswers
    exact .listed h hkeyed (hbelongs rfl)
  obtain ⟨hlast, hused⟩ := Landed.after_extends (by simpa using hforgets)
    (fun listing hmsg => hlisting ⟨listing, hmsg⟩) landed id
  have hanswered : ∀ other listing, (landed.after w.model id msg).listing = some (other, listing) →
      (other, .dataLoaded listing) ∈ w'.answered := by
    rw [hlast]
    exact fun other listing hsome => h.still_answered (hattributed.answered other listing hsome)
  have hmove := w.model.update_dataMove msg now
  rw [← h.model] at hmove
  cases hmove with
  | keep hsame _ _ =>
      obtain ⟨hvaults, hitems, -, -, -, husage, haccount⟩ := hsame
      exact hattributed.kept h hvaults hitems husage haccount hlast hused
  | wipe hwiped _ _ => exact attributed_of_wiped hwiped hanswered
  | name account hmsg _ haccount hdata =>
      subst hmsg
      exact attributed_of_owned haccount (hattributed.named h hdata (hbelongs rfl)) hanswered
  | list listing hmsg => exact absurd ⟨listing, hmsg⟩ hlisting
  | cache file hmsg _ _ _ hvaults hitems husage haccount =>
      subst hmsg
      exact attributed_of_owned haccount (heldFrom_of_cacheLoaded h hvaults hitems husage) hanswered
  | use fetch value hmsg hpending _ hdata husage =>
      subst hmsg
      have hawaits : w.model.awaitsCopy fetch.key := by simp [Model.awaitsCopy, hpending]
      have hafter : landed.after w.model id (.copyFetched fetch.key (.ok value)) =
          { landed with used := fetch.key :: landed.used } := by
        simp [Landed.after, Model.forgets, hawaits]
      rw [hafter]
      exact hattributed.used h hpending hdata husage (hbelongs rfl)

/-- The application beside what has landed. -/
abbrev filing : TransitionSystem (World × Landed) Event :=
  system.annotated (fun landed => landed = .nothing) fun w landed e => some (w.landedNote landed e)

theorem attributed_of_reach {s : World × Landed} (h : filing.Reach (fun s e => filed s.1 s.2 e) s) :
    s.1.Attributed s.2 := by
  apply h.invariant
  · rintro ⟨w, landed⟩ ⟨⟨prefs, account, rfl⟩, hempty⟩
    obtain rfl : landed = .nothing := hempty
    exact attributed_of_wiped ⟨rfl, rfl, rfl, rfl, rfl, rfl⟩ (by simp [Landed.nothing])
  · rintro ⟨w, landed⟩ e ⟨w', landed'⟩ hreach hguard hstep hattributed
    obtain ⟨hstep, hnote⟩ := TransitionSystem.annotated_step_eq_some.mp hstep
    obtain rfl : w.landedNote landed e = landed' := Option.some.inj hnote
    have hrun : system.Reach TransitionSystem.anyStep w := hreach.of_annotated
    have hconsistent := consistent_of_reach hrun
    have hkeyed := (Model.usage_wellFormed_of_reach (model_reach hrun)).keyed
    rcases event_cases hconsistent hstep with ⟨msg, now, rfl, hhandled⟩ |
      ⟨id, msg, now, rfl, hmem, hhandled⟩ | ⟨hevent, hquiet⟩
    · have huser := hhandled.user rfl
      have hafter := hattributed.handled hhandled hkeyed 0 (by simp [huser]) (by simp [huser])
      rwa [landed.after_of_not_isAnswer huser] at hafter
    · have hnote : w.landedNote landed (.deliver id now) = landed.after w.model id msg := by
        simp only [landedNote, hconsistent.find?_resolved hmem]
      have hbelongs := List.all_eq_true.mp hguard _ hmem
      rw [hnote]
      exact hattributed.handled hhandled hkeyed id (fun _ => rfl) fun _ => by simpa using hbelongs
    · have hnote : w.landedNote landed e = landed := by
        rcases hevent with ⟨_, _, rfl⟩ | ⟨_, rfl⟩ <;> rfl
      rw [hnote]
      exact hattributed.quiet hquiet

/-- **What is held is the account's it is held for.** -/
theorem heldFrom_of_dataAccount (h : filing.Reach (fun s e => filed s.1 s.2 e) (w, landed))
    {account : AccountId} (haccount : w.model.dataAccount = some account) : w.HeldFrom account :=
  (attributed_of_reach h).owned account haccount

/-- **Data is attributed to the account it came from, as long as nothing is misfiled.** In a run in
which no listing is filed under an account that it was not asked for under, no copied item under an
account that never had it, and no probe names an account that what has landed since everything held was
last forgotten, and is held for nobody, does not come from, everything held while an account is signed
in comes from that account's listings and cache files, and so does everything that would be cached
under its name. -/
theorem data_attributed (h : filing.Reach (fun s e => filed s.1 s.2 e) (w, landed))
    {account : AccountId} (hsession : w.model.session = .signedIn account) :
    w.HeldFrom account ∧ ∀ file, w.model.cacheSnapshot = some file → file.account = account ∧
      (∀ vault ∈ file.vaults, vault ∈ w.vaultsOf account) ∧
      (∀ item ∈ file.items, item ∈ w.itemsOf account) ∧
      ∀ r ∈ file.usage, r.key ∈ w.keysOf account := by
  have hrun : system.Reach TransitionSystem.anyStep w := h.of_annotated
  have hheld := heldFrom_of_dataAccount h (dataAccount_of_reach hrun hsession)
  refine ⟨hheld, fun file hsnapshot => ?_⟩
  rw [Model.cacheSnapshot, hsession] at hsnapshot
  obtain ⟨fetchedAt, -, rfl⟩ := Option.map_eq_some_iff.mp hsnapshot
  exact ⟨rfl, hheld.vaults, hheld.items,
    fun r hmem => hheld.usage r (UsageTable.mem_sortedRecords.mp hmem)⟩

end Runs

section Examples

attribute [local instance] plainText

/-- A probe that answers with who is signed in to `pass-cli`. -/
def truthful (w : World) : Event → Bool
  | .resolve _ (.account (.ok account)) => w.account = some account
  | _ => true

def ada : AccountId := ⟨"ada"⟩

def bob : AccountId := ⟨"bob"⟩

/-- The application starts, and finds Ada signed in: effects 0 to 2, and the refresh is effect 3. -/
def signInAda : List Event :=
  [.send .startup 0, .resolve 2 (.account (.ok ada)), .deliver 2 0]

/-- A listing is in, and held for nobody, when the probe names Ada. -/
theorem data_attributed_ada : ∃ w : World, w.model.session = .signedIn ada ∧
    w.model.data.items = [mailLogin] ∧ w.model.usage ≠ .empty ∧ w.HeldFrom ada := by
  have hrun : ∃ s : World × Landed, filing.Reach (fun s e => filed s.1 s.2 e) s ∧
      s.1.model.session = .signedIn ada ∧ s.1.model.data.items = [mailLogin] ∧
      s.1.model.usage ≠ .empty := by
    refine TransitionSystem.exists_reach_of_run (start .default (some ada), Landed.nothing)
      (listMailLogin ++ [.send .startup 0, .resolve 4 (.account (.ok ada)), .deliver 4 0,
        .send .copyPrimary 0, .resolve 6 (.field (.ok ⟨"hunter2"⟩)), .deliver 6 0])
      ⟨⟨_, _, rfl⟩, rfl⟩ ?_
    decide
  obtain ⟨⟨w, landed⟩, hreach, hsession, hitems, husage⟩ := hrun
  exact ⟨w, hsession, hitems, husage, (data_attributed hreach hsession).1⟩

/-- Bob signs in while Ada's listing is under way: it arrives after the probe that names him, and is
filed, and would be cached, under his name. -/
theorem data_misfiled : ∃ w : World, system.Reach (fun w e => truthful w e) w ∧
    w.model.session = .signedIn bob ∧ w.model.data.items = [mailLogin] ∧ w.itemsOf bob = [] ∧
    w.itemsOf ada = [mailLogin] ∧
    w.model.cacheSnapshot.map (fun file => (file.account, file.items)) = some (bob, [mailLogin]) := by
  refine TransitionSystem.exists_reach_of_run (start .default (some ada))
    (signInAda ++ [.switchAccount (some bob), .send .startup 0, .resolve 6 (.account (.ok bob)),
      .deliver 6 0, .resolve 3 (.listing (.ok { vaults := [], items := [mailLogin] })),
      .deliver 3 0]) ⟨_, _, rfl⟩ ?_
  decide

end Examples

end World

end CosmicPass
