import CosmicPass.Proof.Restart
import Mathlib.Data.List.Permutation

/-!
# The cache and the first listing

At the start three answers are on their way: the cache file, the account, and the listing asked for
once the account is known. A file that comes before the listing leaves its usage records to the items
both list. A file that comes after it is passed over, records and all, so the orders agree exactly
where there is no such record to lose.
-/

namespace CosmicPass

def CacheFile.undated (file : CacheFile) : CacheFile := { file with fetchedAt := 0 }

namespace UsageTable

theorem prune_eq_empty_iff (t : UsageTable) (items : List ItemSummary) :
    t.prune items = empty ↔ ∀ item ∈ items, t.recency item.key = none := by
  constructor
  · intro h item hmem
    rw [← t.recency_prune_of_mem hmem, h]
    rfl
  · intro h
    have hrecords : (t.prune items).records = OrderedMap.empty := by
      refine OrderedMap.ext_get? fun key => ?_
      rw [get?_prune]
      split
      next hlisted =>
        obtain ⟨item, hmem, hkey⟩ := List.any_eq_true.mp hlisted
        have hnone := h item hmem
        rw [of_decide_eq_true hkey] at hnone
        simpa [recency] using hnone
      next => rfl
    cases hpruned : t.prune items with
    | mk records =>
        rw [hpruned] at hrecords
        exact congrArg UsageTable.mk hrecords

theorem recency_prune (t : UsageTable) (items : List ItemSummary) (key : ItemKey) :
    (t.prune items).recency key =
      if items.any fun item => item.key = key then t.recency key else none := by
  rw [recency, get?_prune]
  split <;> rfl

end UsageTable

namespace Model

section Orders

variable [TextSupport]

def started (prefs : Preferences) (startedAt : Int) : Model :=
  ((new prefs).update .startup startedAt).1

/-- The cache file, the account and the listing come in, the listing after a refresh was asked for. -/
structure FirstAnswers (prefs : Preferences) (startedAt : Int) (file : CacheFile)
    (listing : Listing) (events : List (Msg × Int)) : Prop where
  each : (events.map Prod.fst).Perm
    [.cacheLoaded (some file), .sessionProbed (.ok file.account), .dataLoaded listing]
  asked : ∀ before now after, events = before ++ (.dataLoaded listing, now) :: after →
    .refresh ∈ ((started prefs startedAt).handle before).2

/-- The same items, vaults and usage, and the same snapshot up to its time. -/
structure SameHoldings (left right : Model) : Prop where
  vaults : left.data.vaults = right.data.vaults
  items : left.data.items = right.data.items
  usage : left.usage = right.usage
  snapshot : left.cacheSnapshot.map CacheFile.undated = right.cacheSnapshot.map CacheFile.undated

/-- What the orders all end in, but for the usage table. -/
structure Listed (account : AccountId) (listing : Listing) (usage : UsageTable) (m : Model) :
    Prop where
  vaults : m.data.vaults = listing.vaults
  items : m.data.items = listing.items
  usage : m.usage = usage
  session : m.session = .signedIn account
  fetched : m.data.source = .memory ∧ m.data.fetchedAt.isSome

omit [TextSupport] in
theorem Listed.sameHoldings {account : AccountId} {listing : Listing} {usage : UsageTable}
    {left right : Model} (hleft : Listed account listing usage left)
    (hright : Listed account listing usage right) : SameHoldings left right := by
  refine ⟨hleft.vaults.trans hright.vaults.symm, hleft.items.trans hright.items.symm,
    hleft.usage.trans hright.usage.symm, ?_⟩
  obtain ⟨hsource, hfetched⟩ := hleft.fetched
  obtain ⟨hsource', hfetched'⟩ := hright.fetched
  obtain ⟨leftAt, hleftAt⟩ := Option.isSome_iff_exists.mp hfetched
  obtain ⟨rightAt, hrightAt⟩ := Option.isSome_iff_exists.mp hfetched'
  simp [cacheSnapshot, hleft.session, hright.session, hsource, hsource', hleftAt, hrightAt,
    CacheFile.undated, hleft.vaults, hright.vaults, hleft.items, hright.items, hleft.usage,
    hright.usage]

theorem dataLoaded_listed {m : Model} {account : AccountId} (listing : Listing) (now : Int)
    (hsession : m.session = .signedIn account) :
    Listed account listing (m.usage.prune listing.items) (m.dataLoaded listing now).1 := by
  constructor <;>
    simp [dataLoaded, replaceItems, dropStaleReveal_eq, recomputeResults, hsession]

theorem signedIn_keeps {m : Model} {account : AccountId} (h : ¬ m.heldForAnother account) :
    (m.signedIn account).1.session = .signedIn account ∧
      (m.signedIn account).1.dataAccount = some account ∧
      (m.signedIn account).1.usage = m.usage ∧
      (m.signedIn account).1.data.fetchedAt = m.data.fetchedAt := by
  simp [signedIn_fst, if_neg h, requestRefresh_fst]

theorem cacheLoaded_first {m : Model} (file : CacheFile) (hfirst : m.data.fetchedAt = none)
    (howner : ∀ account, m.session = .signedIn account → account = file.account) :
    (m.cacheLoaded (some file)).1.session = m.session ∧
      (m.cacheLoaded (some file)).1.dataAccount = some file.account ∧
      (m.cacheLoaded (some file)).1.usage =
        (UsageTable.fromRecords file.usage).prune file.items := by
  have hsigned : ¬ m.signedInAccount.any fun account => account ≠ file.account := by
    cases hsession : m.session <;> simp [signedInAccount, hsession]
    exact howner _ hsession
  have hfetched : ¬ m.data.fetchedAt.isSome := by simp [hfirst]
  simp only [cacheLoaded, if_neg hfetched, if_neg hsigned]
  refine ⟨?_, ?_, ?_⟩
  · rw [(replaceItems_data _ _).2.2.2.1]
  · rw [(replaceItems_data _ _).2.2.2.2]
  · rw [(replaceItems_data _ _).2.2.1]

theorem cacheLoaded_late {m : Model} (file : Option CacheFile) (h : m.data.fetchedAt.isSome) :
    m.cacheLoaded file = (m, []) := by
  cases file <;> simp [cacheLoaded, h]

variable (prefs : Preferences) (startedAt : Int) (file : CacheFile) (listing : Listing)

/-- The records that outlive the first listing, in the orders that keep any. -/
def usageKept : UsageTable := ((UsageTable.fromRecords file.usage).prune file.items).prune listing.items

theorem cache_session_listing (cacheAt sessionAt listingAt : Int) :
    Listed file.account listing (usageKept file listing)
      ((started prefs startedAt).handle [(.cacheLoaded (some file), cacheAt),
        (.sessionProbed (.ok file.account), sessionAt), (.dataLoaded listing, listingAt)]).1 := by
  obtain ⟨hsession, howner, husage⟩ :=
    cacheLoaded_first (m := started prefs startedAt) file rfl fun _ h => nomatch h
  have hsame : ¬ ((started prefs startedAt).cacheLoaded (some file)).1.heldForAnother file.account := by
    have hchecking : (started prefs startedAt).session = .checking := rfl
    rw [hchecking] at hsession
    simp [heldForAnother, signedInAccount, hsession, howner]
  obtain ⟨hsession', -, husage', -⟩ := signedIn_keeps hsame
  rw [usageKept, ← husage, ← husage']
  exact dataLoaded_listed listing listingAt hsession'

theorem session_cache_listing (cacheAt sessionAt listingAt : Int) :
    Listed file.account listing (usageKept file listing)
      ((started prefs startedAt).handle [(.sessionProbed (.ok file.account), sessionAt),
        (.cacheLoaded (some file), cacheAt), (.dataLoaded listing, listingAt)]).1 := by
  have hsame : ¬ (started prefs startedAt).heldForAnother file.account := by
    simp [heldForAnother, signedInAccount, started, update, startup, new]
  obtain ⟨hsession, howner, -, hfetched⟩ := signedIn_keeps hsame
  obtain ⟨hsession', -, husage'⟩ := cacheLoaded_first file hfetched fun account h => by
    rw [hsession] at h
    exact (SessionState.signedIn.inj h).symm
  rw [usageKept, ← husage']
  exact dataLoaded_listed listing listingAt (hsession'.trans hsession)

theorem session_listing_cache (cacheAt sessionAt listingAt : Int) :
    Listed file.account listing .empty
      ((started prefs startedAt).handle [(.sessionProbed (.ok file.account), sessionAt),
        (.dataLoaded listing, listingAt), (.cacheLoaded (some file), cacheAt)]).1 := by
  have hsame : ¬ (started prefs startedAt).heldForAnother file.account := by
    simp [heldForAnother, signedInAccount, started, update, startup, new]
  obtain ⟨hsession, -, husage, -⟩ := signedIn_keeps hsame
  have hlisted := dataLoaded_listed listing listingAt hsession
  have hlate := cacheLoaded_late (some file) hlisted.fetched.2
  rw [husage] at hlisted
  simp only [handle, update, sessionProbed]
  rw [hlate]
  exact hlisted

variable {prefs startedAt file listing}

theorem refresh_not_mem_cacheLoaded (m : Model) (file : Option CacheFile) :
    .refresh ∉ (m.cacheLoaded file).2 := by
  unfold cacheLoaded
  split
  · simp
  · split
    · simp
    · split <;> simp

/-- The listing comes last, or the cache file comes after it. -/
theorem FirstAnswers.cases {events : List (Msg × Int)}
    (h : FirstAnswers prefs startedAt file listing events) : ∃ cacheAt sessionAt listingAt,
      events = [(.cacheLoaded (some file), cacheAt), (.sessionProbed (.ok file.account), sessionAt),
        (.dataLoaded listing, listingAt)] ∨
      events = [(.sessionProbed (.ok file.account), sessionAt), (.cacheLoaded (some file), cacheAt),
        (.dataLoaded listing, listingAt)] ∨
      events = [(.sessionProbed (.ok file.account), sessionAt), (.dataLoaded listing, listingAt),
        (.cacheLoaded (some file), cacheAt)] := by
  have hlisted : .dataLoaded listing ∈ events.map Prod.fst := h.each.mem_iff.mpr (by simp)
  obtain ⟨⟨_, listingAt⟩, hmem, rfl⟩ := List.mem_map.mp hlisted
  obtain ⟨before, after, rfl⟩ := List.append_of_mem hmem
  have hasked := h.asked before listingAt after rfl
  have hothers : ((before ++ after).map Prod.fst).Perm
      [.cacheLoaded (some file), .sessionProbed (.ok file.account)] := by
    have hmiddle : (.dataLoaded listing :: (before.map Prod.fst ++ after.map Prod.fst)).Perm
        (before.map Prod.fst ++ .dataLoaded listing :: after.map Prod.fst) := List.perm_middle.symm
    refine List.Perm.cons_inv (a := .dataLoaded listing) ?_
    refine .trans ?_ (h.each.trans (List.perm_append_singleton (Msg.dataLoaded listing) [_, _]))
    simpa using hmiddle
  cases before with
  | nil => simp [handle] at hasked
  | cons first rest =>
      obtain ⟨msg, firstAt⟩ := first
      rcases List.perm_pair.mp hothers with hcache | hsession
      · obtain ⟨rfl, hrest⟩ := List.cons.inj hcache
        cases rest with
        | nil =>
            have hnone := refresh_not_mem_cacheLoaded (started prefs startedAt) (some file)
            simp [handle, update, hnone] at hasked
        | cons second rest =>
            obtain ⟨msg, secondAt⟩ := second
            obtain ⟨rfl, hnil⟩ := List.cons.inj hrest
            obtain ⟨rfl, rfl⟩ := List.append_eq_nil_iff.mp (List.map_eq_nil_iff.mp hnil)
            exact ⟨firstAt, secondAt, listingAt, Or.inl rfl⟩
      · obtain ⟨rfl, hrest⟩ := List.cons.inj hsession
        cases rest with
        | nil =>
            obtain ⟨⟨_, cacheAt⟩, rest, rfl, rfl, hnil⟩ := List.map_eq_cons_iff.mp hrest
            obtain rfl := List.map_eq_nil_iff.mp hnil
            exact ⟨cacheAt, firstAt, listingAt, Or.inr (Or.inr rfl)⟩
        | cons second rest =>
            obtain ⟨msg, secondAt⟩ := second
            obtain ⟨rfl, hnil⟩ := List.cons.inj hrest
            obtain ⟨rfl, rfl⟩ := List.append_eq_nil_iff.mp (List.map_eq_nil_iff.mp hnil)
            exact ⟨secondAt, firstAt, listingAt, Or.inr (Or.inl rfl)⟩

theorem refresh_mem_signedIn {m : Model} (h : m.data.refreshing = false) (account : AccountId) :
    .refresh ∈ (m.signedIn account).2 := by
  have hasks : ∀ m : Model, m.data.refreshing = false → .refresh ∈ (requestRefresh
      { m with session := .signedIn account, dataAccount := some account }).2 := by
    intro m hidle
    simp [requestRefresh_snd, mayRefresh, hidle]
  unfold signedIn
  dsimp only
  split
  · exact List.mem_append_right _ (hasks _ h)
  · exact List.mem_append_right _ (hasks _ h)

variable (prefs startedAt file listing)

theorem firstAnswers_cache_first (cacheAt sessionAt listingAt : Int) :
    FirstAnswers prefs startedAt file listing [(.cacheLoaded (some file), cacheAt),
      (.sessionProbed (.ok file.account), sessionAt), (.dataLoaded listing, listingAt)] := by
  refine ⟨.refl _, fun before now after heq => ?_⟩
  have hfile : Untouched .session (started prefs startedAt)
      ((started prefs startedAt).cacheLoaded (some file)) := cacheLoaded_untouched _ (by simp) _
  have hidle : ((started prefs startedAt).cacheLoaded (some file)).1.data.refreshing = false :=
    hfile.same.2
  have hasked := refresh_mem_signedIn hidle file.account
  rcases before with _ | ⟨first, _ | ⟨second, rest⟩⟩
  · simp at heq
  · simp at heq
  · obtain ⟨rfl, rfl, -⟩ : _ = first ∧ _ = second ∧ _ := by simpa using heq
    simp [handle, update, sessionProbed, hasked]

theorem firstAnswers_cache_last (cacheAt sessionAt listingAt : Int) :
    FirstAnswers prefs startedAt file listing [(.sessionProbed (.ok file.account), sessionAt),
      (.dataLoaded listing, listingAt), (.cacheLoaded (some file), cacheAt)] := by
  refine ⟨?_, fun before now after heq => ?_⟩
  · exact List.perm_append_singleton (Msg.cacheLoaded (some file)) [_, _]
  have hasked := refresh_mem_signedIn (m := started prefs startedAt) rfl file.account
  cases before with
  | nil => simp at heq
  | cons first rest =>
      obtain ⟨rfl, -⟩ := List.cons.inj heq
      simp [handle, update, sessionProbed, hasked]

/-- Every order of the first answers ends alike. -/
def Commutes : Prop :=
  ∀ startedAt startedAt' events events', FirstAnswers prefs startedAt file listing events →
    FirstAnswers prefs startedAt' file listing events' →
      SameHoldings ((started prefs startedAt).handle events).1
        ((started prefs startedAt').handle events').1

omit [TextSupport] in
theorem usageKept_eq_empty_iff :
    usageKept file listing = .empty ↔ ∀ item ∈ listing.items,
      (file.items.any fun held => held.key = item.key) →
        (UsageTable.fromRecords file.usage).recency item.key = none := by
  rw [usageKept, UsageTable.prune_eq_empty_iff]
  refine forall₂_congr fun item _ => ?_
  rw [UsageTable.recency_prune]
  split
  next hheld => simp [hheld]
  next hgone => simp [hgone]

/-- **When the cache and the first listing commute.** Exactly where the file's usage table has no
record of an item that both the file and the listing hold. -/
theorem commutes_iff : Commutes prefs file listing ↔ ∀ item ∈ listing.items,
    (file.items.any fun held => held.key = item.key) →
      (UsageTable.fromRecords file.usage).recency item.key = none := by
  rw [← usageKept_eq_empty_iff]
  constructor
  · intro h
    have hsame := h 0 0 _ _ (firstAnswers_cache_first prefs 0 file listing 0 0 0)
      (firstAnswers_cache_last prefs 0 file listing 0 0 0)
    have hkept := (cache_session_listing prefs 0 file listing 0 0 0).usage
    have hlost := (session_listing_cache prefs 0 file listing 0 0 0).usage
    rw [← hkept, ← hlost]
    exact hsame.usage
  · intro hnone
    have hends : ∀ startedAt events, FirstAnswers prefs startedAt file listing events →
        Listed file.account listing .empty ((started prefs startedAt).handle events).1 := by
      intro startedAt events hanswers
      obtain ⟨cacheAt, sessionAt, listingAt, rfl | rfl | rfl⟩ := hanswers.cases
      · exact hnone ▸ cache_session_listing prefs startedAt file listing cacheAt sessionAt listingAt
      · exact hnone ▸ session_cache_listing prefs startedAt file listing cacheAt sessionAt listingAt
      · exact session_listing_cache prefs startedAt file listing cacheAt sessionAt listingAt
    intro startedAt startedAt' events events' hanswers hanswers'
    exact (hends _ _ hanswers).sameHoldings (hends _ _ hanswers')

end Orders

section Examples

attribute [local instance] World.plainText

/-- The listing is in before the keyring has given up the cache file: the use of the login is
forgotten. -/
theorem cache_and_listing_differ :
    ¬ Commutes .default World.mailCache { vaults := [], items := [World.mailLogin] } := by
  intro h
  have hkept := (h 0 0 _ _ (firstAnswers_cache_first .default 0 World.mailCache _ 0 0 0)
    (firstAnswers_cache_last .default 0 World.mailCache _ 0 0 0)).usage
  revert hkept
  decide

end Examples

end Model

end CosmicPass
