import CosmicPass.Core.Runs
import CosmicPass.Proof.DataSlot
import CosmicPass.Proof.Flights
import CosmicPass.Proof.Indexed
import CosmicPass.Proof.UsageTable

/-!
# Restarting from the cache

A fresh state that loads what `cacheSnapshot` gave holds the same items under the same index, and a
usage table that agrees with the old one on every item held. A search only asks for the recency of
items held, so it ranks alike; and what is written out next is what was read in, less the records of
items that are gone.
-/

namespace CosmicPass

section Ranking

variable [TextSupport]

theorem SearchIndex.search_congr (index : SearchIndex) (query : String)
    {left right : ItemKey → Option Int} {items : List ItemSummary} (limit : Nat)
    (h : ∀ item ∈ items, left item.key = right item.key) :
    index.search query left items limit = index.search query right items limit := by
  have hrecency : (fun row : ResultRow => items[row.item]?.bind fun item => left item.key) =
      fun row => items[row.item]?.bind fun item => right item.key := by
    funext row
    cases hitem : items[row.item]? with
    | none => rfl
    | some item => exact h item (List.mem_of_getElem? hitem)
  simp only [search, hrecency]

end Ranking

namespace Model

section Runs

variable [TextSupport] {m : Model}

theorem update_usage_wellFormed (msg : Msg) (now : Int) (h : m.usage.WellFormed) :
    (m.update msg now).1.usage.WellFormed := by
  cases m.update_dataMove msg now with
  | keep hsame =>
      obtain ⟨-, -, -, -, -, husage, -⟩ := hsame
      rwa [husage]
  | wipe hwiped =>
      rw [hwiped.usage]
      exact UsageTable.wellFormed_empty
  | name account _ _ _ hdata =>
      split at hdata
      next =>
        rw [hdata.usage]
        exact UsageTable.wellFormed_empty
      next => rwa [hdata.usage]
  | list listing _ _ _ _ husage =>
      rw [husage]
      exact h.prune listing.items
  | cache file _ _ _ _ _ _ husage =>
      rw [husage]
      exact (UsageTable.wellFormed_fromRecords file.usage).prune file.items
  | use fetch _ _ _ _ _ husage =>
      rw [husage]
      exact h.record fetch.key now

variable {guard : Model → Msg × Int → Prop}

theorem indexed_of_reach (h : system.Reach guard m) : m.Indexed :=
  invariant_of_update (fun _ => rfl) (fun m msg now _ _ => m.update_indexed msg now) h

theorem usage_wellFormed_of_reach (h : system.Reach guard m) : m.usage.WellFormed := by
  induction h with
  | start hinit =>
      obtain ⟨prefs, rfl⟩ := hinit
      exact UsageTable.wellFormed_empty
  | next _ _ hstep ih =>
      obtain rfl := Option.some.inj hstep
      exact update_usage_wellFormed _ _ ih

omit [TextSupport] in
theorem cacheSnapshot_eq_some {file : CacheFile} (h : m.cacheSnapshot = some file) :
    m.session = .signedIn file.account ∧ file.formatVersion = cacheFormatVersion ∧
      file.vaults = m.data.vaults ∧ file.items = m.data.items ∧
      file.usage = m.usage.sortedRecords := by
  unfold cacheSnapshot at h
  split at h
  next account hsession =>
    obtain ⟨fetchedAt, -, rfl⟩ := Option.map_eq_some_iff.mp h
    exact ⟨hsession, rfl, rfl, rfl, rfl⟩
  next => simp at h

theorem results_queryChanged (query : String) (now : Int) :
    (m.update (.queryChanged query) now).1.view.results =
      m.index.search query m.usage.recency m.data.items m.prefs.maxResults := rfl

/-- A fresh start that finds the cache file on disk. -/
def resumed (prefs : Preferences) (file : CacheFile) (startedAt loadedAt : Int) : Model :=
  (((new prefs).update .startup startedAt).1.update (.cacheLoaded (some file)) loadedAt).1

theorem resumed_data (prefs : Preferences) (file : CacheFile) (startedAt loadedAt : Int) :
    (resumed prefs file startedAt loadedAt).data.vaults = file.vaults ∧
      (resumed prefs file startedAt loadedAt).data.items = file.items ∧
      (resumed prefs file startedAt loadedAt).usage =
        (UsageTable.fromRecords file.usage).prune file.items ∧
      (resumed prefs file startedAt loadedAt).prefs = prefs ∧
      (resumed prefs file startedAt loadedAt).session = .checking ∧
      (resumed prefs file startedAt loadedAt).dataAccount = some file.account ∧
      (resumed prefs file startedAt loadedAt).data.source = .diskCache ∧
      (resumed prefs file startedAt loadedAt).data.cachedAt = some file.fetchedAt := by
  simp [resumed, update, startup, new, cacheLoaded, signedInAccount, replaceItems,
    dropStaleReveal_eq, recomputeResults]

theorem resumed_indexed (prefs : Preferences) (file : CacheFile) (startedAt loadedAt : Int) :
    (resumed prefs file startedAt loadedAt).Indexed :=
  update_indexed _ _ _ (update_indexed _ _ _ rfl)

theorem cacheSnapshot_signedIn {account : AccountId} (hsession : m.session = .checking)
    (howner : m.dataAccount = some account) (hsource : m.data.source = .diskCache) (now : Int) :
    (m.update (.sessionProbed (.ok account)) now).1.cacheSnapshot =
      m.data.cachedAt.map fun fetchedAt =>
        { formatVersion := cacheFormatVersion
          account
          fetchedAt
          vaults := m.data.vaults
          items := m.data.items
          usage := m.usage.sortedRecords } := by
  have hsame : ¬ m.heldForAnother account := by
    simp [heldForAnother, signedInAccount, hsession, howner]
  simp only [update, sessionProbed, signedIn_fst, if_neg hsame, requestRefresh_fst, cacheSnapshot,
    hsource]

/-- **Restarting from the cache resumes the same state.** A fresh start with the same preferences that
loads the snapshot holds the same vaults and items and answers every query with the same rows; signed
in again, it would write the same file, less the usage of items that are gone. -/
theorem restart_from_cache (hreach : system.Reach TransitionSystem.anyStep m) {file : CacheFile}
    (hsnapshot : m.cacheSnapshot = some file) (startedAt loadedAt : Int) :
    (resumed m.prefs file startedAt loadedAt).data.vaults = m.data.vaults ∧
      (resumed m.prefs file startedAt loadedAt).data.items = m.data.items ∧
      (∀ query now now',
        ((resumed m.prefs file startedAt loadedAt).update (.queryChanged query) now).1.view.results =
          (m.update (.queryChanged query) now').1.view.results) ∧
      ∀ now, ((resumed m.prefs file startedAt loadedAt).update
          (.sessionProbed (.ok file.account)) now).1.cacheSnapshot =
        some { file with
          usage := file.usage.filter fun r => file.items.any fun item => item.key = r.key } := by
  obtain ⟨-, hversion, hvaults, hitems, hrecords⟩ := cacheSnapshot_eq_some hsnapshot
  obtain ⟨hvaults', hitems', husage', hprefs', hsession', howner', hsource', hcached'⟩ :=
    resumed_data m.prefs file startedAt loadedAt
  have hindexed := indexed_of_reach hreach
  have hindexed' := resumed_indexed m.prefs file startedAt loadedAt
  have hwellFormed := usage_wellFormed_of_reach hreach
  have husage : (resumed m.prefs file startedAt loadedAt).usage = m.usage.prune m.data.items := by
    rw [husage', hrecords, hitems, hwellFormed.fromRecords_sortedRecords]
  refine ⟨hvaults'.trans hvaults, hitems'.trans hitems, fun query now now' => ?_, fun now => ?_⟩
  · rw [results_queryChanged, results_queryChanged, hindexed, hindexed', hitems', hitems, hprefs',
      husage]
    exact SearchIndex.search_congr _ _ _ fun item hmem => m.usage.recency_prune_of_mem hmem
  · rw [cacheSnapshot_signedIn hsession' howner' hsource', hcached', hvaults', hitems', husage,
      hwellFormed.sortedRecords_prune, ← hrecords, ← hitems, ← hversion]
    rfl

end Runs

section Examples

attribute [local instance] World.plainText

theorem restart_from_cache_mailLogin : ∃ (m : Model) (file : CacheFile), m.cacheSnapshot = some file ∧
    file.items = [World.mailLogin] ∧ file.usage ≠ [] ∧
    (resumed m.prefs file 20 21).data.items = [World.mailLogin] ∧
    ((resumed m.prefs file 20 21).update (.sessionProbed (.ok file.account)) 22).1.cacheSnapshot =
      some { file with usage := file.usage.filter fun r => r.key = World.mailLogin.key } := by
  have hrun : ∃ m, system.Reach TransitionSystem.anyStep m ∧
      m.cacheSnapshot.any fun file => file.items = [World.mailLogin] ∧ file.usage ≠ [] := by
    refine TransitionSystem.exists_reach_of_run (new .default)
      [(.sessionProbed (.ok ⟨"ada"⟩), 0),
        (.dataLoaded { vaults := [], items := [World.mailLogin] }, 10), (.copyPrimary, 11),
        (.copyFetched World.mailLogin.key (.ok ⟨"secret"⟩), 12)] ⟨_, rfl⟩ ?_
    decide
  obtain ⟨m, hreach, hany⟩ := hrun
  obtain ⟨file, hsnapshot, hitems⟩ := (Option.any_eq_true _ _).mp hany
  obtain ⟨hitems, hused⟩ := of_decide_eq_true hitems
  obtain ⟨-, hresumed, -, hnext⟩ := restart_from_cache hreach hsnapshot 20 21
  have hmodel := (cacheSnapshot_eq_some hsnapshot).2.2.2.1
  refine ⟨m, file, hsnapshot, hitems, hused, by rw [hresumed, ← hmodel, hitems], ?_⟩
  rw [hnext, hitems]
  simp [eq_comm]

end Examples

end Model

end CosmicPass
