import CosmicPass.Core.Runs
import CosmicPass.Proof.DataSlot
import CosmicPass.Proof.Flights
import CosmicPass.Proof.UsageTable

/-!
# What is remembered of a use

A copy files a record, and while no more items are used than the table has room for, nothing evicts it.
What can still take it away is a listing without the item, a wipe, or a cache file: a file that is
taken in replaces the whole table, whether or not it was written before the last copy.
-/

namespace CosmicPass

namespace UsageTable

/-- The item was used at this time or later, at least this often. -/
def Recalls (t : UsageTable) (key : ItemKey) (time : Int) (count : Nat) : Prop :=
  ∃ r, t.records.get? key = some r ∧ time ≤ r.lastUsed ∧ count ≤ r.count

def Within (used : Finset ItemKey) (t : UsageTable) : Prop := ∀ key ∈ t.records.keys, key ∈ used

/-- Only these items were used, and no more often than 32 bits can count. -/
structure Fits (used : Finset ItemKey) (t : UsageTable) : Prop where
  within : t.Within used
  counts : ∀ key r, t.records.get? key = some r → r.count ≤ u32Max

variable {used : Finset ItemKey} {t : UsageTable}

theorem Within.evict_eq_self (hcard : used.card ≤ maxRecords) (h : t.Within used) : t.evict = t :=
  UsageTable.evict_eq_self ((OrderedMap.size_le_card h).trans hcard)

theorem Within.insert (h : t.Within used) {key : ItemKey} (hkey : key ∈ used) (r : UsageRecord) :
    Within used ⟨t.records.insert key r⟩ := by
  intro other hmem
  rw [OrderedMap.mem_keys_iff, OrderedMap.get?_insert] at hmem
  split at hmem
  next heq => rwa [heq]
  next => exact h other (OrderedMap.mem_keys_iff.mpr hmem)

/-- The record a use leaves, with room for it in the table. -/
theorem Within.get?_record (hcard : used.card ≤ maxRecords) (h : t.Within used) {key : ItemKey}
    (hkey : key ∈ used) (now : Int) (other : ItemKey) :
    (t.record key now).records.get? other =
      if other = key then
        let old := (t.records.get? key).getD { key, lastUsed := now, count := 0 }
        some { old with lastUsed := now, count := min (old.count + 1) u32Max }
      else t.records.get? other := by
  rw [record]
  dsimp only
  rw [(h.insert hkey _).evict_eq_self hcard, OrderedMap.get?_insert]
  by_cases heq : other = key <;> simp [heq]

theorem Within.record (hcard : used.card ≤ maxRecords) (h : t.Within used) {key : ItemKey}
    (hkey : key ∈ used) (now : Int) : (t.record key now).Within used := by
  rw [UsageTable.record, (h.insert hkey _).evict_eq_self hcard]
  exact h.insert hkey _

theorem Within.fromRecords {records : List UsageRecord} (hcard : used.card ≤ maxRecords)
    (h : ∀ r ∈ records, r.key ∈ used) : (UsageTable.fromRecords records).Within used := by
  have hfold : ∀ (rest : List UsageRecord) (m : OrderedMap ItemKey UsageRecord),
      (∀ r ∈ rest, r.key ∈ used) → Within used ⟨m⟩ →
      Within used
        ⟨(rest.map fun r => (r.key, r)).foldl (fun m entry => m.insert entry.1 entry.2) m⟩ := by
    intro rest
    induction rest with
    | nil => exact fun _ _ hwithin => hwithin
    | cons r rest ih =>
        intro m hrest hwithin
        exact ih _ (fun other hmem => hrest other (List.mem_cons_of_mem _ hmem))
          (hwithin.insert (hrest r List.mem_cons_self) r)
  have hall := hfold records OrderedMap.empty h (by simp [Within, OrderedMap.keys])
  rw [UsageTable.fromRecords, OrderedMap.ofList, hall.evict_eq_self hcard]
  exact hall

theorem Within.prune (h : t.Within used) (items : List ItemSummary) : (t.prune items).Within used := by
  intro key hmem
  rw [OrderedMap.mem_keys_iff, get?_prune] at hmem
  split at hmem
  · exact h key (OrderedMap.mem_keys_iff.mpr hmem)
  · simp at hmem

theorem fits_empty : empty.Fits used :=
  ⟨by simp [Within, empty, OrderedMap.keys], by simp [empty]⟩

theorem Fits.record (hcard : used.card ≤ maxRecords) (h : t.Fits used) {key : ItemKey}
    (hkey : key ∈ used) (now : Int) : (t.record key now).Fits used := by
  refine ⟨h.within.record hcard hkey now, fun other r hget => ?_⟩
  rw [h.within.get?_record hcard hkey] at hget
  split at hget
  · rw [← Option.some.inj hget]
    exact min_le_right _ _
  · exact h.counts other r hget

theorem Fits.prune (h : t.Fits used) (items : List ItemSummary) : (t.prune items).Fits used := by
  refine ⟨h.within.prune items, fun key r hget => ?_⟩
  rw [get?_prune] at hget
  split at hget
  · exact h.counts key r hget
  · simp at hget

theorem fits_fromRecords {records : List UsageRecord} (hcard : used.card ≤ maxRecords)
    (h : ∀ r ∈ records, r.key ∈ used ∧ r.count ≤ u32Max) : (fromRecords records).Fits used :=
  ⟨.fromRecords hcard fun r hmem => (h r hmem).1, fun _ r hget =>
    (h r (mem_values_fromRecords (OrderedMap.mem_values_of_get? hget))).2⟩

theorem Recalls.prune {key : ItemKey} {time : Int} {count : Nat} (h : t.Recalls key time count)
    {items : List ItemSummary} (hlisted : items.any fun item => item.key = key) :
    (t.prune items).Recalls key time count := by
  obtain ⟨r, hget, hbounds⟩ := h
  exact ⟨r, by rw [get?_prune, if_pos hlisted, hget], hbounds⟩

/-- A use now is the latest there is, and counts one more. -/
theorem Recalls.record {key other : ItemKey} {time now : Int} {count : Nat}
    (hcard : used.card ≤ maxRecords) (hfits : t.Fits used) (hother : other ∈ used)
    (h : t.Recalls key time count) (hnow : time ≤ now) :
    (t.record other now).Recalls key time count := by
  obtain ⟨r, hget, htime, hcount⟩ := h
  rw [Recalls, hfits.within.get?_record hcard hother]
  split
  next heq =>
    subst heq
    have hfit := hfits.counts key r hget
    refine ⟨_, rfl, hnow, ?_⟩
    rw [hget, Option.getD_some]
    exact le_min (by omega) (by omega)
  next => exact ⟨r, hget, htime, hcount⟩

end UsageTable

namespace Model

/-- No listing is in yet, and nobody else is signed in. -/
def takesFile (m : Model) (file : CacheFile) : Bool :=
  m.data.fetchedAt.isNone ∧ m.signedInAccount.all fun account => account = file.account

section Step

variable [TextSupport]

/-- What a message makes of the usage table. -/
def usageAfter (m : Model) (msg : Msg) (now : Int) : UsageTable :=
  match msg with
  | .copyFetched key (.ok _) => if m.awaitsCopy key then m.usage.record key now else m.usage
  | .copyFetched key (.error .signedOut) => if m.awaitsCopy key then .empty else m.usage
  | .dataLoaded listing => m.usage.prune listing.items
  | .cacheLoaded (some file) =>
      if m.takesFile file then (UsageTable.fromRecords file.usage).prune file.items else m.usage
  | .sessionProbed (.ok account) => if m.heldForAnother account then .empty else m.usage
  | .sessionProbed (.error .signedOut) | .refreshFailed .signedOut => .empty
  | _ => m.usage

theorem sessionError_usage (m : Model) (error : PassError) :
    (m.sessionError error).1.usage = if error = .signedOut then .empty else m.usage := by
  cases error <;> rfl

theorem cacheLoaded_usage (m : Model) (file : CacheFile) :
    (m.cacheLoaded (some file)).1.usage =
      if m.takesFile file then (UsageTable.fromRecords file.usage).prune file.items
      else m.usage := by
  unfold cacheLoaded
  dsimp only
  split
  next hfetched =>
    have hlate : m.takesFile file = false := by simp [takesFile, Option.isSome_iff_ne_none.mp hfetched]
    rw [hlate]
    rfl
  next hfirst =>
    have hnone : m.data.fetchedAt = none := by simpa using hfirst
    split
    next hother =>
      have hforeign : m.takesFile file = false := by
        obtain ⟨account, hsigned, hne⟩ := (Option.any_eq_true _ _).mp hother
        simpa [takesFile, hsigned] using fun _ => hne
      rw [hforeign]
      rfl
    next hsame =>
      have htakes : m.takesFile file := by
        cases hsigned : m.signedInAccount with
        | none => simp [takesFile, hnone, hsigned]
        | some account => simpa [takesFile, hnone, hsigned] using hsame
      rw [(replaceItems_data _ _).2.2.1, if_pos htakes]

theorem copySettled_error_usage (m : Model) (key : ItemKey) (secret : Bool) (error : PassError)
    (now : Int) : (m.copySettled key secret (.error error) now).1.usage =
      if error = .signedOut then .empty else m.usage := by
  cases error <;> simp [copySettled, notify, requestRefresh_fst, sessionError_usage]

theorem copyFetched_ignored {m : Model} {key : ItemKey} (h : m.awaitsCopy key = false)
    (result : Except PassError SecretString) (now : Int) :
    m.copyFetched key result now = (m, []) := by
  unfold copyFetched
  split
  next => rfl
  next fetch hpending =>
    split
    next hkey => simp [awaitsCopy, hpending, hkey] at h
    next => rfl

theorem update_usage (m : Model) (msg : Msg) (now : Int) :
    (m.update msg now).1.usage = m.usageAfter msg now := by
  by_cases htouches : Part.data ∈ msg.touches
  · cases msg with
    | dataLoaded listing => exact (replaceItems_data _ listing).2.2.1
    | cacheLoaded file =>
        cases file with
        | none => rfl
        | some file => exact m.cacheLoaded_usage file
    | refreshFailed error =>
        simp only [update, refreshFailed, sessionError_usage]
        cases error <;> rfl
    | sessionProbed result =>
        cases result with
        | ok account =>
            simp only [update, sessionProbed, signedIn_fst, requestRefresh_fst, usageAfter]
            split <;> rfl
        | error error =>
            have hprobed : (m.sessionProbed (.error error)).1.usage =
                (m.sessionError error).1.usage := by
              simp only [sessionProbed]
              split <;> rfl
            simp only [update, hprobed, sessionError_usage]
            cases error <;> rfl
    | copyFetched key result =>
        cases hawaits : m.awaitsCopy key with
        | false =>
            simp only [update, copyFetched_ignored hawaits]
            cases result with
            | ok _ => simp [usageAfter, hawaits]
            | error error => cases error <;> simp [usageAfter, hawaits]
        | true =>
            obtain ⟨fetch, hpending, hkey⟩ := (Option.any_eq_true _ _).mp hawaits
            simp only [update, copyFetched, hpending, if_pos (of_decide_eq_true hkey)]
            cases result with
            | ok value => simp only [copySettled, finishCopy, usageAfter, hawaits, if_true]
            | error error =>
                rw [copySettled_error_usage]
                cases error <;> simp [usageAfter, hawaits]
    | _ => simp [Msg.touches] at htouches
  · have hsame := (m.update_untouched msg now htouches).same
    obtain ⟨-, -, -, -, -, husage, -⟩ := hsame
    rw [husage]
    cases msg <;> first | rfl | simp [Msg.touches] at htouches

/-- The items copied and the records taken in are of these items, and no count exceeds 32 bits. -/
def usesOnly (used : Finset ItemKey) (m : Model) : Msg → Bool
  | .copyFetched key (.ok _) => decide (m.awaitsCopy key → key ∈ used)
  | .cacheLoaded (some file) =>
      decide (m.takesFile file → ∀ r ∈ file.usage, r.key ∈ used ∧ r.count ≤ u32Max)
  | _ => true

/-- A listing without the item, or a wipe. -/
def endsHistory (key : ItemKey) (m : Model) : Msg → Bool
  | .dataLoaded listing => ¬ listing.items.any fun item => item.key = key
  | .sessionProbed (.ok account) => m.heldForAnother account
  | .sessionProbed (.error .signedOut) | .refreshFailed .signedOut => true
  | .copyFetched key (.error .signedOut) => m.awaitsCopy key
  | _ => false

/-- A cache file that is taken in lists the item and remembers its use no worse than the table does. -/
def keepsUse (key : ItemKey) (m : Model) : Msg → Bool
  | .cacheLoaded (some file) =>
      decide (m.takesFile file → (file.items.any fun item => item.key = key) ∧
        ((UsageTable.fromRecords file.usage).records.get? key).any fun r =>
          (m.usage.records.get? key).all fun old =>
            old.lastUsed ≤ r.lastUsed ∧ old.count ≤ r.count)
  | _ => true

variable {used : Finset ItemKey} {key : ItemKey} {m : Model} {msg : Msg} {now : Int}

theorem update_fits (hcard : used.card ≤ maxRecords) (huses : m.usesOnly used msg)
    (h : m.usage.Fits used) : (m.update msg now).1.usage.Fits used := by
  rw [update_usage]
  unfold usageAfter
  split
  next key _ =>
    split
    next hawaits => exact h.record hcard (of_decide_eq_true huses hawaits) now
    next => exact h
  next =>
    split
    · exact UsageTable.fits_empty
    · exact h
  next listing => exact h.prune listing.items
  next file =>
    split
    next htakes =>
      exact (UsageTable.fits_fromRecords hcard (of_decide_eq_true huses htakes)).prune file.items
    next => exact h
  next =>
    split
    · exact UsageTable.fits_empty
    · exact h
  next => exact UsageTable.fits_empty
  next => exact UsageTable.fits_empty
  next => exact h

/-- **A message that does not end its history leaves a use recalled.** -/
theorem update_recalls {time : Int} {count : Nat} (hcard : used.card ≤ maxRecords)
    (hfits : m.usage.Fits used) (huses : m.usesOnly used msg) (hlasts : ¬ m.endsHistory key msg)
    (hkeeps : m.keepsUse key msg) (hnow : time ≤ now) (h : m.usage.Recalls key time count) :
    (m.update msg now).1.usage.Recalls key time count := by
  rw [update_usage]
  unfold usageAfter
  split
  next other _ =>
    split
    next hawaits => exact h.record hcard hfits (of_decide_eq_true huses hawaits) hnow
    next => exact h
  next other =>
    split
    next hawaits => exact absurd hawaits hlasts
    next => exact h
  next listing => exact h.prune (by simpa [endsHistory] using hlasts)
  next file =>
    split
    next htakes =>
      obtain ⟨hlisted, hrecord⟩ := of_decide_eq_true hkeeps htakes
      obtain ⟨r, hget, hall⟩ := (Option.any_eq_true _ _).mp hrecord
      obtain ⟨old, hold, htime, hcount⟩ := h
      rw [hold] at hall
      obtain ⟨hlater, hoftener⟩ := of_decide_eq_true hall
      exact UsageTable.Recalls.prune ⟨r, hget, htime.trans hlater, hcount.trans hoftener⟩ hlisted
    next => exact h
  next account =>
    split
    next hother => exact absurd (decide_eq_true hother) hlasts
    next => exact h
  next => exact absurd rfl hlasts
  next => exact absurd rfl hlasts
  next => exact h

end Step

section Runs

variable [TextSupport] {used : Finset ItemKey} {key : ItemKey}

def staysWithin (used : Finset ItemKey) (s : Model × Int) (e : Msg × Int) : Bool :=
  s.1.usesOnly used e.1

def staysUsed (used : Finset ItemKey) (key : ItemKey) (s : Model × Int) (e : Msg × Int) : Bool :=
  s.1.usesOnly used e.1 ∧ ¬ s.1.endsHistory key e.1

theorem fits_of_reach (hcard : used.card ≤ maxRecords) {s : Model × Int}
    (h : clocked.Reach (fun s e => staysWithin used s e) s) : s.1.usage.Fits used := by
  induction h with
  | start hinit =>
      obtain ⟨⟨prefs, hnew⟩, -⟩ := hinit
      rw [hnew]
      exact UsageTable.fits_empty
  | next _ hguard hstep hfits =>
      obtain ⟨hupdate, -, -⟩ := TransitionSystem.timed_step_eq_some.mp hstep
      rw [← Option.some.inj hupdate]
      exact update_fits hcard hguard hfits

/-- **A use stays recalled** for as long as no cache file remembers it worse. -/
theorem recalls_of_reach {time : Int} {count : Nat} (hcard : used.card ≤ maxRecords)
    {s s' : Model × Int} (hfits : s.1.usage.Fits used) (hrecalls : s.1.usage.Recalls key time count)
    (htime : time ≤ s.2) (h : (clocked.startingAt s).Reach
      (fun s e => staysUsed used key s e ∧ s.1.keepsUse key e.1) s') :
    s'.1.usage.Fits used ∧ s'.1.usage.Recalls key time count ∧ time ≤ s'.2 := by
  induction h with
  | start hinit =>
      rw [hinit]
      exact ⟨hfits, hrecalls, htime⟩
  | next _ hguard hstep ih =>
      obtain ⟨hstays, hkeeps⟩ := hguard
      obtain ⟨huses, hlasts⟩ := of_decide_eq_true hstays
      obtain ⟨hfits, hrecalls, htime⟩ := ih
      rw [TransitionSystem.startingAt_step] at hstep
      obtain ⟨hupdate, hclock, hnow⟩ := TransitionSystem.timed_step_eq_some.mp hstep
      rw [← Option.some.inj hupdate, hnow]
      exact ⟨update_fits hcard huses hfits,
        update_recalls hcard hfits huses hlasts hkeeps (htime.trans hclock) hrecalls,
        htime.trans hclock⟩

/-- **Usage history is not rolled back**, if no cache file taken in later remembers the item worse than
the table does. -/
theorem usage_not_rolled_back (hcard : used.card ≤ maxRecords) {value : SecretString} {time : Int}
    {s s₁ s₂ : Model × Int} (hreach : clocked.Reach (fun s e => staysWithin used s e) s)
    (hawaits : s.1.awaitsCopy key) (hused : key ∈ used)
    (hlater : (clocked.startingAt ((s.1.update (.copyFetched key (.ok value)) time).1, time)).Reach
      (fun s e => staysUsed used key s e ∧ s.1.keepsUse key e.1) s₁)
    (hlast : (clocked.startingAt s₁).Reach
      (fun s e => staysUsed used key s e ∧ s.1.keepsUse key e.1) s₂) :
    ∃ r₁ r₂, s₁.1.usage.records.get? key = some r₁ ∧ s₂.1.usage.records.get? key = some r₂ ∧
      time ≤ r₁.lastUsed ∧ time ≤ r₂.lastUsed ∧ r₁.count ≤ r₂.count := by
  have hfits := fits_of_reach hcard hreach
  have husage :
      (s.1.update (.copyFetched key (.ok value)) time).1.usage = s.1.usage.record key time := by
    rw [update_usage]
    exact if_pos hawaits
  have hrecorded : (s.1.usage.record key time).Recalls key time 0 := by
    rw [UsageTable.Recalls, hfits.within.get?_record hcard hused, if_pos rfl]
    exact ⟨_, rfl, le_rfl, Nat.zero_le _⟩
  rw [← husage] at hrecorded
  have hfits' : (s.1.update (.copyFetched key (.ok value)) time).1.usage.Fits used :=
    husage ▸ hfits.record hcard hused time
  obtain ⟨hfits₁, ⟨r₁, hget₁, htime₁, -⟩, hclock₁⟩ :=
    recalls_of_reach hcard hfits' hrecorded le_rfl hlater
  obtain ⟨-, ⟨r₂, hget₂, htime₂, hcount₂⟩, -⟩ :=
    recalls_of_reach hcard hfits₁ ⟨r₁, hget₁, htime₁, le_rfl⟩ hclock₁ hlast
  exact ⟨r₁, r₂, hget₁, hget₂, htime₁, htime₂, hcount₂⟩

end Runs

section Examples

attribute [local instance] World.plainText

/-- The start, with the cache file in and a copy awaited. -/
def copyAwaited : List (Msg × Int) :=
  [(.startup, 5), (.cacheLoaded (some World.mailCache), 6), (.sessionProbed (.ok ⟨"ada"⟩), 7),
    (.copyPrimary, 8)]

/-- The copy is recorded at 10, and the events after it. -/
def afterCopy (m : Model) : Model × Int :=
  ((m.update (.copyFetched World.mailLogin.key (.ok ⟨"secret"⟩)) 10).1, 10)

theorem usage_not_rolled_back_hidden : ∃ s₁ s₂ : Model × Int, s₂.2 = 20 ∧ ∃ r₁ r₂ : UsageRecord,
    s₁.1.usage.records.get? World.mailLogin.key = some r₁ ∧
      s₂.1.usage.records.get? World.mailLogin.key = some r₂ ∧
      10 ≤ r₁.lastUsed ∧ 10 ≤ r₂.lastUsed ∧ r₁.count ≤ r₂.count := by
  have hbefore : ∃ s, clocked.Reach (fun s e => staysWithin {World.mailLogin.key} s e) s ∧
      s.1.awaitsCopy World.mailLogin.key ∧
      (clocked.run (fun s e => staysUsed {World.mailLogin.key} World.mailLogin.key s e ∧
          s.1.keepsUse World.mailLogin.key e.1) (afterCopy s.1)
        [(.hide, 12), (.dataLoaded { vaults := [], items := [World.mailLogin] }, 20)]).any fun s' =>
          s'.2 = 20 := by
    refine TransitionSystem.exists_reach_of_run (new .default, 0) copyAwaited ⟨⟨_, rfl⟩, trivial⟩ ?_
    decide
  obtain ⟨s, hreach, hawaits, hany⟩ := hbefore
  obtain ⟨s', hlater, hclock⟩ := TransitionSystem.exists_later_of_run hany
  exact ⟨s', s', hclock, usage_not_rolled_back (by decide) hreach hawaits (by simp) hlater
    (.start rfl)⟩

/-- The retry chord reads the cache file again, as it was before the copy. -/
theorem usage_rolled_back : ∃ s s' : Model × Int,
    clocked.Reach (fun s e => staysWithin {World.mailLogin.key} s e) s ∧
      s.1.awaitsCopy World.mailLogin.key ∧
      (clocked.startingAt (afterCopy s.1)).Reach
        (fun s e => staysUsed {World.mailLogin.key} World.mailLogin.key s e) s' ∧
      s'.1.usage.recency World.mailLogin.key = some 1 := by
  have hbefore : ∃ s, clocked.Reach (fun s e => staysWithin {World.mailLogin.key} s e) s ∧
      s.1.awaitsCopy World.mailLogin.key ∧
      (clocked.run (fun s e => staysUsed {World.mailLogin.key} World.mailLogin.key s e)
        (afterCopy s.1) [(.startup, 12), (.cacheLoaded (some World.mailCache), 13)]).any fun s' =>
          s'.1.usage.recency World.mailLogin.key = some 1 := by
    refine TransitionSystem.exists_reach_of_run (new .default, 0) copyAwaited ⟨⟨_, rfl⟩, trivial⟩ ?_
    decide
  obtain ⟨s, hreach, hawaits, hany⟩ := hbefore
  obtain ⟨s', hlater, hrecency⟩ := TransitionSystem.exists_later_of_run hany
  exact ⟨s, s', hreach, hawaits, hlater, hrecency⟩

end Examples

end Model

end CosmicPass
