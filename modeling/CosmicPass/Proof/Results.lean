import CosmicPass.Proof.Confirmation
import CosmicPass.Proof.DataSlot
import CosmicPass.Proof.Ranking
import CosmicPass.Proof.Restart

/-!
# The list of results and its selection

The rows are what a search found; items, index, usage, query and limit are what it searched. A message
either leaves all of these alone, moves the selection, searches again, or records the use of an item,
and only the last leaves rows behind that a search would now put in another order.
-/

namespace CosmicPass

/-- What the list is made from, and what it shows. -/
structure ListState where
  results : List ResultRow
  selected : Nat
  query : String
  items : List ItemSummary
  usage : UsageTable
  index : SearchIndex
  maxResults : Nat

namespace ListState

/-- The highlight is on a row, or there is none. -/
def Selects (s : ListState) : Prop :=
  s.selected < s.results.length ∨ s.results = [] ∧ s.selected = 0

/-- Each row is of an item held, of another one than the rows before it, and there are not too many. -/
structure Fits (s : ListState) : Prop where
  held : ∀ row ∈ s.results, row.item < s.items.length
  distinct : (s.results.map (·.item)).Nodup
  few : s.results.length ≤ s.maxResults
  selects : s.Selects

/-- A search would find the very rows shown. -/
def Fresh [TextSupport] (s : ListState) : Prop :=
  s.results = s.index.search s.query s.usage.recency s.items s.maxResults

theorem Fits.of_fresh [TextSupport] {s : ListState} (hindex : s.index = .build s.items)
    (hfresh : s.Fresh) (hselects : s.Selects) : s.Fits := by
  refine ⟨fun row hmem => ?_, ?_, ?_, hselects⟩
  · rw [hfresh] at hmem
    have hlt := s.index.search_lt _ _ _ _ hmem
    rwa [hindex, SearchIndex.length_build] at hlt
  · rw [hfresh]
    exact s.index.search_nodup _ _ _ _
  · rw [hfresh]
    exact s.index.length_search_le _ _ _ _

/-- Each row is of an item that the query matches. -/
def Found [TextSupport] (s : ListState) : Prop := ∀ row ∈ s.results, Matches s.items s.query row

theorem Found.of_fresh [TextSupport] {s : ListState} (hindex : s.index = .build s.items)
    (hfresh : s.Fresh) : s.Found := by
  intro row hmem
  rw [hfresh, hindex, search_eq_take] at hmem
  exact mem_ranked.mp (List.mem_of_mem_take hmem)

end ListState

namespace Model

def listState (m : Model) : ListState :=
  { results := m.view.results
    selected := m.view.selected
    query := m.view.query
    items := m.data.items
    usage := m.usage
    index := m.index
    maxResults := m.prefs.maxResults }

section Moves

variable [TextSupport]

/-- What one message does to the list. -/
inductive ListMove (m : Model) (msg : Msg) (m' : Model) : Prop
  | keep (h : m'.listState = m.listState)
  | select (selected : Nat) (h : m'.listState = { m.listState with selected })
      (hselects : selected < m.view.results.length)
  | search (hfresh : m'.listState.Fresh) (hselects : m'.listState.Selects)
  | use (fetch : PendingFetch) (value : SecretString) (hpending : m.view.pending = some fetch)
      (hmsg : msg = .copyFetched fetch.key (.ok value)) (usage : UsageTable)
      (h : m'.listState = { m.listState with usage })

variable (m : Model)

theorem recomputeResults_fresh : m.recomputeResults.listState.Fresh := rfl

theorem recomputeResults_selects : m.recomputeResults.listState.Selects := by
  unfold ListState.Selects
  simp only [listState, recomputeResults]
  generalize m.index.search m.view.query m.usage.recency m.data.items m.prefs.maxResults = rows
  cases rows with
  | nil => simp
  | cons row rest =>
      left
      rw [List.length_cons, Nat.add_sub_cancel]
      exact Nat.lt_succ_of_le (min_le_right _ _)

theorem ListMove.recomputed {m m₁ : Model} {msg : Msg} : ListMove m msg m₁.recomputeResults :=
  .search m₁.recomputeResults_fresh m₁.recomputeResults_selects

omit [TextSupport] in
theorem rowOf_selects (key : Option ItemKey) :
    m.rowOf key < m.view.results.length ∨ m.view.results = [] ∧ m.rowOf key = 0 := by
  have hzero : 0 < m.view.results.length ∨ m.view.results = [] ∧ (0 : Nat) = 0 := by
    cases m.view.results <;> simp
  unfold rowOf
  cases key with
  | none => exact hzero
  | some key =>
      rw [Option.bind_some]
      cases hfound : m.view.results.findIdx? fun row =>
          m.data.items[row.item]?.any fun item => item.key = key with
      | none => exact hzero
      | some i =>
          exact Or.inl (List.findIdx?_eq_some_iff_getElem.mp hfound).1

theorem replaceItems_listMove {msg : Msg} (m₁ : Model) (listing : Listing) :
    ListMove m msg (m₁.replaceItems listing) := by
  refine .search ?_ ?_
  · simp only [replaceItems, dropStaleReveal_eq, ListState.Fresh, listState, recomputeResults]
  · simp only [replaceItems, dropStaleReveal_eq, ListState.Selects, listState]
    exact rowOf_selects _ _

omit [TextSupport] in
theorem requestRefresh_listState : m.requestRefresh.1.listState = m.listState := by
  rw [requestRefresh_fst]
  rfl

omit [TextSupport] in
theorem totpFetchSettled_listState : m.totpFetchSettled.listState = m.listState := by
  unfold totpFetchSettled
  split <;> rfl

omit [TextSupport] in
theorem fetchTotp_listState : m.fetchTotp.1.listState = m.listState := by
  unfold fetchTotp
  split <;> rfl

omit [TextSupport] in
theorem toggleReveal_listState : m.toggleReveal.1.listState = m.listState := by
  unfold toggleReveal
  split
  · split
    · rfl
    · split
      · rfl
      · split
        · exact fetchTotp_listState _
        · split
          · unfold fetchReveal
            dsimp only
            split <;> rfl
          · rfl
        · rfl
  · rfl

omit [TextSupport] in
theorem copyWith_listState (pick : ItemSummary → Option CopySource) (missing : String) :
    (m.copyWith pick missing).1.listState = m.listState := by
  unfold copyWith
  split
  next => rfl
  next =>
    split
    next => rfl
    next => rfl

omit [TextSupport] in
theorem revealFetched_listState (key : ItemKey) (index generation : Nat)
    (result : Except PassError SecretString) :
    (m.revealFetched key index generation result).1.listState = m.listState := by
  unfold revealFetched
  dsimp only
  split
  · rfl
  · split
    · split <;> rfl
    · rfl
    · rfl

omit [TextSupport] in
theorem totpFetched_listState (key : ItemKey) (result : Except PassError Codes) (now : Int) :
    (m.totpFetched key result now).1.listState = m.listState := by
  unfold totpFetched
  split
  · rfl
  · split
    · rfl
    · exact m.totpFetchSettled_listState
    · exact m.totpFetchSettled_listState

theorem moveSelection_listMove {msg : Msg} (delta : Int) :
    ListMove m msg (m.moveSelection delta).1 := by
  unfold moveSelection
  split
  · exact .keep rfl
  · dsimp only
    split
    next hrows =>
      refine .select (min (saturatingAddSigned m.view.selected delta) (m.view.results.length - 1))
        rfl ?_
      exact (min_le_right _ _).trans_lt (Nat.sub_one_lt_of_lt hrows)
    next => exact .keep rfl

theorem sessionError_listMove {msg : Msg} {m₁ : Model} (h : m₁.listState = m.listState)
    (error : PassError) : ListMove m msg (m₁.sessionError error).1 := by
  cases error with
  | signedOut => exact .recomputed
  | _ => exact .keep h

theorem sessionProbed_listMove {msg : Msg} (result : Except PassError AccountId) :
    ListMove m msg (m.sessionProbed result).1 := by
  cases result with
  | ok account =>
      simp only [sessionProbed, signedIn_fst]
      split
      · refine .search ?_ ?_
        · rw [requestRefresh_listState]
          exact recomputeResults_fresh _
        · rw [requestRefresh_listState]
          exact recomputeResults_selects _
      · exact .keep (requestRefresh_listState _)
  | error error =>
      have hmove : ∀ session, ListMove m msg { (m.sessionError error).1 with session } := by
        intro session
        cases error with
        | signedOut => exact .search (recomputeResults_fresh _) (recomputeResults_selects _)
        | _ => exact .keep rfl
      simp only [sessionProbed]
      split
      next => exact hmove _
      next => exact hmove _
      next => exact m.sessionError_listMove rfl error

theorem applyPrefs_listMove {msg : Msg} {m₁ : Model} (h : m₁.listState = m.listState)
    (prefs : Preferences) : ListMove m msg (m₁.applyPrefs prefs) := by
  unfold applyPrefs
  dsimp only
  split
  next => exact .recomputed
  next hsame =>
    refine .keep (.trans ?_ h)
    rw [ne_eq, not_not] at hsame
    simp [listState, hsame]

theorem savePrefs_listMove {msg : Msg} {m₁ : Model} (h : m₁.listState = m.listState)
    (prefs : Preferences) : ListMove m msg (m₁.savePrefs prefs).1 := by
  unfold savePrefs
  dsimp only
  split
  · exact .keep h
  · exact m.applyPrefs_listMove h _

theorem copyFetched_listMove (key : ItemKey) (result : Except PassError SecretString) (now : Int) :
    ListMove m (.copyFetched key result) (m.copyFetched key result now).1 := by
  unfold copyFetched
  split
  next => exact .keep rfl
  next fetch hpending =>
    split
    next hkey =>
      subst hkey
      unfold copySettled
      split
      next value => exact .use fetch value hpending rfl _ rfl
      next => exact .keep rfl
      next => exact .keep (requestRefresh_listState _)
      next => exact .keep rfl
      next error _ _ _ =>
        change ListMove m _ (sessionError
          (notify { m with view := { m.view with pending := none } } error.toText).1 error).1
        refine m.sessionError_listMove ?_ error
        rfl
    next => exact .keep rfl

/-- **What a message does to the list.** -/
theorem update_listMove (msg : Msg) (now : Int) : ListMove m msg (m.update msg now).1 := by
  cases msg with
  | toggle =>
      rw [update]
      split
      · exact .recomputed
      · exact .keep (by rw [show_fst]; rfl)
  | «show» => exact .keep (by rw [update, show_fst]; rfl)
  | hide | queryChanged => exact .recomputed
  | selectNext | selectPrev | pageDown | pageUp => exact m.moveSelection_listMove _
  | select index =>
      simp only [update]
      split
      next hlt => exact .select index rfl hlt
      next => exact .keep rfl
  | refreshRequested => exact .keep m.requestRefresh_listState
  | dataLoaded listing => exact m.replaceItems_listMove _ listing
  | cacheLoaded file =>
      simp only [update, cacheLoaded]
      split
      next => exact .keep rfl
      next =>
        split
        · exact .keep rfl
        · split
          · exact .keep rfl
          · exact m.replaceItems_listMove _ _
  | refreshFailed error =>
      change ListMove m _
        (sessionError { m with data := { m.data with refreshing := false, stale := true } } error).1
      refine m.sessionError_listMove ?_ error
      rfl
  | sessionProbed result => exact m.sessionProbed_listMove result
  | copyFetched key result => exact m.copyFetched_listMove key result now
  | copyFinished result =>
      simp only [update, copyFinished, copyConfirmed]
      split
      next =>
        split
        · exact .recomputed
        · exact .keep rfl
      next => exact .keep rfl
  | escape =>
      simp only [update, escape]
      split
      · exact .keep rfl
      · split
        · exact .keep rfl
        · exact .recomputed
        · exact .keep rfl
  | copyPrimary | copyUsername | copyTotp | copyUrl => exact .keep (m.copyWith_listState _ _)
  | activateAction index =>
      simp only [update, activateAction]
      split
      next => split <;> exact .keep rfl
      next => exact .keep rfl
  | openActions | startLogin | loginLine | startRebind | noticeExpired =>
      simp only [update, openActions, startLogin, loginLine]
      split <;> exact .keep rfl
  | loginFinished result => cases result <;> exact .keep rfl
  | back | openPreferences | startup | versionProbed => exact .keep rfl
  | toggleReveal => exact .keep m.toggleReveal_listState
  | revealFetched key index generation result =>
      exact .keep (m.revealFetched_listState key index generation result)
  | totpFetched key result => exact .keep (m.totpFetched_listState key result now)
  | tick _ =>
      simp only [update, tick]
      split
      · exact .keep m.fetchTotp_listState
      · exact .keep rfl
  | adjustClipboardClear delta => exact m.savePrefs_listMove rfl _
  | resetShortcuts => exact m.savePrefs_listMove rfl _
  | prefsLoaded prefs => exact m.applyPrefs_listMove rfl _
  | chordCaptured chord =>
      simp only [update, chordCaptured]
      split
      next =>
        split
        next => exact .keep rfl
        next =>
          refine m.savePrefs_listMove ?_ _
          rfl
      next => exact .keep rfl

end Moves

/-- Notes whether a value has arrived for the copy awaited since the window was last hidden. -/
def usedHidden (m : Model) (used : Bool) (e : Msg × Int) : Bool :=
  match e.1 with
  | .hide => false
  | .copyFetched key (.ok _) => m.view.visible = false ∧ (used ∨ m.awaitsCopy key)
  | _ => m.view.visible = false ∧ used

section Runs

variable [TextSupport] {m : Model} {guard : Model → Msg × Int → Prop}

theorem fits_update {msg : Msg} {now : Int} (hindexed : m.Indexed) (hfits : m.listState.Fits) :
    (m.update msg now).1.listState.Fits := by
  cases m.update_listMove msg now with
  | keep h => rwa [h]
  | select selected h hselects =>
      rw [h]
      exact ⟨hfits.held, hfits.distinct, hfits.few, Or.inl hselects⟩
  | search hfresh hselects => exact .of_fresh (m.update_indexed msg now hindexed) hfresh hselects
  | use fetch value _ _ usage h =>
      rw [h]
      exact ⟨hfits.held, hfits.distinct, hfits.few, hfits.selects⟩

theorem found_update {msg : Msg} {now : Int} (hindexed : m.Indexed) (hfound : m.listState.Found) :
    (m.update msg now).1.listState.Found := by
  cases m.update_listMove msg now with
  | keep h => rwa [h]
  | select selected h _ =>
      rw [h]
      exact hfound
  | search hfresh _ => exact .of_fresh (m.update_indexed msg now hindexed) hfresh
  | use fetch value _ _ usage h =>
      rw [h]
      exact hfound

/-- A message keeps a list that a search would find, unless it records a use. -/
theorem fresh_update (msg : Msg) (now : Int) (hfresh : m.listState.Fresh) :
    (m.update msg now).1.listState.Fresh ∨ ∃ fetch value, m.view.pending = some fetch ∧
      msg = .copyFetched fetch.key (.ok value) := by
  cases m.update_listMove msg now with
  | keep h => exact Or.inl (by rwa [h])
  | select selected h _ =>
      left
      rw [h]
      exact hfresh
  | search hfound _ => exact Or.inl hfound
  | use fetch value hpending hmsg _ _ => exact Or.inr ⟨fetch, value, hpending, hmsg⟩

theorem listFits_of_reach (h : system.Reach guard m) : m.listState.Fits := by
  refine @invariant_of_update _ guard (fun m => m.listState.Fits) ?_ ?_ m h
  · intro prefs
    refine ⟨?_, ?_, ?_, ?_⟩ <;> simp [listState, new, ListState.Selects]
  · intro m msg now hreach _ hfits
    exact fits_update (indexed_of_reach hreach) hfits

theorem found_of_reach (h : system.Reach guard m) : m.listState.Found := by
  refine @invariant_of_update _ guard (fun m => m.listState.Found) ?_ ?_ m h
  · intro prefs
    simp [ListState.Found, listState, new]
  · intro m msg now hreach _ hfound
    exact found_update (indexed_of_reach hreach) hfound

/-- The reducer, and whether a value arrived while the window is hidden. -/
abbrev whileAway : TransitionSystem (Model × Bool) (Msg × Int) :=
  system.annotated (fun used => used = false) fun m used e => some (m.usedHidden used e)

omit [TextSupport] in
theorem usedHidden_before {msg : Msg} {used : Bool} {now : Int} (hhidden : m.view.visible = false)
    (hmsg : msg ≠ .hide) (h : m.usedHidden used (msg, now) = false) :
    used = false ∧
      ∀ fetch value, m.view.pending = some fetch → msg ≠ .copyFetched fetch.key (.ok value) := by
  unfold usedHidden at h
  split at h
  next heq => exact absurd heq hmsg
  next key value heq =>
    obtain rfl : msg = .copyFetched key (.ok value) := heq
    obtain ⟨hused, hawaits⟩ : used = false ∧ m.awaitsCopy key = false := by simpa [hhidden] using h
    refine ⟨hused, fun fetch other hpending heq => ?_⟩
    obtain ⟨rfl, -⟩ := Msg.copyFetched.inj heq
    simp [awaitsCopy, hpending] at hawaits
  next hother =>
    exact ⟨by simpa [hhidden] using h, fun fetch value _ => hother fetch.key value⟩

theorem fresh_of_hidden {s : Model × Bool} (h : whileAway.Reach TransitionSystem.anyStep s)
    (hused : s.2 = false) (hhidden : s.1.view.visible = false) : s.1.listState.Fresh := by
  refine @TransitionSystem.Reach.invariant _ _ whileAway TransitionSystem.anyStep
    (fun s => s.2 = false → s.1.view.visible = false → s.1.listState.Fresh) ?_ ?_ s h hused hhidden
  · rintro ⟨m, used⟩ ⟨⟨prefs, rfl⟩, -⟩ - -
    have hnone : (⟨[]⟩ : SearchIndex).candidates "" = [] := by simp [SearchIndex.candidates]
    simp [ListState.Fresh, listState, new, SearchIndex.search, hnone]
  · rintro ⟨m, used⟩ ⟨msg, now⟩ ⟨m', used'⟩ - - hstep hfresh hused hhidden
    obtain ⟨hstep, hnote⟩ := TransitionSystem.annotated_step_eq_some.mp hstep
    obtain rfl : (m.update msg now).1 = m' := Option.some.inj hstep
    obtain rfl : m.usedHidden used (msg, now) = used' := Option.some.inj hnote
    by_cases hmsg : msg = .hide
    · rw [hmsg]
      exact recomputeResults_fresh _
    have hkept : (m.update msg now).1.view.visible = m.view.visible →
        (m.update msg now).1.listState.Fresh := by
      intro hsame
      have hbefore : m.view.visible = false := hsame ▸ hhidden
      obtain ⟨hunused, hother⟩ := usedHidden_before hbefore hmsg hused
      rcases fresh_update msg now (hfresh hunused hbefore) with hafter | ⟨fetch, value, hpending, hcopy⟩
      · exact hafter
      · exact absurd hcopy (hother fetch value hpending)
    cases m.update_windowMove msg now with
    | keep hvisible _ _ _ => exact hkept hvisible
    | «show» _ _ hafter _ _ _ => simp [hafter] at hhidden
    | hide h =>
        dsimp only
        rw [h]
        exact recomputeResults_fresh _
    | copy _ _ hvisible _ _ _ => exact hkept hvisible

/-- **The list and its highlight are consistent with the data**, in every state the reducer can come
to: the index is that of the items, each row is of an item of its own, and the highlight is on a row.
While the window is hidden the rows are those a search would find, if no value has arrived for a copy
since it was. -/
theorem results_consistent (h : system.Reach TransitionSystem.anyStep m) :
    m.index = .build m.data.items ∧
      (∀ row ∈ m.view.results, row.item < m.data.items.length) ∧
      (m.view.results.map (·.item)).Nodup ∧ m.view.results.length ≤ m.prefs.maxResults ∧
      (m.view.selected < m.view.results.length ∨ m.view.results = [] ∧ m.view.selected = 0) ∧
      (whileAway.Reach TransitionSystem.anyStep (m, false) → m.view.visible = false →
        m.view.results = (SearchIndex.build m.data.items).search m.view.query m.usage.recency
          m.data.items m.prefs.maxResults) ∧
      (∀ query, ∀ row ∈ m.index.candidates query, row.item < m.index.entries.length) ∧
      ∀ items query recency limit,
        ∀ row ∈ (SearchIndex.build items).search query recency items limit, row.item < items.length := by
  have hindexed := indexed_of_reach h
  have hfits := listFits_of_reach h
  refine ⟨hindexed, hfits.held, hfits.distinct, hfits.few, hfits.selects, ?_, ?_, ?_⟩
  · intro hunused hhidden
    rw [← hindexed]
    exact fresh_of_hidden hunused rfl hhidden
  · intro query row hmem
    exact List.mem_range.mp ((m.index.candidates_sublist query).subset (List.mem_map_of_mem hmem))
  · intro items query recency limit row hmem
    have hlt := SearchIndex.search_lt _ query recency items limit hmem
    rwa [SearchIndex.length_build] at hlt

end Runs

section Examples

attribute [local instance] World.plainText

def bankLogin : ItemSummary :=
  { World.mailLogin with key := ⟨⟨"share"⟩, ⟨"bank"⟩⟩, title := "bank" }

/-- Two logins come in while the window is hidden. -/
def listTwoLogins : List (Msg × Int) :=
  [(.refreshRequested, 0), (.dataLoaded { vaults := [], items := [World.mailLogin, bankLogin] }, 0)]

/-- The second login is copied while the window is hidden, and then the window is shown and hidden
again. -/
theorem results_consistent_two : ∃ m : Model, m.view.visible = false ∧
    m.view.results.map (·.item) = [0, 1] ∧ (m.view.results.map (·.item)).Nodup ∧
    m.view.results = (SearchIndex.build m.data.items).search m.view.query m.usage.recency
      m.data.items m.prefs.maxResults := by
  have hrun : ∃ s : Model × Bool, whileAway.Reach TransitionSystem.anyStep s ∧ s.2 = false ∧
      s.1.view.visible = false ∧ s.1.view.results.map (·.item) = [0, 1] := by
    refine TransitionSystem.exists_reach_of_run (new .default, false)
      (listTwoLogins ++ [(.select 1, 0), (.copyPrimary, 0),
        (.copyFetched World.mailLogin.key (.ok ⟨"hunter2"⟩), 5), (.show, 5), (.escape, 5)])
      ⟨⟨_, rfl⟩, rfl⟩ ?_
    decide
  obtain ⟨⟨m, used⟩, hreach, rfl, hhidden, hrows⟩ := hrun
  have hconsistent := results_consistent hreach.of_annotated
  exact ⟨m, hhidden, hrows, hconsistent.2.2.1, hconsistent.2.2.2.2.2.1 hreach hhidden⟩

/-- The second login is copied while the window is hidden: its use would put it first, and the list
keeps the old order. -/
theorem hidden_results_outdated : ∃ m : Model, system.Reach TransitionSystem.anyStep m ∧
    m.view.visible = false ∧ m.view.results.map (·.item) = [1, 0] ∧
    ((SearchIndex.build m.data.items).search m.view.query m.usage.recency m.data.items
      m.prefs.maxResults).map (·.item) = [0, 1] := by
  refine TransitionSystem.exists_reach_of_run (new .default)
    (listTwoLogins ++ [(.select 1, 0), (.copyPrimary, 0),
      (.copyFetched World.mailLogin.key (.ok ⟨"hunter2"⟩), 5)]) ⟨_, rfl⟩ ?_
  decide

end Examples

end Model

end CosmicPass
