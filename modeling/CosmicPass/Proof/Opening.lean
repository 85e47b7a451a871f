import CosmicPass.Proof.Hidden
import CosmicPass.Proof.Results

/-!
# What a window opens with

Hiding leaves nothing typed, the list, and the first row highlighted. A listing that arrives while the
window is hidden keeps the highlight on the item it was on, and so moves it off the first row when
another item comes before that one.
-/

namespace CosmicPass

namespace Model

section Arriving

variable [TextSupport]

/-- The uses and the items that a message brings in, where it replaces the list. -/
def arriving (m : Model) : Msg → Option (UsageTable × List ItemSummary)
  | .dataLoaded listing => some (m.usage, listing.items)
  | .cacheLoaded (some file) =>
      if m.data.fetchedAt.isSome ∨ (m.signedInAccount.any fun account => account ≠ file.account) then
        none
      else some (.fromRecords file.usage, file.items)
  | _ => none

/-- The rows of these items with nothing typed. -/
def rowsOf (m : Model) (usage : UsageTable) (items : List ItemSummary) : List ResultRow :=
  (SearchIndex.build items).search "" (usage.prune items).recency items m.prefs.maxResults

/-- If any row is of the item, the first one is. -/
def firstIfAny (items : List ItemSummary) (rows : List ResultRow) (item : ItemSummary) : Bool :=
  let carries := fun row : ResultRow => items[row.item]?.any fun i => i.key = item.key
  !rows.any carries || rows.head?.any carries

/-- What arrives does not put another item before the highlighted one. -/
def keepsFirst (m : Model) (msg : Msg) : Bool :=
  (m.arriving msg).all fun (usage, items) =>
    m.selectedItem.all fun item => firstIfAny items (m.rowsOf usage items) item

/-- The window opens with nothing typed, the list, and the first row highlighted. -/
structure OpensFresh (m : Model) : Prop where
  query : m.view.query = ""
  mode : m.view.mode = .list
  selected : m.view.selected = 0

omit [TextSupport] in
theorem findIdx?_getD_eq_zero_iff {α : Type} (p : α → Bool) (rows : List α) :
    (rows.findIdx? p).getD 0 = 0 ↔ (!rows.any p || rows.head?.any p) = true := by
  cases rows with
  | nil => simp
  | cons row rest =>
      rw [List.findIdx?_cons]
      by_cases hrow : p row = true
      · simp [hrow]
      · cases hrest : rest.findIdx? p with
        | none =>
            rw [List.findIdx?_eq_none_iff] at hrest
            simpa [hrow] using hrest
        | some i =>
            have hany : rest.any p = true := by
              rw [List.any_eq_true]
              obtain ⟨hlt, hi, -⟩ := List.findIdx?_eq_some_iff_getElem.mp hrest
              exact ⟨_, List.getElem_mem hlt, hi⟩
            simp [hrow, hany]

/-- Where the highlight is after the items were replaced, with nothing typed. -/
theorem replaceItems_selected_iff {m : Model} (hquery : m.view.query = "") (listing : Listing) :
    (m.replaceItems listing).view.selected = 0 ↔
      (m.selectedItem.all fun item =>
        firstIfAny listing.items (m.rowsOf m.usage listing.items) item) = true := by
  have hselected : (m.replaceItems listing).view.selected =
      ((m.selectedItem.map (·.key)).bind fun key =>
        (m.rowsOf m.usage listing.items).findIdx? fun row =>
          (listing.items[row.item]?.any fun item => item.key = key)).getD 0 := by
    simp only [replaceItems, dropStaleReveal_eq, recomputeResults, rowOf, rowsOf, hquery]
  rw [hselected]
  cases m.selectedItem with
  | none => simp
  | some item => exact findIdx?_getD_eq_zero_iff _ _

end Arriving

section Moves

variable (m : Model)

theorem startLogin_view : m.startLogin.1.view = m.view := by
  unfold startLogin
  split <;> rfl

theorem loginLine_view (line : String) : (m.loginLine line).1.view = m.view := by
  unfold loginLine
  split <;> rfl

theorem loginFinished_view (result : Except PassError Unit) :
    (m.loginFinished result).1.view = m.view := by
  cases result <;> rfl

variable [TextSupport]

theorem recomputeResults_selected (hselected : m.view.selected = 0) :
    m.recomputeResults.view.selected = 0 := by
  simp [recomputeResults, hselected]

theorem sessionError_selected (hselected : m.view.selected = 0) (error : PassError) :
    (m.sessionError error).1.view.selected = 0 := by
  cases error with
  | signedOut => exact recomputeResults_selected _ rfl
  | _ => exact hselected

theorem sessionProbed_selected (hselected : m.view.selected = 0)
    (result : Except PassError AccountId) : (m.sessionProbed result).1.view.selected = 0 := by
  cases result with
  | ok account =>
      simp only [sessionProbed, signedIn, requestRefresh_fst]
      split
      · exact recomputeResults_selected _ rfl
      · exact hselected
  | error error =>
      have herror := m.sessionError_selected hselected error
      simp only [sessionProbed]
      split <;> exact herror

theorem cacheLoaded_selected_iff (hquery : m.view.query = "") (hselected : m.view.selected = 0)
    (file : Option CacheFile) :
    (m.cacheLoaded file).1.view.selected = 0 ↔ m.keepsFirst (.cacheLoaded file) = true := by
  cases file with
  | none => exact iff_of_true hselected rfl
  | some file =>
      unfold cacheLoaded keepsFirst arriving
      dsimp only
      by_cases hfetched : m.data.fetchedAt.isSome = true
      · rw [if_pos hfetched, if_pos (Or.inl hfetched)]
        exact iff_of_true hselected rfl
      · by_cases hother : (m.signedInAccount.any fun account => account ≠ file.account) = true
        · rw [if_neg hfetched, if_pos hother, if_pos (Or.inr hother)]
          exact iff_of_true hselected rfl
        · rw [if_neg hfetched, if_neg hother, if_neg (not_or.mpr ⟨hfetched, hother⟩)]
          refine (replaceItems_selected_iff ?_ _).trans Iff.rfl
          exact hquery

/-- A message that brings no items leaves the first row highlighted. -/
theorem update_selected (hresting : m.view.Resting) (hselected : m.view.selected = 0)
    (hhidden : m.view.visible = false) {msg : Msg} (now : Int) (hmsg : msg.fromWindow = false)
    (hlisting : ∀ listing, msg ≠ .dataLoaded listing) (hcache : ∀ file, msg ≠ .cacheLoaded file) :
    (m.update msg now).1.view.selected = 0 := by
  cases msg with
  | toggle =>
      rw [update, if_neg (by simp [hhidden]), show_fst]
      exact hselected
  | «show» =>
      rw [update, show_fst]
      exact hselected
  | hide => simp [update, hide, recomputeResults]
  | refreshFailed error =>
      apply sessionError_selected
      exact hselected
  | sessionProbed result => exact m.sessionProbed_selected hselected result
  | copyFetched key result =>
      rw [m.copyFetched_of_resting hresting]
      exact hselected
  | revealFetched key index generation result =>
      rw [m.revealFetched_of_resting hresting]
      exact hselected
  | totpFetched key result =>
      rw [m.totpFetched_of_resting hresting]
      exact hselected
  | copyFinished result =>
      cases result with
      | ok done => simp [update, copyFinished, copyConfirmed, hresting.copying, hselected]
      | error error => exact hselected
  | tick clock => simp [update, tick, hresting.revealed, Revealed.totpCode, hselected]
  | prefsLoaded prefs =>
      simp only [update, applyPrefs]
      split
      · apply recomputeResults_selected
        exact hselected
      · exact hselected
  | refreshRequested =>
      rw [update, requestRefresh_fst]
      exact hselected
  | noticeExpired id =>
      simp only [update]
      split <;> exact hselected
  | startLogin =>
      rw [update, startLogin_view]
      exact hselected
  | loginLine line =>
      rw [update, loginLine_view]
      exact hselected
  | loginFinished result =>
      rw [update, loginFinished_view]
      exact hselected
  | startup | versionProbed => exact hselected
  | dataLoaded listing => exact absurd rfl (hlisting listing)
  | cacheLoaded file => exact absurd rfl (hcache file)
  | _ => simp [Msg.fromWindow] at hmsg

/-- **Where a message leaves the highlight of a hidden window.** -/
theorem update_selected_iff (hresting : m.view.Resting) (hselected : m.view.selected = 0)
    (hhidden : m.view.visible = false) {msg : Msg} (now : Int) (hmsg : msg.fromWindow = false) :
    (m.update msg now).1.view.selected = 0 ↔ m.keepsFirst msg = true := by
  cases msg with
  | dataLoaded listing =>
      refine (replaceItems_selected_iff ?_ listing).trans Iff.rfl
      exact hresting.query
  | cacheLoaded file => exact m.cacheLoaded_selected_iff hresting.query hselected file
  | _ =>
      refine iff_of_true (m.update_selected hresting hselected hhidden now hmsg ?_ ?_) rfl
      · simp
      · simp

end Moves

section Runs

variable [TextSupport] {m : Model}

/-- The window only sends messages while it is open, and nothing that arrives while it is hidden puts
another item before the highlighted one. -/
def keepsFirstWhileHidden (m : Model) (e : Msg × Int) : Bool :=
  m.view.visible || !e.1.fromWindow && m.keepsFirst e.1

theorem hide_selected : m.hide.1.view.selected = 0 := by
  simp [hide, recomputeResults]

theorem restsFirst_of_reach (h : system.Reach (fun m e => keepsFirstWhileHidden m e) m) :
    m.view.visible = false → m.view.Resting ∧ m.view.selected = 0 := by
  refine @invariant_of_update _ _
    (fun m => m.view.visible = false → m.view.Resting ∧ m.view.selected = 0) ?_ ?_ m h
  · intro prefs _
    exact ⟨⟨rfl, rfl, rfl, rfl, rfl, rfl, rfl⟩, rfl⟩
  · intro m msg now _ hguard hrests hhidden
    cases hvisible : m.view.visible with
    | true =>
        rw [m.update_eq_hide hvisible msg now hhidden]
        exact ⟨m.hide_resting, hide_selected⟩
    | false =>
        obtain ⟨hresting, hselected⟩ := hrests hvisible
        have harrives : msg.fromWindow = false ∧ m.keepsFirst msg = true := by
          simpa [keepsFirstWhileHidden, hvisible] using hguard
        obtain ⟨hmsg, hkeeps⟩ := harrives
        exact ⟨(m.update_resting hresting hvisible now hmsg).1,
          (m.update_selected_iff hresting hselected hvisible now hmsg).mpr hkeeps⟩

/-- **The window opens fresh as long as what arrived while it was hidden put nothing before the
highlighted item.** Whatever opens it leaves nothing typed, the list, and the first row highlighted; and
it opens so after one more message exactly if that message, too, put nothing before it. -/
theorem windows_open_fresh (h : system.Reach (fun m e => keepsFirstWhileHidden m e) m)
    (hhidden : m.view.visible = false) {msg : Msg} (now : Int) (hmsg : msg.fromWindow = false) :
    ((m.update msg now).1.view.visible = true → (m.update msg now).1.OpensFresh) ∧
      ∀ later, (((m.update msg now).1.update .show later).1.OpensFresh ↔ m.keepsFirst msg = true) := by
  obtain ⟨hresting, hselected⟩ := restsFirst_of_reach h hhidden
  have hafter := (m.update_resting hresting hhidden now hmsg).1
  have hiff := m.update_selected_iff hresting hselected hhidden now hmsg
  constructor
  · intro hopens
    have hkeeps : m.keepsFirst msg = true := by
      cases hbrought : m.arriving msg with
      | none => simp [keepsFirst, hbrought]
      | some brought =>
          have hkept : (m.update msg now).1.view.visible = m.view.visible := by
            have huntouched : Part.window ∉ msg.touches := by
              cases msg <;> simp [arriving, Msg.touches] at hbrought ⊢
            exact (m.update_untouched msg now huntouched).same.1
          simp [hopens, hhidden] at hkept
    exact ⟨hafter.query, hafter.mode, hiff.mpr hkeeps⟩
  · intro later
    rw [← hiff, update, show_fst]
    constructor
    · intro hfresh
      exact hfresh.selected
    · intro hfirst
      exact ⟨hafter.query, hafter.mode, hfirst⟩

end Runs

section Examples

attribute [local instance] World.plainText

/-- The second login of these comes before the first one in the list. -/
def listBankLater : List (Msg × Int) :=
  [(.refreshRequested, 0), (.dataLoaded { vaults := [], items := [World.mailLogin] }, 0),
    (.show, 0), (.hide, 0),
    (.dataLoaded { vaults := [], items := [World.mailLogin, bankLogin] }, 0)]

theorem windows_open_fresh_reloaded : ∃ m : Model, m.view.results.map (·.item) = [1, 0] ∧
    m.view.visible = false ∧ (m.update .toggle 0).1.OpensFresh := by
  have hrun : ∃ m, system.Reach (fun m e => keepsFirstWhileHidden m e) m ∧
      m.view.results.map (·.item) = [1, 0] ∧ m.view.visible = false ∧
      (m.update .toggle 0).1.view.visible = true := by
    refine TransitionSystem.exists_reach_of_run (new .default)
      (listTwoLogins ++ [(.show, 0), (.queryChanged "mail", 0), (.hide, 0),
        (.dataLoaded { vaults := [], items := [World.mailLogin, bankLogin] }, 0)]) ⟨_, rfl⟩ ?_
    decide
  obtain ⟨m, hreach, hrows, hhidden, hopens⟩ := hrun
  exact ⟨m, hrows, hhidden, (windows_open_fresh hreach hhidden 0 rfl).1 hopens⟩

/-- A login is listed while the window is hidden and comes first; the highlight stays with the item that
was first before. -/
theorem window_opens_on_second_row : ∃ m : Model,
    system.Reach (fun m e => !e.1.fromWindow || m.view.visible) m ∧ m.view.visible = false ∧
      (m.update .show 0).1.view.visible = true ∧ (m.update .show 0).1.view.selected = 1 := by
  refine TransitionSystem.exists_reach_of_run (new .default) listBankLater ⟨_, rfl⟩ ?_
  decide

end Examples

end Model

end CosmicPass
