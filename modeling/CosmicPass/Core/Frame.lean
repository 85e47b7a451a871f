import CosmicPass.Core.Update

/-!
# The branching methods in closed form

Each method of the reducer that only decides *whether* to change a part of the state is equal to one
record update, with the decision pushed into the parts it is about. Results about one part of the
state then see through the method without splitting on decisions that concern other parts.
-/

namespace CosmicPass

namespace Model

variable (m : Model)

/-- A secret is revealed, or awaited, that no listed item carries any more. -/
def revealStale : Bool :=
  match m.view.revealed.fieldTarget with
  | none => false
  | some target => ¬ (m.item target.key).any target.stillDescribes

theorem dropStaleReveal_eq :
    m.dropStaleReveal = { m with
      tokens := if m.revealStale then m.tokens.cancel m.view.revealCancel else m.tokens
      view := { m.view with
        revealed := if m.revealStale then .nothing else m.view.revealed
        revealCancel := if m.revealStale then none else m.view.revealCancel } } := by
  unfold dropStaleReveal revealStale
  cases htarget : m.view.revealed.fieldTarget with
  | none => simp
  | some target =>
      by_cases hkept : (m.item target.key).any target.stillDescribes = true
      · simp [hkept]
      · simp [hkept, dropReveal, cancelReveal]

theorem requestRefresh_fst :
    m.requestRefresh.1 = { m with
      data := { m.data with refreshing := m.data.refreshing || m.mayRefresh } } := by
  unfold requestRefresh
  split
  next hskip =>
    have hflag : (m.data.refreshing || m.mayRefresh) = m.data.refreshing := by
      rcases hskip with hrefreshing | hmay
      · simp [hrefreshing]
      · simp [hmay]
    rw [hflag]
  next hask =>
    rw [not_or, not_not] at hask
    simp [hask.2]

theorem requestRefresh_snd :
    m.requestRefresh.2 = if m.data.refreshing = false ∧ m.mayRefresh then [.refresh] else [] := by
  unfold requestRefresh
  cases hrefreshing : m.data.refreshing <;> cases hmay : m.mayRefresh <;> simp

theorem mem_requestRefresh {effect : Effect} (h : effect ∈ m.requestRefresh.2) :
    effect = .refresh := by
  rw [requestRefresh_snd] at h
  split at h <;> simp_all

theorem show_fst (now : Int) :
    (m.show now).1 = { m with
      data := { m.data with
        refreshing := m.data.refreshing || (!m.view.visible && m.staleSince now && m.mayRefresh) }
      view := { m.view with visible := true } } := by
  unfold Model.show
  cases hvisible : m.view.visible with
  | true =>
      have hview : { m.view with visible := true } = m.view := by rw [← hvisible]
      simp [hview]
  | false =>
      have hstale : Model.staleSince { m with view := { m.view with visible := true } } now
          = m.staleSince now := rfl
      have hmay : Model.mayRefresh { m with view := { m.view with visible := true } }
          = m.mayRefresh := rfl
      cases hs : m.staleSince now <;> cases hr : m.mayRefresh <;>
        simp [hstale, hmay, hs, hr, requestRefresh_fst]

theorem show_snd (now : Int) :
    (m.show now).2 = if m.view.visible then [] else
      .showWindow :: if m.staleSince now ∧ m.data.refreshing = false ∧ m.mayRefresh
        then [.refresh] else [] := by
  unfold Model.show
  cases hvisible : m.view.visible with
  | true => simp
  | false =>
      have hstale : Model.staleSince { m with view := { m.view with visible := true } } now
          = m.staleSince now := rfl
      have hmay : Model.mayRefresh { m with view := { m.view with visible := true } }
          = m.mayRefresh := rfl
      cases hs : m.staleSince now <;> cases hr : m.mayRefresh <;>
        simp [hstale, hmay, hs, hr, requestRefresh_snd]

variable [TextSupport]

theorem applyPrefs_cases (prefs : Preferences) : ∃ results selected,
    m.applyPrefs prefs = { m with prefs, view := { m.view with results, selected } } := by
  unfold applyPrefs
  dsimp only
  split
  · exact ⟨_, _, rfl⟩
  · exact ⟨_, _, rfl⟩

theorem savePrefs_cases (prefs : Preferences) : ∃ results selected,
    (m.savePrefs prefs).1 =
      { m with prefs := prefs.validated, view := { m.view with results, selected } } := by
  unfold savePrefs
  dsimp only
  split
  next heq => exact ⟨m.view.results, m.view.selected, by rw [heq]⟩
  next => exact m.applyPrefs_cases _

theorem mem_sessionError {error : PassError} {effect : Effect}
    (h : effect ∈ (m.sessionError error).2) : effect = .deleteCache := by
  unfold sessionError at h
  split at h <;> simp_all

theorem mem_signedIn {account : AccountId} {effect : Effect}
    (h : effect ∈ (m.signedIn account).2) : effect = .deleteCache ∨ effect = .refresh := by
  unfold signedIn at h
  dsimp only at h
  rcases List.mem_append.mp h with hdropped | hrefresh
  · split at hdropped <;> simp_all
  · exact Or.inr (mem_requestRefresh _ hrefresh)

theorem mem_sessionProbed {result : Except PassError AccountId} {effect : Effect}
    (h : effect ∈ (m.sessionProbed result).2) : effect = .deleteCache ∨ effect = .refresh := by
  cases result with
  | ok account => exact m.mem_signedIn h
  | error error =>
      have herror : effect ∈ (m.sessionError error).2 := by
        simp only [sessionProbed] at h
        split at h <;> exact h
      exact Or.inl (m.mem_sessionError herror)

theorem mem_copySettled {key : ItemKey} {secret : Bool} {result : Except PassError SecretString}
    {now : Int} {effect : Effect} (h : effect ∈ (m.copySettled key secret result now).2) :
    (∃ value, effect = .copy value secret) ∨ effect = .persist ∨ effect = .deleteCache ∨
      effect = .refresh ∨ ∃ id after, effect = .expireNotice id after := by
  unfold copySettled finishCopy at h
  split at h
  next value =>
    rcases List.mem_cons.mp h with rfl | hrest
    · exact Or.inl ⟨value, rfl⟩
    · exact Or.inr (Or.inl (List.mem_singleton.mp hrest))
  next => simp at h
  next =>
    rcases List.mem_cons.mp h with rfl | hrest
    · simp [notify]
    · simp [mem_requestRefresh _ hrest]
  next => simp_all [notify]
  next =>
    rcases List.mem_cons.mp h with rfl | hrest
    · simp [notify]
    · simp [mem_sessionError _ hrest]

theorem mem_savePrefs {prefs : Preferences} {effect : Effect} (h : effect ∈ (m.savePrefs prefs).2) :
    ∃ saved, effect = .savePreferences saved := by
  unfold savePrefs at h
  dsimp only at h
  split at h
  · simp at h
  · exact ⟨_, by simpa using h⟩

end Model

end CosmicPass
