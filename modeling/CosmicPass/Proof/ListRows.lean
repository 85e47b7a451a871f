import CosmicPass.Library.Slots
import CosmicPass.Proof.Results
import CosmicPass.Proof.RowPresses
import CosmicPass.Proof.ShellRuns
import CosmicPass.View.Screen

/-!
# What a row of the list stands for

The reducer is told the number of the row that was pressed, and looks up the item by itself. In
every state the shell comes to there is a row for each result, the highlight is on one of them, and
a press acts on the item its row was drawn of.
-/

namespace CosmicPass

/-- Asks `pass-cli` for the value of this source. -/
def Effect.Fetches (effect : Effect) (key : ItemKey) : CopySource → Prop
  | .field field => ∃ cancel, effect = .fetchAndCopy key field.name field.secret cancel
  | .totp field => ∃ cancel, effect = .fetchTotpAndCopy key field cancel

namespace World

/-- The item's value has been asked for to be copied, or it has been said that there is none. -/
def CopiesFrom (w : World) (item : ItemSummary) : Prop :=
  match primaryAction item with
  | some source => w.model.view.pending.map (·.key) = some item.key ∧
      ∃ flight, w.flights.getLast? = some flight ∧ flight.effect.Fetches item.key source
  | none => w.model.view.notice.map (·.text) = some "Nothing to copy"

variable [TextSupport] {w : World} {item : ItemSummary}

/-- The highlight on this row, all else as it is. -/
def highlighting (w : World) (i : Nat) : World :=
  { w with model := { w.model with view := { w.model.view with selected := i } } }

theorem feed_select {i : Nat} (hlt : i < w.model.view.results.length) (now : Int) :
    w.feed (.select i) now = w.highlighting i := by
  simp [feed, Model.update, hlt, highlighting]

theorem feed_move {msg : Msg} {now delta : Int} {i : Nat} (hmode : w.model.view.mode = .list)
    (hmsg : w.model.update msg now = w.model.moveSelection delta)
    (hnext : saturatingAddSigned w.model.view.selected delta = i)
    (hlt : i < w.model.view.results.length) : w.feed msg now = w.highlighting i := by
  have hmin : min i (w.model.view.results.length - 1) = i := by omega
  have hsome : 0 < w.model.view.results.length := by omega
  simp [feed, hmsg, Model.moveSelection, hmode, hsome, hnext, hmin, highlighting]

theorem targetItem_feed_select {i : Nat} {hit : ResultRow} (hmode : w.model.view.mode = .list)
    (hhit : w.model.view.results[i]? = some hit) (hitem : w.model.data.items[hit.item]? = some item)
    (now : Int) : (w.feed (.select i) now).model.targetItem = some item := by
  have hlt : i < w.model.view.results.length := (List.getElem?_eq_some_iff.mp hhit).1
  simp only [feed, Model.update, if_pos hlt, Model.targetItem, hmode, Model.selectedItem]
  rw [hhit]
  exact hitem

theorem copiesFrom_feed (htarget : w.model.targetItem = some item) (now : Int) :
    (w.feed .copyPrimary now).CopiesFrom item := by
  have hupdate : w.model.update .copyPrimary now = w.model.copyWith primaryAction "Nothing to copy" :=
    rfl
  unfold CopiesFrom
  cases hprimary : primaryAction item with
  | none => simp [feed, hupdate, Model.copyWith, htarget, hprimary, Model.notify]
  | some source =>
      simp only [feed, hupdate, Model.copyWith, htarget, hprimary]
      refine ⟨rfl, _, List.getLast?_concat .., ?_⟩
      cases source <;> exact ⟨_, rfl⟩

theorem targetItem_feed_copyPrimary (w : World) (now : Int) :
    (w.feed .copyPrimary now).model.targetItem = w.model.targetItem := by
  have hupdate : w.model.update .copyPrimary now = w.model.copyWith primaryAction "Nothing to copy" :=
    rfl
  simp only [feed, hupdate, Model.copyWith]
  split
  next => rfl
  next =>
    split
    · rfl
    · rfl

end World

namespace Model

variable {m : Model} {i : Nat}

theorem isSome_listRow (hheld : ∀ hit ∈ m.view.results, hit.item < m.data.items.length) :
    ∀ placed ∈ m.view.results.zipIdx,
      (m.data.items[placed.1.item]?.map fun item => m.listRow placed.1 placed.2 item).isSome := by
  rintro ⟨hit, place⟩ hmem
  have hlt := hheld hit (List.fst_mem_of_mem_zipIdx hmem)
  simp [List.getElem?_eq_getElem hlt]

theorem getElem?_listRows (hheld : ∀ hit ∈ m.view.results, hit.item < m.data.items.length) (i : Nat) :
    m.listRows[i]? = m.view.results[i]?.bind fun hit =>
      m.data.items[hit.item]?.map fun item => m.listRow hit i item := by
  rw [listRows, List.getElem?_filterMap_of_isSome (isSome_listRow hheld), List.getElem?_zipIdx]
  cases m.view.results[i]? <;> simp

theorem length_listRows (hheld : ∀ hit ∈ m.view.results, hit.item < m.data.items.length) :
    m.listRows.length = m.view.results.length := by
  rw [listRows, List.filterMap_length_eq_length.mpr (isSome_listRow hheld), List.length_zipIdx]

/-- The row of a result, and the item it is drawn of. -/
theorem exists_of_listRow (hheld : ∀ hit ∈ m.view.results, hit.item < m.data.items.length)
    {row : ListRow} (hrow : m.listRows[i]? = some row) :
    ∃ hit item, m.view.results[i]? = some hit ∧ m.data.items[hit.item]? = some item ∧
      row = m.listRow hit i item := by
  rw [getElem?_listRows hheld] at hrow
  obtain ⟨hit, hhit, hmapped⟩ := Option.bind_eq_some_iff.mp hrow
  obtain ⟨item, hitem, rfl⟩ := Option.map_eq_some_iff.mp hmapped
  exact ⟨hit, item, hhit, hitem, rfl⟩

theorem list_of_popup [TextSupport] {now : Int} {pane : ResultList} (h : m.popup now = .list pane) :
    m.view.mode = .list ∧ pane = m.resultList := by
  unfold popup at h
  split at h
  · cases h
  · cases h
  next hpane =>
    refine ⟨?_, ?_⟩
    · cases hmode : m.view.mode <;> simp [hmode, CosmicPass.pane] at hpane ⊢
    · split at h
      · cases h
      · exact (Screen.list.inj h).symm

end Model

/-! ### Keys -/

def KeyPress.arrowDown : KeyPress := { key := "ArrowDown", modifiers := [] }

def KeyPress.arrowUp : KeyPress := { key := "ArrowUp", modifiers := [] }

namespace App

variable {s : App}

theorem keyMsg_arrowDown (hmode : s.world.model.view.mode = .list) :
    s.keyMsg .arrowDown = some .selectNext := by
  have hdown : KeyPress.arrowDown.is [] "ArrowDown" = true := by decide
  simp [keyMsg, hmode, mapKey, hdown]

theorem keyMsg_arrowUp (hmode : s.world.model.view.mode = .list) :
    s.keyMsg .arrowUp = some .selectPrev := by
  have hup : KeyPress.arrowUp.is [] "ArrowUp" = true := by decide
  have hdown : ∀ key ∈ [([], "ArrowDown"), ([.ctrl], "n"), ([.ctrl], "j")],
      KeyPress.arrowUp.is key.1 key.2 = false := by decide
  simp only [List.forall_mem_cons] at hdown
  simp [keyMsg, hmode, mapKey, hup, hdown]

variable [TextSupport]

theorem pressAll_cons (s : App) (press : KeyPress) (c : Clock) (rest : List Clock) :
    s.pressAll press (c :: rest) = (s.update (.key press) c).1.pressAll press rest := rfl

theorem pressAll_arrowDown (clocks : List Clock) (hmode : s.world.model.view.mode = .list)
    (hlt : s.world.model.view.selected + clocks.length < s.world.model.view.results.length) :
    (s.pressAll .arrowDown clocks).world =
      s.world.highlighting (s.world.model.view.selected + clocks.length) := by
  induction clocks generalizing s with
  | nil => rfl
  | cons c rest ih =>
      rw [List.length_cons] at hlt
      have hworld : (s.update (.key .arrowDown) c).1.world =
          s.world.highlighting (s.world.model.view.selected + 1) := by
        rw [update_key_world (keyMsg_arrowDown hmode) (by simp)]
        exact World.feed_move hmode rfl (by simp [saturatingAddSigned]) (by omega)
      rw [pressAll_cons, ih]
      · rw [hworld, List.length_cons, Nat.add_comm rest.length, ← Nat.add_assoc]
        rfl
      · rw [hworld]
        exact hmode
      · rw [hworld]
        simp only [World.highlighting]
        omega

theorem pressAll_arrowUp (clocks : List Clock) (hmode : s.world.model.view.mode = .list)
    (hlt : s.world.model.view.selected < s.world.model.view.results.length)
    (hle : clocks.length ≤ s.world.model.view.selected) :
    (s.pressAll .arrowUp clocks).world =
      s.world.highlighting (s.world.model.view.selected - clocks.length) := by
  induction clocks generalizing s with
  | nil => rfl
  | cons c rest ih =>
      rw [List.length_cons] at hle
      have hworld : (s.update (.key .arrowUp) c).1.world =
          s.world.highlighting (s.world.model.view.selected - 1) := by
        rw [update_key_world (keyMsg_arrowUp hmode) (by simp)]
        exact World.feed_move hmode rfl (by simp [saturatingAddSigned]; omega) (by omega)
      rw [pressAll_cons, ih]
      · rw [hworld, List.length_cons, Nat.add_comm rest.length, ← Nat.sub_sub]
        rfl
      · rw [hworld]
        exact hmode
      · rw [hworld]
        simp only [World.highlighting]
        omega
      · rw [hworld]
        simp only [World.highlighting]
        omega

/-- An arrow key goes to any row there is. -/
theorem exists_arrow {i : Nat} (hmode : s.world.model.view.mode = .list)
    (hselected : s.world.model.view.selected < s.world.model.view.results.length)
    (hi : i < s.world.model.view.results.length) :
    ∃ arrow ∈ [KeyPress.arrowDown, .arrowUp], ∀ clocks : List Clock,
      clocks.length = max i s.world.model.view.selected - min i s.world.model.view.selected →
        (s.pressAll arrow clocks).world = s.world.highlighting i := by
  by_cases hbelow : s.world.model.view.selected ≤ i
  · refine ⟨.arrowDown, by simp, fun clocks hlength => ?_⟩
    rw [pressAll_arrowDown clocks hmode (by omega)]
    congr 1
    omega
  · refine ⟨.arrowUp, by simp, fun clocks hlength => ?_⟩
    rw [pressAll_arrowUp clocks hmode hselected (by omega)]
    congr 1
    omega

end App

namespace Shell

section Runs

variable [TextSupport] {s : Shell} {guard : Shell → AppEvent × Clock → Prop}

/-- **A row acts on its item.** In every run, while the list is on screen, there is a row for each
result; if there are any, the highlight is on one of them, which the copy chord acts on; and a press
on a row makes its item the one acted on, and asks for its value if it is the second of two. -/
theorem row_acts_on_its_item (h : system.Reach guard s) {now : Int} {pane : ResultList}
    (hscreen : s.app.world.model.popup now = .list pane) :
    pane.rows.length = s.app.world.model.view.results.length ∧
      (pane.rows ≠ [] → ∃ i, ∃ row : ListRow, pane.rows[i]? = some row ∧ row.selected = true ∧
        ∀ (j : Nat) (other : ListRow), pane.rows[j]? = some other → other.selected = true → j = i) ∧
      ∀ (i : Nat) (row : ListRow), pane.rows[i]? = some row → ∃ hit item,
        row = s.app.world.model.listRow hit i item ∧
        (row.selected = true → s.app.world.model.targetItem = some item) ∧
        ∀ c, (s.app.update row.message c).1.world.model.targetItem = some item ∧
          (s.app.isDouble i c = true → (s.app.update row.message c).1.world.CopiesFrom item) := by
  have hfits := Model.listFits_of_reach (World.model_reach (world_reach h))
  obtain ⟨hmode, rfl⟩ := Model.list_of_popup hscreen
  have hheld := hfits.held
  have hlength := Model.length_listRows hheld
  refine ⟨hlength, fun hsome => ?_, fun i row hrow => ?_⟩
  · have hselected : s.app.world.model.view.selected < s.app.world.model.listRows.length := by
      rw [hlength]
      refine hfits.selects.resolve_right fun hnone => hsome ?_
      have hempty : s.app.world.model.view.results = [] := hnone.1
      exact List.eq_nil_of_length_eq_zero (hlength.trans (by simp [hempty]))
    refine ⟨_, _, List.getElem?_eq_getElem hselected, ?_, fun j other hother hon => ?_⟩
    · obtain ⟨hit, item, -, -, hrow⟩ :=
        Model.exists_of_listRow hheld (List.getElem?_eq_getElem hselected)
      simp [hrow, Model.listRow]
    · obtain ⟨hit, item, -, -, rfl⟩ := Model.exists_of_listRow hheld hother
      simpa [Model.listRow] using hon
  · obtain ⟨hit, item, hhit, hitem, rfl⟩ := Model.exists_of_listRow hheld hrow
    refine ⟨hit, item, rfl, fun hon => ?_, fun c => ?_⟩
    · obtain rfl : i = s.app.world.model.view.selected := by simpa [Model.listRow] using hon
      simp [Model.targetItem, hmode, Model.selectedItem, hhit, hitem]
    · have hselect := World.targetItem_feed_select hmode hhit hitem c.now
      have hworld : (s.app.update (.rowPressed i) c).1.world = _ := App.rowPressed_world s.app i c
      simp only [Model.listRow]
      rw [hworld]
      split
      next =>
        exact ⟨(World.targetItem_feed_copyPrimary _ _).trans hselect,
          fun _ => World.copiesFrom_feed hselect c.now⟩
      next hsingle => exact ⟨hselect, fun hdouble => absurd hdouble hsingle⟩

/-- **What the mouse does to a row, the keys do.** In every run, while the list is on screen, an
arrow key pressed as often as the row is away from the highlight, and then a press that copies, come
to what the second of two presses on the row does. -/
theorem keys_do_as_presses (h : system.Reach guard s) {now : Int} {pane : ResultList}
    (hscreen : s.app.world.model.popup now = .list pane) {i : Nat} {row : ListRow}
    (hrow : pane.rows[i]? = some row) {press : KeyPress}
    (hcopy : s.app.keyMsg press = some .copyPrimary) (c : Clock)
    (hdouble : s.app.isDouble i c = true) :
    ∃ arrow ∈ [KeyPress.arrowDown, .arrowUp], ∀ clocks : List Clock,
      clocks.length =
          max i s.app.world.model.view.selected - min i s.app.world.model.view.selected →
        ((s.app.pressAll arrow clocks).update (.key press) c).1.world =
          (s.app.update row.message c).1.world := by
  have hfits := Model.listFits_of_reach (World.model_reach (world_reach h))
  obtain ⟨hmode, rfl⟩ := Model.list_of_popup hscreen
  obtain ⟨hit, item, hhit, -, rfl⟩ := Model.exists_of_listRow hfits.held hrow
  have hlt : i < s.app.world.model.view.results.length := (List.getElem?_eq_some_iff.mp hhit).1
  have hselected : s.app.world.model.view.selected < s.app.world.model.view.results.length := by
    refine hfits.selects.resolve_right fun hnone => ?_
    have hempty : s.app.world.model.view.results = [] := hnone.1
    simp [hempty] at hlt
  obtain ⟨arrow, hmem, harrow⟩ := App.exists_arrow hmode hselected hlt
  refine ⟨arrow, hmem, fun clocks hlength => ?_⟩
  have hworld := harrow clocks hlength
  have hkey : (s.app.pressAll arrow clocks).keyMsg press = some .copyPrimary := by
    unfold App.keyMsg
    rw [hworld]
    exact hcopy
  have hpressed : (s.app.update (.rowPressed i) c).1.world = _ := App.rowPressed_world s.app i c
  rw [App.update_key_world hkey (by simp), hworld]
  simp only [Model.listRow]
  rw [hpressed, if_pos hdouble, World.feed_select hlt]

end Runs

section Examples

attribute [local instance] World.plainText

/-- Ada is signed in, and has two logins; the second one has been pressed once. -/
def pressSecondLogin : List (AppEvent × Clock) :=
  [(.resolve 2 (.account (.ok ⟨"ada"⟩)), ⟨1, 0⟩), (.deliver 2, ⟨1, 0⟩),
    (.resolve 4 (.listing (.ok { vaults := [], items := [World.mailLogin, Model.bankLogin] })), ⟨2, 0⟩),
    (.deliver 4, ⟨3, 0⟩), (.popup (.rowPressed 1), ⟨4, 0⟩)]

theorem second_login_on_screen : ∃ s : Shell, system.Reach TransitionSystem.anyStep s ∧
    s.app.isDouble 1 ⟨5, 0⟩ = true ∧
    s.app.keyMsg { key := "Enter", modifiers := [] } = some .copyPrimary ∧
    ∃ pane row, s.app.world.model.popup 0 = .list pane ∧ pane.rows[1]? = some row := by
  have hrun : ∃ s : Shell, system.Reach TransitionSystem.anyStep s ∧ s.app.isDouble 1 ⟨5, 0⟩ = true ∧
      s.app.keyMsg { key := "Enter", modifiers := [] } = some .copyPrimary ∧
      s.app.world.model.popup 0 = .list s.app.world.model.resultList ∧
      s.app.world.model.resultList.rows[1]?.isSome := by
    refine TransitionSystem.exists_reach_of_run shownAtStart pressSecondLogin ⟨_, _, _, _, _, rfl⟩ ?_
    decide
  obtain ⟨s, hreach, hdouble, hcopy, hscreen, hsome⟩ := hrun
  obtain ⟨row, hrow⟩ := Option.isSome_iff_exists.mp hsome
  exact ⟨s, hreach, hdouble, hcopy, _, row, hscreen, hrow⟩

theorem second_login_copied : ∃ (s : Shell) (hit : ResultRow) (item : ItemSummary),
    (s.app.update (s.app.world.model.listRow hit 1 item).message ⟨5, 0⟩).1.world.CopiesFrom item := by
  obtain ⟨s, hreach, hdouble, -, pane, row, hscreen, hrow⟩ := second_login_on_screen
  obtain ⟨hit, item, rfl, -, hacts⟩ := (row_acts_on_its_item hreach hscreen).2.2 1 row hrow
  exact ⟨s, hit, item, (hacts ⟨5, 0⟩).2 hdouble⟩

theorem second_login_by_keys : ∃ (s : Shell) (row : ListRow),
    ∃ arrow ∈ [KeyPress.arrowDown, .arrowUp], ∀ clocks : List Clock,
      clocks.length = max 1 s.app.world.model.view.selected - min 1 s.app.world.model.view.selected →
      ((s.app.pressAll arrow clocks).update (.key { key := "Enter", modifiers := [] })
        ⟨5, 0⟩).1.world = (s.app.update row.message ⟨5, 0⟩).1.world := by
  obtain ⟨s, hreach, hdouble, hcopy, pane, row, hscreen, hrow⟩ := second_login_on_screen
  exact ⟨s, row, keys_do_as_presses hreach hscreen hrow hcopy ⟨5, 0⟩ hdouble⟩

end Examples

end Shell

end CosmicPass
