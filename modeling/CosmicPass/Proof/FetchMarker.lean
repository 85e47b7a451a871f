import CosmicPass.Proof.AccountEnd
import CosmicPass.Proof.ActionRows
import CosmicPass.Proof.RevealedRows
import CosmicPass.Proof.Waiting

/-!
# The marker on the row being fetched

A row of a field carries the marker by its position, a row of a code by a flag that all the codes of
the item share. So the marker is on the row being fetched, and on no other, as long as a code that is
fetched is the only one its item has.
-/

namespace CosmicPass

theorem ItemSummary.WellNamed.named {item : ItemSummary} (h : item.WellNamed) : item.Named :=
  ⟨h.1, h.2⟩

def CopySource.isCode : CopySource → Bool
  | .totp _ => true
  | .field _ => false

namespace Model

/-- The code that a fetch of codes asked for now would bring: the one on screen, which it refreshes,
or else the one of the highlighted row. -/
def askedCode (m : Model) : Option String :=
  (m.revealedTotp.map (·.field)).or m.highlightedTotpField

/-- The rows that say their value is on its way. -/
def markedRows (m : Model) : List ActionEntry :=
  m.actions.filter fun row => m.fetching row.source row.fieldIndex

section Marked

variable {m : Model} {item : ItemSummary}

theorem markedRows_eq_nil (hcancel : m.view.revealCancel = none) (hcode : m.revealingTotp = false) :
    m.markedRows = [] := by
  apply List.filter_eq_nil_iff.mpr
  intro row _
  unfold fetching
  cases row.source with
  | totp name => simp [hcode]
  | field f => cases row.fieldIndex <;> simp [revealingField, hcancel]

theorem slot_of_mem_markedRows {target : RevealTarget} {value : Option SecretString}
    (hrevealed : m.view.revealed = .field target value) {row : ActionEntry}
    (hrow : row ∈ m.markedRows) : row.slot = .inl (some target.index) := by
  have hfetching := (List.mem_filter.mp hrow).2
  unfold fetching at hfetching
  cases hsource : row.source with
  | totp name => simp [hsource, revealingTotp, hrevealed, Revealed.totpFetching] at hfetching
  | field f =>
      rw [hsource] at hfetching
      obtain ⟨index, hindex, hrevealing⟩ := (Option.any_eq_true _ _).mp hfetching
      have hposition : target.index = index := by
        simpa [hrevealed, Revealed.fieldTarget] using (of_decide_eq_true hrevealing).2
      simp [ActionEntry.slot, hsource, hindex, hposition]

theorem length_le_one_of_pairwise {α β : Type} {f : α → β} {rows : List α} {c : β}
    (hne : rows.Pairwise fun a b => f a ≠ f b) (heq : ∀ a ∈ rows, f a = c) : rows.length ≤ 1 := by
  match rows with
  | [] => simp
  | [_] => simp
  | a :: b :: rest =>
      have hdistinct := (List.pairwise_cons.mp hne).1 b (by simp)
      exact absurd ((heq a (by simp)).trans (heq b (by simp)).symm) hdistinct

/-- **The row of a field being fetched is the only one marked.** -/
theorem markedRows_of_field {target : RevealTarget} (hitem : m.targetItem = some item)
    (hnamed : item.Named) (hdescribes : target.stillDescribes item)
    (hrevealed : m.view.revealed = .field target none) (hcancel : m.view.revealCancel.isSome) :
    ∃ row, m.markedRows = [row] ∧ row.source = .field target.field ∧
      row.fieldIndex = some target.index := by
  have hactions : m.actions = allActions item := by simp [actions, hitem]
  have hget : item.fields[target.index]? = some target.field := (of_decide_eq_true hdescribes).2.2
  obtain ⟨row, hmem, hsource⟩ := row_of_field (List.mem_of_getElem? hget)
  obtain ⟨i, hindex, hposition⟩ := fieldIndex_eq hnamed hmem hsource
  obtain rfl := (hposition _).mp hget
  have hmarked : row ∈ m.markedRows := by
    refine List.mem_filter.mpr ⟨hactions ▸ hmem, ?_⟩
    simp [fetching, hsource, hindex, revealingField, hcancel, hrevealed, Revealed.fieldTarget]
  have hdistinct : m.markedRows.Pairwise fun a b => a.slot ≠ b.slot := by
    apply List.Pairwise.filter
    rw [hactions]
    exact allActions_pairwise hnamed.totps
  have hone := length_le_one_of_pairwise hdistinct fun row' hrow' =>
    slot_of_mem_markedRows hrevealed hrow'
  refine ⟨row, ?_, hsource, hindex⟩
  have hlength : m.markedRows.length = 1 := by
    have hpos := List.length_pos_of_mem hmarked
    omega
  obtain ⟨only, honly⟩ := List.length_eq_one_iff.mp hlength
  rw [honly, List.mem_singleton] at hmarked
  rw [honly, hmarked]

/-- **While codes are fetched, every row of a code is marked**, and no other. -/
theorem map_source_markedRows (hitem : m.targetItem = some item) (hnamed : item.Named)
    {code : Option TotpDisplay} (hrevealed : m.view.revealed = .totp code true) :
    (m.markedRows.map (·.source)).Perm (item.totpFields.map .totp) := by
  have hmarks : m.markedRows = (allActions item).filter (·.source.isCode) := by
    simp only [markedRows, actions, hitem]
    apply List.filter_congr
    intro row _
    unfold fetching
    cases row.source with
    | totp name => simp [CopySource.isCode, revealingTotp, hrevealed, Revealed.totpFetching]
    | field f =>
        cases row.fieldIndex <;>
          simp [CopySource.isCode, revealingField, hrevealed, Revealed.fieldTarget]
  have hsources : m.markedRows.map (·.source) =
      ((allActions item).map (·.source)).filter (·.isCode) := by
    rw [hmarks, List.filter_map]
    rfl
  have hfields : (item.fields.map CopySource.field).filter (·.isCode) = [] := by
    simp [List.filter_eq_nil_iff, CopySource.isCode]
  have htotps : (item.totpFields.map CopySource.totp).filter (·.isCode) =
      item.totpFields.map .totp := by
    simp [List.filter_eq_self, CopySource.isCode]
  rw [hsources]
  refine ((map_source_perm hnamed).filter _).trans (.of_eq ?_)
  rw [ItemSummary.sources, List.filter_append, hfields, htotps, List.nil_append]

end Marked

end Model

/-- The item whose values the effect fetches to show one, and its token. -/
def Effect.valueFetch : Effect → Option (ItemKey × CancellationToken)
  | .fetchReveal key _ _ _ cancel | .fetchTotp key cancel => some (key, cancel)
  | _ => none

/-- The row is the one whose value was asked for. -/
def Flight.asksFor (flight : Flight) (row : ActionEntry) : Bool :=
  match flight.effect, row.source with
  | .fetchReveal _ name index _ _, .field field => field.name = name ∧ row.fieldIndex = some index
  | .fetchTotp _ _, .totp name => flight.asked.askedCode = some name
  | _, _ => false

namespace World

/-- A fetch of one of the item's values to show, not answered yet and cancelled by nobody. -/
structure AwaitsValue (w : World) (key : ItemKey) (id : Nat) (flight : Flight) : Prop where
  issued : w.flights[id]? = some flight
  unanswered : ∀ msg, (id, msg) ∉ w.answered
  wanted : ∃ cancel, flight.effect.valueFetch = some (key, cancel) ∧
    ¬ w.model.tokens.IsCancelled cancel

/-- The marker is on the row whose value is awaited, and on no other. -/
structure MarksAwaited (w : World) (key : ItemKey) : Prop where
  atMostOne : w.model.markedRows.length ≤ 1
  awaited : w.model.markedRows.length = 1 ↔ ∃ id flight, w.AwaitsValue key id flight
  asked : ∀ row ∈ w.model.markedRows, ∀ id flight, w.AwaitsValue key id flight →
    flight.asksFor row

/-- While a code is awaited, it is the only one that the item, still listed, has. -/
def SoleCodeAwaited (w : World) (key : ItemKey) : Prop :=
  ∀ id flight cancel, w.AwaitsValue key id flight → flight.effect = .fetchTotp key cancel →
    ∃ item name, w.model.item key = some item ∧ item.totpFields = [name] ∧
      flight.asked.askedCode = some name

/-- The list shows codes as being fetched only while a fetch of them that it holds is unanswered. -/
def CodeWanted (w : World) : Prop :=
  ∀ code, w.model.view.revealed = .totp code true → ∃ id key selected cancel,
    w.model.view.mode = .actions key selected ∧ w.Unanswered id (.fetchTotp key cancel) ∧
      w.model.view.revealTotpCancel = some cancel

section Marks

variable {w : World} {key : ItemKey}

theorem AwaitsValue.cases {id : Nat} {flight : Flight} (h : w.AwaitsValue key id flight)
    (hheld : w.FetchesHeld) (hcodes : w.CodesAwaited) :
    (∃ name index generation cancel, flight.effect = .fetchReveal key name index generation cancel ∧
        w.model.view.revealCancel = some cancel ∧
        ∃ target, w.model.view.revealed = .field target none ∧ target.generation = generation) ∨
      ∃ cancel code, flight.effect = .fetchTotp key cancel ∧
        w.model.view.revealed = .totp code true := by
  obtain ⟨hissued, hopen, cancel, hfetch, hlive⟩ := h
  cases heffect : flight.effect with
  | fetchReveal key' name index generation cancel' =>
      obtain ⟨rfl, rfl⟩ : key' = key ∧ cancel' = cancel := by
        simpa [heffect, Effect.valueFetch] using hfetch
      have hfield := hheld.field id key' name index generation cancel'
        ⟨⟨flight, hissued, heffect⟩, hopen⟩
      exact Or.inl ⟨name, index, generation, cancel', rfl, hfield.resolve_left hlive⟩
  | fetchTotp key' cancel' =>
      obtain ⟨rfl, rfl⟩ : key' = key ∧ cancel' = cancel := by
        simpa [heffect, Effect.valueFetch] using hfetch
      obtain ⟨⟨code, hrevealed⟩, -⟩ :=
        hcodes.held id cancel' ⟨⟨key', flight, hissued, heffect⟩, hopen, hlive⟩
      exact Or.inr ⟨cancel', code, rfl, hrevealed⟩
  | _ => simp [heffect, Effect.valueFetch] at hfetch

/-- What the books say of the values being fetched. -/
structure ValueBooks (w : World) : Prop where
  reveals : w.RevealBooks
  held : w.FetchesHeld
  codes : w.CodesAwaited
  wanted : w.CodeWanted
  owned : w.HeldOwned
  names : w.WellNamed
  pinned : w.model.Pinned

theorem ValueBooks.marksAwaited_of_idle (hbooks : w.ValueBooks)
    (hfield : ∀ target, w.model.view.revealed ≠ .field target none)
    (hcode : ∀ code, w.model.view.revealed ≠ .totp code true) :
    w.MarksAwaited key ∧ w.SoleCodeAwaited key := by
  have hnone : ∀ id flight, ¬ w.AwaitsValue key id flight := by
    intro id flight hawaits
    rcases hawaits.cases hbooks.held hbooks.codes with
      ⟨_, _, _, _, -, -, target, hrevealed, -⟩ | ⟨_, code, -, hrevealed⟩
    · exact hfield target hrevealed
    · exact hcode code hrevealed
  have hmarks : w.model.markedRows = [] := by
    apply Model.markedRows_eq_nil
    · exact hbooks.reveals.revealCancel_eq_none hfield
    · cases hrevealed : w.model.view.revealed with
      | totp code fetching =>
          cases fetching with
          | true => exact absurd hrevealed (hcode code)
          | false => simp [Model.revealingTotp, hrevealed, Revealed.totpFetching]
      | nothing | field => simp [Model.revealingTotp, hrevealed, Revealed.totpFetching]
  refine ⟨⟨by simp [hmarks], by simp [hmarks, hnone], by simp [hmarks]⟩, ?_⟩
  intro id flight _ hawaits
  exact absurd hawaits (hnone id flight)

theorem ValueBooks.marksAwaited_of_field (hbooks : w.ValueBooks) {selected : Nat}
    (hmode : w.model.view.mode = .actions key selected) {target : RevealTarget}
    (hrevealed : w.model.view.revealed = .field target none) :
    w.MarksAwaited key ∧ w.SoleCodeAwaited key := by
  obtain ⟨⟨_, hactions⟩, id, cancel, hasks, hwaiting, -⟩ := hbooks.reveals.field target none hrevealed
  obtain ⟨rfl, -⟩ := Mode.actions.inj (hmode.symm.trans hactions)
  obtain ⟨hcancel, hopen⟩ := hwaiting rfl
  obtain ⟨item, hitem, hdescribes⟩ :=
    (Option.any_eq_true _ _).mp (hbooks.pinned target (by rw [hrevealed]; rfl))
  have htarget : w.model.targetItem = some item := by simpa [Model.targetItem, hmode] using hitem
  have hnames := hbooks.names.listed item (w.model.mem_of_targetItem htarget)
  obtain ⟨row, hmarks, hsource, hindex⟩ := Model.markedRows_of_field htarget hnames.named
    hdescribes hrevealed (by simp [hcancel])
  -- Whatever is awaited carries the number of the target, and so is its fetch.
  have honly : ∀ id' flight, w.AwaitsValue target.key id' flight → flight.effect =
      .fetchReveal target.key target.field.name target.index target.generation cancel := by
    intro id' flight hawaits
    rcases hawaits.cases hbooks.held hbooks.codes with
      ⟨name, index, generation, cancel', heffect, -, target', hrevealed', hgeneration⟩ |
      ⟨_, code, -, hrevealed'⟩
    · obtain ⟨rfl, -⟩ := Revealed.field.inj (hrevealed.symm.trans hrevealed')
      have hnumber : w.generationOf id' = some target.generation := by
        simp [generationOf, hawaits.issued, heffect, Effect.revealGeneration, hgeneration]
      obtain rfl := hbooks.reveals.distinct id' id _ hnumber hasks.generationOf_eq
      obtain ⟨flight', -, hflight', heffect', -⟩ := hasks
      obtain rfl := Option.some.inj (hawaits.issued.symm.trans hflight')
      exact heffect'
    · simp [hrevealed] at hrevealed'
  have hawaits : ∃ id flight, w.AwaitsValue target.key id flight := by
    obtain ⟨flight, _, hflight, heffect, -⟩ := hasks
    refine ⟨id, flight, hflight, hopen, cancel, by rw [heffect]; rfl, ?_⟩
    exact (hbooks.owned.live cancel (by simp [Model.held, Held.list, hcancel])).2
  refine ⟨⟨by simp [hmarks], by simp [hmarks, hawaits], ?_⟩, ?_⟩
  · intro row' hrow' id' flight hawaits'
    rw [hmarks, List.mem_singleton] at hrow'
    rw [hrow', Flight.asksFor, honly id' flight hawaits', hsource]
    simp [hindex]
  · intro id' flight cancel' hawaits' heffect
    simp [honly id' flight hawaits'] at heffect

theorem ValueBooks.marksAwaited_of_code_iff (hbooks : w.ValueBooks) {selected : Nat}
    (hmode : w.model.view.mode = .actions key selected) {code : Option TotpDisplay}
    (hrevealed : w.model.view.revealed = .totp code true) :
    w.MarksAwaited key ↔ w.SoleCodeAwaited key := by
  obtain ⟨id, key', selected', cancel, hactions, ⟨⟨flight, hflight, heffect⟩, hopen⟩, hcancel⟩ :=
    hbooks.wanted code hrevealed
  obtain ⟨rfl, -⟩ := Mode.actions.inj (hmode.symm.trans hactions)
  have hlive := (hbooks.owned.live cancel (by simp [Model.held, Held.list, hcancel])).2
  have hawaits : w.AwaitsValue key id flight :=
    ⟨hflight, hopen, cancel, by rw [heffect]; rfl, hlive⟩
  have honly : ∀ id' flight', w.AwaitsValue key id' flight' → flight' = flight := by
    intro id' flight' hawaits'
    rcases hawaits'.cases hbooks.held hbooks.codes with
      ⟨_, _, _, _, -, -, target, hrevealed', -⟩ | ⟨cancel', _, heffect', -⟩
    · simp [hrevealed] at hrevealed'
    · obtain ⟨token, hfetch, hlive'⟩ := hawaits'.wanted
      obtain rfl : cancel' = token := by simpa [heffect', Effect.valueFetch] using hfetch
      obtain rfl := hbooks.codes.unique id' id cancel' cancel
        ⟨⟨key, flight', hawaits'.issued, heffect'⟩, hawaits'.unanswered, hlive'⟩
        ⟨⟨key, flight, hflight, heffect⟩, hopen, hlive⟩
      exact Option.some.inj (hawaits'.issued.symm.trans hflight)
  have htarget : w.model.targetItem = w.model.item key := by simp [Model.targetItem, hmode]
  have hnamed : ∀ item, w.model.item key = some item → item.Named := fun item hitem =>
    (hbooks.names.listed item (w.model.mem_of_targetItem (htarget.trans hitem))).named
  constructor
  · intro hmarks id' flight' cancel' hawaits' heffect'
    obtain rfl := honly id' flight' hawaits'
    obtain ⟨row, hrow⟩ := List.length_eq_one_iff.mp (hmarks.awaited.mpr ⟨id, flight', hawaits⟩)
    have hmem : row ∈ w.model.markedRows := by simp [hrow]
    obtain ⟨item, hitem, -⟩ := w.model.mem_actions (List.mem_filter.mp hmem).1
    have hsources := Model.map_source_markedRows hitem (hnamed item (htarget ▸ hitem)) hrevealed
    rw [hrow, List.map_singleton, List.singleton_perm] at hsources
    obtain ⟨name, hnames, hsource⟩ := List.map_eq_singleton_iff.mp hsources.symm
    have hasked := hmarks.asked row hmem id flight' hawaits
    simp only [Flight.asksFor, heffect', ← hsource, decide_eq_true_eq] at hasked
    exact ⟨item, name, htarget ▸ hitem, hnames, hasked⟩
  · intro hsole
    obtain ⟨item, name, hitem, hnames, hasked⟩ := hsole id flight cancel hawaits heffect
    have hsources :=
      Model.map_source_markedRows (htarget.trans hitem) (hnamed item hitem) hrevealed
    rw [hnames, List.map_singleton, List.perm_singleton] at hsources
    obtain ⟨row, hrow, hsource⟩ := List.map_eq_singleton_iff.mp hsources
    refine ⟨by simp [hrow], iff_of_true (by simp [hrow]) ⟨id, flight, hawaits⟩, ?_⟩
    intro row' hrow' id' flight' hawaits'
    rw [hrow, List.mem_singleton] at hrow'
    rw [honly id' flight' hawaits', hrow', Flight.asksFor, heffect, hsource]
    simp [hasked]

theorem ValueBooks.marksAwaited_iff (hbooks : w.ValueBooks) {selected : Nat}
    (hmode : w.model.view.mode = .actions key selected) :
    w.MarksAwaited key ↔ w.SoleCodeAwaited key := by
  have hidle : (∀ target, w.model.view.revealed ≠ .field target none) →
      (∀ code, w.model.view.revealed ≠ .totp code true) →
      (w.MarksAwaited key ↔ w.SoleCodeAwaited key) := fun hfield hcode =>
    have hboth := hbooks.marksAwaited_of_idle hfield hcode
    iff_of_true hboth.1 hboth.2
  cases hrevealed : w.model.view.revealed with
  | nothing => exact hidle (by simp [hrevealed]) (by simp [hrevealed])
  | field target value =>
      cases value with
      | none =>
          have hboth := hbooks.marksAwaited_of_field hmode hrevealed
          exact iff_of_true hboth.1 hboth.2
      | some v => exact hidle (by simp [hrevealed]) (by simp [hrevealed])
  | totp code fetching =>
      cases fetching with
      | true => exact hbooks.marksAwaited_of_code_iff hmode hrevealed
      | false => exact hidle (by simp [hrevealed]) (by simp [hrevealed])

end Marks

section Runs

variable [TextSupport] {w w' : World} {source : Option Nat} {msg : Msg} {now : Int} {key : ItemKey}

theorem CodeWanted.handled (hwanted : w.CodeWanted) (hbooks : w.RevealBooks)
    (hconsistent : w.Consistent) (h : Handled w source msg now w')
    (hlist : msg = .openActions → w.model.view.mode = .list) : w'.CodeWanted := by
  intro code hrevealed
  rw [h.model] at hrevealed ⊢
  -- Where the rows are left as they are, the same fetch is still unanswered.
  have hkept : (w.model.update msg now).1.view.mode = w.model.view.mode →
      (w.model.update msg now).1.view.revealed = w.model.view.revealed →
      (w.model.update msg now).1.view.revealTotpCancel = w.model.view.revealTotpCancel →
      (∀ key result, msg = .totpFetched key result → w.model.awaitsTotp key = false) →
      ∃ id key selected cancel, (w.model.update msg now).1.view.mode = .actions key selected ∧
        w'.Unanswered id (.fetchTotp key cancel) ∧
        (w.model.update msg now).1.view.revealTotpCancel = some cancel := by
    intro hmode hsame hheld hignored
    rw [hsame] at hrevealed
    obtain ⟨id, key, selected, cancel, hactions, hopen, hcancel⟩ := hwanted code hrevealed
    refine ⟨id, key, selected, cancel, hmode.trans hactions, ?_, hheld.trans hcancel⟩
    apply h.unanswered_mono hconsistent hopen
    intro reply hexecute
    obtain ⟨result, hmsg⟩ := execute_fetchTotp hexecute
    have hawaits : w.model.awaitsTotp key :=
      Model.awaitsTotp_iff.mpr ⟨⟨selected, hactions⟩, code, hrevealed⟩
    simp [hignored key result hmsg] at hawaits
  cases w.model.update_revealMove msg now with
  | keep hsame _ _ htotp => exact hkept hsame.1 hsame.2.1 hsame.2.2.2.1 htotp
  | turn hsame _ _ _ hmode _ _ =>
      have hnothing := hbooks.revealed_eq_nothing (Model.mode_ne_actions_of_turn hlist hmode)
      simp [hsame, hnothing] at hrevealed
  | clear hcleared _ => simp [hcleared.revealed] at hrevealed
  | drop _ _ _ hdropped => simp [hdropped] at hrevealed
  | askField _ _ _ _ _ _ _ _ _ hafter => simp [hafter.2.1] at hrevealed
  | askTotp key selected _ cancel hmode _ hafter heffects =>
      refine ⟨w.flights.length, key, selected, cancel, hafter.1.trans hmode, ?_, hafter.2.2.1⟩
      refine (h.unanswered_iff hconsistent _ _).mpr (Or.inr ⟨le_rfl, ?_⟩)
      rw [heffects, Nat.sub_self]
      rfl
  | fieldAnswered _ target value _ result _ _ _ hafter =>
      rw [hafter.2.1] at hrevealed
      unfold Model.answeredField at hrevealed
      split at hrevealed <;> simp at hrevealed
  | totpAnswered _ _ _ _ _ _ _ hafter => simp [hafter.2.1] at hrevealed

theorem codeWanted_of_reach {guard : World → Event → Prop} (hguard : ∀ w e, guard w e → fromList w e)
    (h : system.Reach guard w) : w.CodeWanted := by
  refine invariant_of_handled ?_ ?_ ?_ h
  · intro prefs account code hrevealed
    simp [World.start, Model.new] at hrevealed
  · intro w w' hquiet hwanted
    simpa only [CodeWanted, hquiet.unanswered_iff, hquiet.model] using hwanted
  · intro w w' source msg now hreach hconsistent hhandled hsend _ hwanted
    refine hwanted.handled (revealBooks_of_reach hguard hreach) hconsistent hhandled ?_
    rintro rfl
    simpa [fromList] using hguard _ _ (hsend (hhandled.source_eq_none rfl))

/-- The runs of the application in which no answer is mistaken for that to another fetch of codes. -/
def separateRun (w : World) (e : Event) : Bool := listRun w e && separateCodes w e

theorem valueBooks_of_reach (h : system.Reach (fun w e => separateRun w e) w) : w.ValueBooks := by
  have hlist : ∀ w e, separateRun w e = true → listRun w e = true := fun _ _ hrun =>
    (Bool.and_eq_true_iff.mp hrun).1
  have hfrom : ∀ w e, separateRun w e = true → fromList w e = true := fun w e hrun =>
    (Bool.and_eq_true_iff.mp (hlist w e hrun)).1
  refine ⟨revealBooks_of_reach hfrom h, fetchesHeld_of_reach (h.mono hfrom), ?_,
    codeWanted_of_reach hfrom h, owned_of_reach h, ?_, Model.pinned_of_reach (model_reach h)⟩
  · exact codesAwaited_of_reach (h.mono fun _ _ hrun => (Bool.and_eq_true_iff.mp hrun).2)
  · exact wellNamed_of_reach (fun w e hrun => (Bool.and_eq_true_iff.mp (hlist w e hrun)).2) h

/-- An answer mistaken for that to the fetch awaited takes the marker off its row. -/
theorem ValueBooks.not_marksAwaited_of_overlap (hbooks : w.ValueBooks) (hconsistent : w.Consistent)
    {selected : Nat} (hmode : w.model.view.mode = .actions key selected) {id : Nat}
    (hstep : w.step (.deliver id now) = some w') (hoverlap : w.codeOverlap id = true) :
    ¬ w'.MarksAwaited key := by
  unfold codeOverlap at hoverlap
  split at hoverlap
  next key' cancel asked account hflight =>
    obtain ⟨hspent, hawaits⟩ := Bool.and_eq_true_iff.mp hoverlap
    obtain ⟨msg, -, hhandled⟩ := deliver_handled hconsistent hstep
    obtain ⟨reply, hexecute⟩ := hhandled.executes rfl hflight
    obtain ⟨result, rfl⟩ := execute_fetchTotp hexecute
    obtain ⟨⟨_, hactions⟩, code, hrevealed⟩ := Model.awaitsTotp_iff.mp hawaits
    obtain ⟨rfl, -⟩ := Mode.actions.inj (hmode.symm.trans hactions)
    obtain ⟨other, key', _, wanted, hactions', ⟨⟨flight, hissued, heffect⟩, hopen⟩, hheld⟩ :=
      hbooks.wanted code hrevealed
    obtain ⟨rfl, -⟩ := Mode.actions.inj (hmode.symm.trans hactions')
    have hlive := (hbooks.owned.live wanted (by simp [Model.held, Held.list, hheld])).2
    have hother : some id ≠ some other := by
      rintro ⟨⟩
      obtain rfl := Option.some.inj (hflight.symm.trans hissued)
      obtain ⟨-, rfl⟩ := Effect.fetchTotp.inj heffect
      exact hlive (of_decide_eq_true hspent)
    have hafter : w'.model = (w.model.totpFetched key result now).1 := hhandled.model
    have hstill : w'.AwaitsValue key other flight := by
      refine ⟨hhandled.flights_mono hissued, hhandled.still_open hother hopen, wanted,
        by rw [heffect]; rfl, ?_⟩
      have htokens : w'.model.held = w.model.held := hafter ▸ w.model.totpFetched_held key result now
      have hsame : w'.model.tokens = w.model.tokens := congrArg Held.tokens htokens
      rwa [hsame]
    obtain ⟨-, hsettled, hkept, -⟩ := Model.totpFetched_answered hawaits hrevealed result now
    have hmarks : w'.model.markedRows = [] := by
      rw [hafter]
      apply Model.markedRows_eq_nil
      · rw [hkept]
        exact hbooks.reveals.revealCancel_eq_none (by simp [hrevealed])
      · rw [Model.revealingTotp, hsettled]
        rfl
    intro hmarked
    have hone := hmarked.awaited.mpr ⟨other, flight, hstill⟩
    simp [hmarks] at hone
  next => simp at hoverlap

/-- **The marker sits on the row being fetched, and on no other, exactly while a code that is fetched
is the only one of its item**, in every run in which no answer is mistaken for that to another fetch of
codes. One that is takes the marker off the row still fetched. -/
theorem marker_on_awaited_row_iff (h : system.Reach (fun w e => separateRun w e) w) {selected : Nat}
    (hmode : w.model.view.mode = .actions key selected) :
    (w.MarksAwaited key ↔ w.SoleCodeAwaited key) ∧
      ∀ id now w', w.step (.deliver id now) = some w' → separateCodes w (.deliver id now) = false →
        ¬ w'.MarksAwaited key := by
  have hbooks := valueBooks_of_reach h
  refine ⟨hbooks.marksAwaited_iff hmode, fun id now w' hstep hmistaken => ?_⟩
  apply hbooks.not_marksAwaited_of_overlap (consistent_of_reach h) hmode hstep
  simpa [separateCodes] using hmistaken

end Runs

section Examples

attribute [local instance] plainText

theorem marker_on_awaited_row_code : ∃ w : World, w.model.markedRows.length = 1 ∧
    w.MarksAwaited mailLogin.key := by
  have hrun : ∃ w, system.Reach (fun w e => separateRun w e) w ∧
      w.model.view.mode = .actions mailLogin.key 2 ∧ w.model.markedRows.length = 1 ∧
      (w.model.item mailLogin.key).any (fun item => item.totpFields = ["totp_uri"]) ∧
      ∀ flight ∈ w.flights, ∀ fetch ∈ flight.effect.valueFetch,
        flight.asked.askedCode = some "totp_uri" := by
    refine TransitionSystem.exists_reach_of_run (start .default none)
      (highlightCode ++ [.send .toggleReveal 0]) ⟨_, _, rfl⟩ ?_
    decide
  obtain ⟨w, hreach, hmode, hone, hany, hasked⟩ := hrun
  obtain ⟨item, hitem, hsole⟩ := (Option.any_eq_true _ _).mp hany
  refine ⟨w, hone, (marker_on_awaited_row_iff hreach hmode).1.mpr ?_⟩
  intro id flight cancel hawaits _
  obtain ⟨_, hfetch, -⟩ := hawaits.wanted
  exact ⟨item, "totp_uri", hitem, of_decide_eq_true hsole,
    hasked flight (List.mem_of_getElem? hawaits.issued) _ hfetch⟩

/-- The first of two codes is asked for, and the row of the second is marked as well. -/
theorem both_code_rows_marked : ∃ w : World, system.Reach (fun w e => separateRun w e) w ∧
    w.model.view.mode = .actions Model.twoCodes.key 0 ∧
    w.model.markedRows.map (·.source) = [.totp "totp_uri", .totp "work"] ∧
    ¬ w.MarksAwaited Model.twoCodes.key := by
  have hrun : ∃ w, system.Reach (fun w e => separateRun w e) w ∧
      w.model.view.mode = .actions Model.twoCodes.key 0 ∧
      w.model.markedRows.map (·.source) = [.totp "totp_uri", .totp "work"] := by
    refine TransitionSystem.exists_reach_of_run (start .default none)
      [.send .refreshRequested 0,
        .resolve 0 (.listing (.ok { vaults := [], items := [Model.twoCodes] })), .deliver 0 0,
        .send .openActions 0, .send .toggleReveal 0] ⟨_, _, rfl⟩ ?_
    decide
  obtain ⟨w, hreach, hmode, hsources⟩ := hrun
  refine ⟨w, hreach, hmode, hsources, fun hmarks => ?_⟩
  have hlength := congrArg List.length hsources
  rw [List.length_map, List.length_cons, List.length_cons, List.length_nil] at hlength
  have hone := hmarks.atMostOne
  omega

end Examples

end World

end CosmicPass
