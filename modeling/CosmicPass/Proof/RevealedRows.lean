import CosmicPass.Proof.DataSlot
import CosmicPass.Proof.RevealBooks
import CosmicPass.View.Actions

/-!
# Plaintext beside its own label

A row of the field list draws plaintext when it is the one revealed. What it draws is then the answer
to a fetch for that very row: of the field as it still stands there, or of the codes of the item
shown.
-/

namespace CosmicPass

/-- No two fields, and no two one-time codes, have one name; the parser numbers the repeated ones. -/
def ItemSummary.WellNamed (item : ItemSummary) : Prop :=
  (item.fields.map (·.name)).Nodup ∧ item.totpFields.Nodup

instance (item : ItemSummary) : Decidable item.WellNamed :=
  inferInstanceAs (Decidable (_ ∧ _))

def Msg.items : Msg → List ItemSummary
  | .dataLoaded listing => listing.items
  | .cacheLoaded file => (file.map (·.items)).getD []
  | _ => []

def Reply.items : Reply → List ItemSummary
  | .listing (.ok found) => found.items
  | .cache file => (file.map (·.items)).getD []
  | _ => []

namespace Model

variable {m : Model}

theorem revealedValue_eq_some {index : Nat} {value : SecretString} :
    m.revealedValue index = some value ↔ ∃ target item,
      m.view.revealed = .field target (some value) ∧ m.targetItem = some item ∧
        target.index = index ∧ target.stillDescribes item := by
  unfold revealedValue
  cases hrevealed : m.view.revealed with
  | nothing => simp [Revealed.fieldTarget]
  | totp _ _ => simp [Revealed.fieldTarget]
  | field target shown =>
      cases hitem : m.targetItem with
      | none => simp [Revealed.fieldTarget, Revealed.value]
      | some item =>
          cases shown with
          | none => simp [Revealed.fieldTarget, Revealed.value]
          | some v =>
              simp only [Revealed.fieldTarget, Revealed.value, Option.ite_none_right_eq_some,
                Option.some.injEq, Revealed.field.injEq]
              constructor
              · rintro ⟨⟨hindex, hdescribes⟩, rfl⟩
                exact ⟨target, item, ⟨rfl, rfl⟩, rfl, hindex, hdescribes⟩
              · rintro ⟨_, _, ⟨rfl, rfl⟩, rfl, hindex, hdescribes⟩
                exact ⟨⟨hindex, hdescribes⟩, rfl⟩

theorem revealedTotp_eq_some {shown : TotpDisplay} :
    m.revealedTotp = some shown ↔ ∃ fetching, m.view.revealed = .totp (some shown) fetching := by
  unfold revealedTotp
  cases m.view.revealed <;> simp [Revealed.totpCode]

/-- The row draws the plaintext of its secret. -/
def DrawsPlaintext (m : Model) (row : ActionEntry) : Prop :=
  m.revealState row.source row.fieldIndex = .shown

theorem slot_of_drawsPlaintext {row : ActionEntry} (h : m.DrawsPlaintext row) :
    (∃ target value, m.view.revealed = .field target (some value) ∧
        row.slot = .inl (some target.index)) ∨
      ∃ shown fetching, m.view.revealed = .totp (some shown) fetching ∧
        row.slot = .inr shown.field := by
  unfold DrawsPlaintext revealState at h
  cases hsource : row.source with
  | totp name =>
      have hname : m.revealedTotp.any fun shown => shown.field = name := by
        simpa [hsource] using h
      obtain ⟨shown, hshown, hfield⟩ := (Option.any_eq_true _ _).mp hname
      obtain ⟨fetching, hrevealed⟩ := revealedTotp_eq_some.mp hshown
      refine Or.inr ⟨shown, fetching, hrevealed, ?_⟩
      simp [ActionEntry.slot, hsource, of_decide_eq_true hfield]
  | field f =>
      have hindex : row.fieldIndex.any fun index => (m.revealedValue index).isSome := by
        simp only [hsource] at h
        split at h
        · split at h
          next hany => exact hany
          next => simp at h
        · simp at h
      obtain ⟨index, hrow, hsome⟩ := (Option.any_eq_true _ _).mp hindex
      obtain ⟨value, hvalue⟩ := Option.isSome_iff_exists.mp hsome
      obtain ⟨target, item, hrevealed, -, rfl, -⟩ := revealedValue_eq_some.mp hvalue
      refine Or.inl ⟨target, value, hrevealed, ?_⟩
      simp [ActionEntry.slot, hsource, hrow]

theorem slot_eq_of_drawsPlaintext {row row' : ActionEntry} (h : m.DrawsPlaintext row)
    (h' : m.DrawsPlaintext row') : row.slot = row'.slot := by
  rcases slot_of_drawsPlaintext h with ⟨target, value, hrevealed, hslot⟩ |
    ⟨shown, fetching, hrevealed, hslot⟩ <;>
  rcases slot_of_drawsPlaintext h' with ⟨target', value', hrevealed', hslot'⟩ |
    ⟨shown', fetching', hrevealed', hslot'⟩ <;>
  rw [hrevealed] at hrevealed' <;> simp_all

theorem drawsPlaintext_unique {item : ItemSummary} (htarget : m.targetItem = some item)
    (hnames : item.WellNamed) {i j : Nat} {row row' : ActionEntry}
    (hrow : m.actions[i]? = some row) (hrow' : m.actions[j]? = some row')
    (h : m.DrawsPlaintext row) (h' : m.DrawsPlaintext row') : i = j := by
  have hslot := slot_eq_of_drawsPlaintext h h'
  have hactions : m.actions = allActions item := by simp [actions, htarget]
  rw [hactions] at hrow hrow'
  obtain ⟨hi, rfl⟩ := List.getElem?_eq_some_iff.mp hrow
  obtain ⟨hj, rfl⟩ := List.getElem?_eq_some_iff.mp hrow'
  have hpairwise := List.pairwise_iff_getElem.mp (allActions_pairwise hnames.2)
  rcases lt_trichotomy i j with hlt | heq | hgt
  · exact absurd hslot (hpairwise i j hi hj hlt)
  · exact heq
  · exact absurd hslot.symm (hpairwise j i hj hi hgt)

end Model

theorem items_of_execute {effect : Effect} {reply : Reply} {msg : Msg}
    (h : execute effect reply = some msg) : msg.items ⊆ reply.items := by
  unfold execute at h
  split at h <;> first
    | (obtain rfl := Option.some.inj h; exact List.Subset.refl _)
    | simp at h

namespace World

/-- The parser names the fields and codes of every item apart. -/
def wellNamedItems : Event → Bool
  | .resolve _ reply => reply.items.all fun item => item.WellNamed
  | _ => true

/-- The runs of the application: the key map enters the field list from the list of items only, and
what the parser lists is well named. -/
def listRun (w : World) (e : Event) : Bool := w.fromList e && wellNamedItems e

/-- Everything listed, or about to be, is well named. -/
structure WellNamed (w : World) : Prop where
  listed : ∀ item ∈ w.model.data.items, item.WellNamed
  resolved : ∀ id msg, (id, msg) ∈ w.resolved → ∀ item ∈ msg.items, item.WellNamed

section Runs

variable [TextSupport] {w w' : World}

theorem wellNamed_update {m : Model} {msg : Msg} {now : Int}
    (hlisted : ∀ item ∈ m.data.items, item.WellNamed) (hmsg : ∀ item ∈ msg.items, item.WellNamed) :
    ∀ item ∈ (m.update msg now).1.data.items, item.WellNamed := by
  cases m.update_dataMove msg now with
  | keep hsame _ _ => rwa [hsame.2.1]
  | wipe hwiped _ _ => simp [hwiped.items]
  | name account _ _ _ hdata =>
      split at hdata
      · simp [hdata.items]
      · rwa [hdata.items]
  | list listing hlist _ _ hitems _ _ =>
      rw [hitems]
      simpa [hlist, Msg.items] using hmsg
  | cache file hcache _ _ _ _ hitems _ _ =>
      rw [hitems]
      simpa [hcache, Msg.items] using hmsg
  | use _ _ _ _ _ hdata _ => rwa [hdata.2.1]

theorem wellNamed_of_reach {guard : World → Event → Prop}
    (hguard : ∀ w e, guard w e → wellNamedItems e) (h : system.Reach guard w) : w.WellNamed := by
  apply h.invariant
  · rintro _ ⟨prefs, account, rfl⟩
    exact ⟨by simp [World.start, Model.new], by simp [World.start]⟩
  · intro w e w' hreach hok hstep hnamed
    obtain ⟨hlisted, hresolved⟩ := hnamed
    rcases step_cases hstep with ⟨msg, now, rfl, huser, rfl⟩ | ⟨id, reply, flight, msg, rfl, -, hmsg,
      -, -, rfl⟩ | ⟨id, now, msg, rfl, hmem, -, rfl⟩ | ⟨account, -, rfl⟩
    · refine ⟨wellNamed_update hlisted ?_, hresolved⟩
      cases msg <;> simp [Msg.items, Msg.isAnswer] at huser ⊢
    · refine ⟨hlisted, fun other msg' hmem => ?_⟩
      rcases List.mem_cons.mp hmem with heq | hold
      · obtain ⟨rfl, rfl⟩ := Prod.mk.inj heq
        have hnames := hguard _ _ hok
        simp only [wellNamedItems, List.all_eq_true, decide_eq_true_eq] at hnames
        exact fun item hitem => hnames item (items_of_execute hmsg hitem)
      · exact hresolved other msg' hold
    · exact ⟨wellNamed_update hlisted (hresolved id msg hmem), hresolved⟩
    · exact ⟨hlisted, hresolved⟩

/-- **Revealed plaintext stands beside the label it was fetched for.** In the field list, a revealed
value answers the fetch of the field at that position, which the item still carries there unedited; a
one-time code is the one its row is named for, from an answer for the item shown; and at most one row
draws plaintext. -/
theorem revealed_beside_own_label (h : system.Reach (fun w e => listRun w e) w) {key : ItemKey}
    {selected : Nat} (hmode : w.model.view.mode = .actions key selected) :
    (∀ index value, w.model.revealedValue index = some value →
      ∃ (shown asked : ItemSummary) (field : FieldRef) (id generation : Nat)
        (cancel : CancellationToken) (flight : Flight),
        w.model.item key = some shown ∧ shown.fields[index]? = some field ∧
        w.flights[id]? = some flight ∧
        flight.effect = .fetchReveal key field.name index generation cancel ∧
        (id, .revealFetched key index generation (.ok value)) ∈ w.answered ∧
        flight.asked.item key = some asked ∧ asked.fields[index]? = some field ∧
        asked.modifiedAt = shown.modifiedAt) ∧
    (∀ row ∈ w.model.actions, ∀ name, row.source = .totp name → w.model.DrawsPlaintext row →
      ∃ (code : TotpDisplay) (id : Nat) (cancel : CancellationToken) (codes : Codes),
        w.model.revealedTotp = some code ∧ w.AsksTotp id key cancel ∧
        (id, .totpFetched key (.ok codes)) ∈ w.answered ∧
        Model.shownCode codes name = some code.code) ∧
    ∀ (i j : Nat) (row row' : ActionEntry), w.model.actions[i]? = some row →
      w.model.actions[j]? = some row' → w.model.DrawsPlaintext row →
      w.model.DrawsPlaintext row' → i = j := by
  have hbooks : w.RevealBooks :=
    revealBooks_of_reach (fun w e hrun => (Bool.and_eq_true_iff.mp hrun).1) h
  have hnames : w.WellNamed :=
    wellNamed_of_reach (fun w e hrun => (Bool.and_eq_true_iff.mp hrun).2) h
  have htarget : w.model.targetItem = w.model.item key := by simp [Model.targetItem, hmode]
  refine ⟨?_, ?_, ?_⟩
  · intro index value hvalue
    obtain ⟨target, shown, hrevealed, hshown, rfl, hdescribes⟩ :=
      Model.revealedValue_eq_some.mp hvalue
    obtain ⟨⟨_, hactions⟩, id, cancel, hasks, -, hanswered⟩ := hbooks.field target _ hrevealed
    obtain ⟨rfl, -⟩ := Mode.actions.inj (hmode.symm.trans hactions)
    obtain ⟨flight, asked, hflight, heffect, hasked, hpinned⟩ := hasks
    simp only [RevealTarget.stillDescribes, decide_eq_true_eq] at hdescribes hpinned
    exact ⟨shown, asked, target.field, id, target.generation, cancel, flight, htarget ▸ hshown,
      hdescribes.2.2, hflight, heffect, (hanswered value rfl).2, hasked, hpinned.2.2,
      hpinned.2.1.trans hdescribes.2.1.symm⟩
  · intro row hrow name hsource hdraws
    rcases Model.slot_of_drawsPlaintext hdraws with ⟨target, _, -, hslot⟩ |
      ⟨code, fetching, hrevealed, hslot⟩
    · simp [ActionEntry.slot, hsource] at hslot
    · obtain rfl : name = code.field := by simpa [ActionEntry.slot, hsource] using hslot
      obtain ⟨key', _, hactions, -, hcode⟩ := hbooks.totp (some code) fetching hrevealed
      obtain ⟨rfl, -⟩ := Mode.actions.inj (hmode.symm.trans hactions)
      obtain ⟨id, cancel, codes, hasks, hmem, hfound⟩ := hcode code rfl
      exact ⟨code, id, cancel, codes, Model.revealedTotp_eq_some.mpr ⟨fetching, hrevealed⟩, hasks,
        hmem, hfound⟩
  · intro i j row row' hrow hrow' hdraws hdraws'
    obtain ⟨item, hitem, -⟩ := w.model.mem_actions (List.mem_of_getElem? hrow)
    exact Model.drawsPlaintext_unique hitem (hnames.listed item (w.model.mem_of_targetItem hitem))
      hrow hrow' hdraws hdraws'

end Runs

section Examples

attribute [local instance] plainText

theorem revealed_beside_own_label_password : ∃ w : World,
    w.model.revealedValue 1 = some ⟨"hunter2"⟩ ∧ ∃ id generation,
      (id, .revealFetched mailLogin.key 1 generation (.ok ⟨"hunter2"⟩)) ∈ w.answered := by
  have hrun : ∃ w, system.Reach (fun w e => listRun w e) w ∧
      w.model.view.mode = .actions mailLogin.key 0 ∧
      w.model.revealedValue 1 = some ⟨"hunter2"⟩ := by
    refine TransitionSystem.exists_reach_of_run (start .default none)
      (listMailLogin ++ [.send .openActions 0, .send .toggleReveal 0,
        .resolve 2 (.field (.ok ⟨"hunter2"⟩)), .deliver 2 0]) ⟨_, _, rfl⟩ ?_
    decide
  obtain ⟨w, hreach, hmode, hvalue⟩ := hrun
  obtain ⟨_, _, _, id, generation, _, _, -, -, -, -, hanswered, -⟩ :=
    (revealed_beside_own_label hreach hmode).1 1 _ hvalue
  exact ⟨w, hvalue, id, generation, hanswered⟩

end Examples

end World

end CosmicPass
