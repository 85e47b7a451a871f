import CosmicPass.Core.State

/-!
# What the rows of the field list stand for

Every source a shortcut or a row of the field list names is a field or a one-time code of the item it
is listed for, and a row that carries a position names the field found there.
-/

namespace CosmicPass

/-- The source is one of the item's own fields or one-time codes. -/
def ItemSummary.Offers (item : ItemSummary) : CopySource → Prop
  | .field field => field ∈ item.fields
  | .totp name => name ∈ item.totpFields

section Actions

variable {item : ItemSummary} {source : CopySource}

theorem offers_of_totpAction (h : totpAction item = some source) : item.Offers source := by
  obtain ⟨name, hname, rfl⟩ := Option.map_eq_some_iff.mp h
  exact List.mem_of_mem_head? hname

theorem offers_of_usernameAction (h : usernameAction item = some source) : item.Offers source := by
  obtain ⟨field, hfield, rfl⟩ := Option.map_eq_some_iff.mp h
  obtain ⟨i, -, hget⟩ := Option.bind_eq_some_iff.mp hfield
  exact List.mem_of_getElem? hget

theorem offers_of_urlAction (h : urlAction item = some source) : item.Offers source := by
  obtain ⟨i, -, hmap⟩ := Option.bind_eq_some_iff.mp h
  obtain ⟨field, hget, rfl⟩ := Option.map_eq_some_iff.mp hmap
  exact List.mem_of_getElem? hget

theorem offers_of_primaryAction (h : primaryAction item = some source) : item.Offers source := by
  unfold primaryAction at h
  dsimp only at h
  split at h
  next field hfield =>
    obtain rfl := Option.some.inj h
    rcases Option.or_eq_some_iff.mp hfield with hpreferred | ⟨-, hrest⟩
    · obtain ⟨name, -, hfind⟩ := Option.bind_eq_some_iff.mp hpreferred
      exact List.mem_of_find?_eq_some hfind
    · rcases Option.or_eq_some_iff.mp hrest with hsecret | ⟨-, hfirst⟩
      · exact List.mem_of_find?_eq_some hsecret
      · exact List.mem_of_mem_head? hfirst
  next => exact offers_of_totpAction h

theorem fieldEntry_eq_some {field : FieldRef} {i : Nat} {row : ActionEntry}
    (h : fieldEntry item field i = some row) :
    primaryAction item ≠ some (.field field) ∧ row.source = .field field ∧
      row.fieldIndex = some i := by
  unfold fieldEntry at h
  split at h
  next => simp at h
  next hprimary =>
    obtain rfl := Option.some.inj h
    exact ⟨hprimary, rfl, rfl⟩

theorem totpEntry_eq_some {name : String} {i : Nat} {row : ActionEntry}
    (h : totpEntry item name i = some row) :
    primaryAction item ≠ some (.totp name) ∧ row.source = .totp name ∧ row.fieldIndex = none := by
  unfold totpEntry at h
  split at h
  next => simp at h
  next hprimary =>
    obtain rfl := Option.some.inj h
    exact ⟨hprimary, rfl, rfl⟩

/-- **The rows of the list.** The primary one, then one for each other field and one-time code. -/
theorem mem_allActions_cases {row : ActionEntry} (h : row ∈ allActions item) :
    row ∈ primaryEntry item ∨
    (∃ field i, item.fields[i]? = some field ∧ primaryAction item ≠ some (.field field) ∧
      row.source = .field field ∧ row.fieldIndex = some i) ∨
    (∃ name ∈ item.totpFields, primaryAction item ≠ some (.totp name) ∧
      row.source = .totp name ∧ row.fieldIndex = none) := by
  unfold allActions at h
  rw [List.mem_append, List.mem_append] at h
  rcases h with (hprimary | hfield) | htotp
  · exact Or.inl hprimary
  · obtain ⟨⟨field, i⟩, hmem, hentry⟩ := List.mem_filterMap.mp hfield
    exact Or.inr (Or.inl ⟨field, i, List.mk_mem_zipIdx_iff_getElem?.mp hmem,
      fieldEntry_eq_some hentry⟩)
  · obtain ⟨⟨name, i⟩, hmem, hentry⟩ := List.mem_filterMap.mp htotp
    exact Or.inr (Or.inr ⟨name, List.fst_mem_of_mem_zipIdx hmem, totpEntry_eq_some hentry⟩)

theorem mem_primaryEntry {row : ActionEntry} (h : row ∈ primaryEntry item) :
    primaryAction item = some row.source ∧
      ∀ field, row.source = .field field →
        row.fieldIndex = item.fields.findIdx? fun other => other = field := by
  unfold primaryEntry at h
  split at h
  next => simp at h
  next field hfield =>
    obtain rfl := List.mem_singleton.mp h
    refine ⟨hfield, fun other hother => ?_⟩
    obtain rfl : field = other := by simpa [entry] using hother
    rfl
  next name hname =>
    obtain rfl := List.mem_singleton.mp h
    exact ⟨hname, by simp [entry]⟩

theorem offers_of_mem_allActions {row : ActionEntry} (h : row ∈ allActions item) :
    item.Offers row.source := by
  rcases mem_allActions_cases h with hprimary | ⟨field, i, hget, -, hsource, -⟩ |
    ⟨name, hname, -, hsource, -⟩
  · exact offers_of_primaryAction (mem_primaryEntry hprimary).1
  · rw [hsource]
    exact List.mem_of_getElem? hget
  · rw [hsource]
    exact hname

theorem row_of_field {field : FieldRef} (h : field ∈ item.fields) :
    ∃ row ∈ allActions item, row.source = .field field := by
  unfold allActions
  by_cases hprimary : primaryAction item = some (.field field)
  · have hrow : entry (.field field) (some .copyPrimary)
        (item.fields.findIdx? fun other => other = field) ∈ primaryEntry item := by
      simp [primaryEntry, hprimary]
    exact ⟨_, List.mem_append_left _ (List.mem_append_left _ hrow), rfl⟩
  · obtain ⟨i, hget⟩ := List.getElem?_of_mem h
    obtain ⟨row, hrow⟩ : ∃ row, fieldEntry item field i = some row := by
      simp [fieldEntry, hprimary]
    refine ⟨row, List.mem_append_left _ (List.mem_append_right _ ?_), (fieldEntry_eq_some hrow).2.1⟩
    exact List.mem_filterMap.mpr ⟨(field, i), List.mk_mem_zipIdx_iff_getElem?.mpr hget, hrow⟩

theorem getElem?_of_mem_allActions {row : ActionEntry} {field : FieldRef} {index : Nat}
    (h : row ∈ allActions item) (hsource : row.source = .field field)
    (hindex : row.fieldIndex = some index) : item.fields[index]? = some field := by
  rcases mem_allActions_cases h with hprimary | ⟨other, i, hget, -, hother, hi⟩ |
    ⟨name, -, -, hname, -⟩
  · have hfind := (mem_primaryEntry hprimary).2 field hsource
    rw [hindex] at hfind
    obtain ⟨hlt, hfield, -⟩ := List.findIdx?_eq_some_iff_getElem.mp hfind.symm
    exact List.getElem?_eq_some_iff.mpr ⟨hlt, of_decide_eq_true hfield⟩
  · obtain rfl : other = field := by simpa [hsource] using hother.symm
    obtain rfl : i = index := by simpa [hindex] using hi.symm
    exact hget
  · simp [hsource] at hname

theorem fieldIndex_of_mem_allActions {row : ActionEntry} {field : FieldRef}
    (h : row ∈ allActions item) (hsource : row.source = .field field) :
    ∃ index, row.fieldIndex = some index := by
  have hoffered : field ∈ item.fields := by
    have hoffers := offers_of_mem_allActions h
    rwa [hsource] at hoffers
  rcases mem_allActions_cases h with hprimary | ⟨_, i, -, -, -, hindex⟩ | ⟨_, -, -, hname, -⟩
  · rw [(mem_primaryEntry hprimary).2 field hsource, ← Option.isSome_iff_exists,
      List.findIdx?_isSome, List.any_eq_true]
    exact ⟨field, hoffered, by simp⟩
  · exact ⟨i, hindex⟩
  · simp [hsource] at hname

/-- What tells the rows of one item apart: the position of a field, the name of a code. -/
def ActionEntry.slot (row : ActionEntry) : Option Nat ⊕ String :=
  match row.source with
  | .field _ => .inl row.fieldIndex
  | .totp name => .inr name

theorem fieldEntries_pairwise (item : ItemSummary) :
    (item.fields.zipIdx.filterMap fun (field, i) => fieldEntry item field i).Pairwise
      fun row row' => row.slot ≠ row'.slot := by
  have hpositions : item.fields.zipIdx.Pairwise fun a b => a.2 ≠ b.2 := by
    rw [← List.pairwise_map, List.zipIdx_map_snd]
    exact List.nodup_range'
  refine hpositions.filterMap _ ?_
  rintro ⟨field, i⟩ ⟨field', i'⟩ hne row hrow row' hrow'
  obtain ⟨-, hsource, hindex⟩ := fieldEntry_eq_some hrow
  obtain ⟨-, hsource', hindex'⟩ := fieldEntry_eq_some hrow'
  simpa [ActionEntry.slot, hsource, hsource', hindex, hindex'] using hne

theorem totpEntries_pairwise {item : ItemSummary} (h : item.totpFields.Nodup) :
    (item.totpFields.zipIdx.filterMap fun (field, i) => totpEntry item field i).Pairwise
      fun row row' => row.slot ≠ row'.slot := by
  have hnames : item.totpFields.zipIdx.Pairwise fun a b => a.1 ≠ b.1 := by
    rw [← List.pairwise_map, List.zipIdx_map_fst]
    exact h
  refine hnames.filterMap _ ?_
  rintro ⟨name, i⟩ ⟨name', i'⟩ hne row hrow row' hrow'
  obtain ⟨-, hsource, -⟩ := totpEntry_eq_some hrow
  obtain ⟨-, hsource', -⟩ := totpEntry_eq_some hrow'
  simpa [ActionEntry.slot, hsource, hsource'] using hne

theorem primaryEntry_pairwise (item : ItemSummary) :
    (primaryEntry item).Pairwise fun row row' => row.slot ≠ row'.slot := by
  unfold primaryEntry
  split <;> simp

theorem slot_ne_of_primary {row row' : ActionEntry} (hprimary : row ∈ primaryEntry item)
    (hrest : (∃ field i, item.fields[i]? = some field ∧ primaryAction item ≠ some (.field field) ∧
        row'.source = .field field ∧ row'.fieldIndex = some i) ∨
      ∃ name ∈ item.totpFields, primaryAction item ≠ some (.totp name) ∧
        row'.source = .totp name ∧ row'.fieldIndex = none) : row.slot ≠ row'.slot := by
  obtain ⟨haction, hposition⟩ := mem_primaryEntry hprimary
  rcases hrest with ⟨field, i, hget, hne, hsource', hindex'⟩ | ⟨name, -, hne, hsource', -⟩
  · cases hsource : row.source with
    | totp name => simp [ActionEntry.slot, hsource, hsource']
    | field f =>
        simp only [ActionEntry.slot, hsource, hsource', hindex']
        intro heq
        have hfind := (hposition f hsource).symm.trans (Sum.inl.inj heq)
        obtain ⟨hlt, hfield, -⟩ := List.findIdx?_eq_some_iff_getElem.mp hfind
        have hf : item.fields[i]? = some f :=
          List.getElem?_eq_some_iff.mpr ⟨hlt, of_decide_eq_true hfield⟩
        obtain rfl := Option.some.inj (hget.symm.trans hf)
        exact hne (hsource ▸ haction)
  · cases hsource : row.source with
    | field f => simp [ActionEntry.slot, hsource, hsource']
    | totp other =>
        simp only [ActionEntry.slot, hsource, hsource']
        intro heq
        obtain rfl := Sum.inr.inj heq
        exact hne (hsource ▸ haction)

/-- **No two rows of the list stand for the same thing.** -/
theorem allActions_pairwise (h : item.totpFields.Nodup) :
    (allActions item).Pairwise fun row row' => row.slot ≠ row'.slot := by
  unfold allActions
  rw [List.append_assoc, List.pairwise_append]
  refine ⟨primaryEntry_pairwise item, ?_, ?_⟩
  · rw [List.pairwise_append]
    refine ⟨fieldEntries_pairwise item, totpEntries_pairwise h, ?_⟩
    intro row hrow row' hrow'
    obtain ⟨⟨_, _⟩, -, hentry⟩ := List.mem_filterMap.mp hrow
    obtain ⟨⟨_, _⟩, -, hentry'⟩ := List.mem_filterMap.mp hrow'
    simp [ActionEntry.slot, (fieldEntry_eq_some hentry).2.1, (totpEntry_eq_some hentry').2.1]
  · intro row hrow row' hrow'
    refine slot_ne_of_primary hrow ?_
    rcases List.mem_append.mp hrow' with hfield | htotp
    · obtain ⟨⟨field, i⟩, hmem, hentry⟩ := List.mem_filterMap.mp hfield
      exact Or.inl ⟨field, i, List.mk_mem_zipIdx_iff_getElem?.mp hmem, fieldEntry_eq_some hentry⟩
    · obtain ⟨⟨name, i⟩, hmem, hentry⟩ := List.mem_filterMap.mp htotp
      exact Or.inr ⟨name, List.fst_mem_of_mem_zipIdx hmem, totpEntry_eq_some hentry⟩

end Actions

namespace Model

variable (m : Model) {item : ItemSummary} {key : ItemKey}

theorem item_eq_some (h : m.item key = some item) : item ∈ m.data.items ∧ item.key = key :=
  ⟨List.mem_of_find?_eq_some h, by simpa using List.find?_some h⟩

theorem mem_of_selectedItem (h : m.selectedItem = some item) : item ∈ m.data.items := by
  obtain ⟨_, -, hget⟩ := Option.bind_eq_some_iff.mp h
  exact List.mem_of_getElem? hget

theorem mem_of_targetItem (h : m.targetItem = some item) : item ∈ m.data.items := by
  unfold targetItem at h
  split at h
  next => exact (m.item_eq_some h).1
  next => exact m.mem_of_selectedItem h
  next => exact m.mem_of_selectedItem h

theorem mem_actions {row : ActionEntry} (h : row ∈ m.actions) :
    ∃ item, m.targetItem = some item ∧ row ∈ allActions item := by
  unfold actions at h
  split at h
  next item hitem => exact ⟨item, hitem, h⟩
  next => simp at h

end Model

end CosmicPass
