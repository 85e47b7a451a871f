import CosmicPass.Proof.Rows

/-!
# The rows of the field list, one by one

The list is the primary action followed by the item's fields and one-time codes, in their order, with
the primary one left out. Names tell the fields of an item apart, so leaving out what equals the primary
action leaves out exactly one, and a shortcut bound by position is bound to what its accessor returns.
-/

namespace CosmicPass

/-- Everything of an item that can be copied. -/
def ItemSummary.sources (item : ItemSummary) : List CopySource :=
  item.fields.map .field ++ item.totpFields.map .totp

/-- What the shortcut of an action copies. -/
def accessor (item : ItemSummary) : Action → Option CopySource
  | .copyPrimary => primaryAction item
  | .copyUsername => usernameAction item
  | .copyUrl => urlAction item
  | .copyTotp => totpAction item
  | _ => none

/-- No two of an item's fields share a name, and no two of its one-time codes do. -/
structure ItemSummary.Named (item : ItemSummary) : Prop where
  fields : (item.fields.map (·.name)).Nodup
  totps : item.totpFields.Nodup

section Rows

variable {item : ItemSummary}

theorem nodup_sources (h : item.Named) : item.sources.Nodup := by
  refine List.nodup_append.mpr ⟨h.fields.of_map.map ?_, h.totps.map ?_, ?_⟩
  · intro left right heq
    simpa using heq
  · intro left right heq
    simpa using heq
  · intro left hleft right hright
    obtain ⟨field, -, rfl⟩ := List.mem_map.mp hleft
    obtain ⟨name, -, rfl⟩ := List.mem_map.mp hright
    simp

theorem mem_sources {source : CopySource} : source ∈ item.sources ↔ item.Offers source := by
  cases source <;> simp [ItemSummary.sources, ItemSummary.Offers]

/-! ### The sources of the rows -/

theorem map_filterMap_zipIdx {α : Type} {make : α → Nat → Option ActionEntry} {wrap : α → CopySource}
    (hmake : ∀ a i, (make a i).map (·.source) =
      if primaryAction item = some (wrap a) then none else some (wrap a)) (l : List α) :
    (l.zipIdx.filterMap fun (a, i) => make a i).map (·.source) =
      (l.map wrap).filter fun source => primaryAction item ≠ some source := by
  have hsources : (fun entry : α × Nat => (make entry.1 entry.2).map (·.source)) =
      (fun a => if primaryAction item = some (wrap a) then none else some (wrap a)) ∘ Prod.fst :=
    funext fun entry => hmake entry.1 entry.2
  rw [List.map_filterMap, hsources, ← List.filterMap_map, List.zipIdx_map_fst]
  induction l with
  | nil => rfl
  | cons a rest ih =>
      by_cases hprimary : primaryAction item = some (wrap a)
      · rw [List.filterMap_cons, if_pos hprimary, List.map_cons,
          List.filter_cons_of_neg (by simpa using hprimary)]
        exact ih
      · rw [List.filterMap_cons, if_neg hprimary, List.map_cons,
          List.filter_cons_of_pos (by simpa using hprimary), ← ih]

theorem map_source_primaryEntry :
    (primaryEntry item).map (·.source) = (primaryAction item).toList := by
  unfold primaryEntry
  split
  next hnone => simp [hnone]
  next field hfield => simp [hfield, entry]
  next name hname => simp [hname, entry]

/-- **The rows stand for the primary action, then for the others in their order.** -/
theorem map_source_allActions (item : ItemSummary) :
    (allActions item).map (·.source) =
      (primaryAction item).toList ++
        item.sources.filter fun source => primaryAction item ≠ some source := by
  have hfields : ∀ (field : FieldRef) (i : Nat), (fieldEntry item field i).map (·.source) =
      if primaryAction item = some (.field field) then none else some (.field field) := by
    intro field i
    unfold fieldEntry
    split <;> rfl
  have htotps : ∀ (name : String) (i : Nat), (totpEntry item name i).map (·.source) =
      if primaryAction item = some (.totp name) then none else some (.totp name) := by
    intro name i
    unfold totpEntry
    split <;> rfl
  rw [allActions, List.map_append, List.map_append, map_source_primaryEntry,
    map_filterMap_zipIdx hfields, map_filterMap_zipIdx htotps, List.append_assoc,
    ← List.filter_append, ItemSummary.sources]

theorem sources_of_no_primary (h : primaryAction item = none) : item.sources = [] := by
  unfold primaryAction at h
  dsimp only at h
  split at h
  next => simp at h
  next hnone =>
    obtain ⟨-, hnone⟩ := Option.or_eq_none_iff.mp hnone
    obtain ⟨-, hnone⟩ := Option.or_eq_none_iff.mp hnone
    have hfields := List.head?_eq_none_iff.mp hnone
    have htotps := List.head?_eq_none_iff.mp (Option.map_eq_none_iff.mp h)
    rw [ItemSummary.sources, hfields, htotps]
    rfl

/-- **Every field and every one-time code has one row**, and there are no others. -/
theorem map_source_perm (h : item.Named) :
    ((allActions item).map (·.source)).Perm item.sources := by
  rw [map_source_allActions]
  cases hprimary : primaryAction item with
  | none => simp [sources_of_no_primary hprimary]
  | some source =>
      have hmem : source ∈ item.sources := mem_sources.mpr (offers_of_primaryAction hprimary)
      have hrest : (item.sources.filter fun other => some source ≠ some other) =
          item.sources.erase source := by
        rw [(nodup_sources h).erase_eq_filter]
        refine List.filter_congr fun other _ => ?_
        rw [Bool.eq_iff_iff, decide_eq_true_iff, bne_iff_ne, ne_eq, Option.some.injEq]
        exact ne_comm
      rw [hrest]
      exact (List.perm_cons_erase hmem).symm

theorem head?_allActions (item : ItemSummary) :
    (allActions item).head?.map (fun row => (row.source, row.shortcut)) =
      (primaryAction item).map fun source => (source, some .copyPrimary) := by
  cases hprimary : primaryAction item with
  | none =>
      have hnone := map_source_allActions item
      rw [hprimary, sources_of_no_primary hprimary] at hnone
      rw [List.map_eq_nil_iff.mp hnone]
      rfl
  | some source => cases source <;> simp [allActions, primaryEntry, hprimary, entry]

/-! ### The position of a row -/

/-- The position a row carries is that of its own field and of no other. -/
theorem fieldIndex_eq (h : item.Named) {row : ActionEntry} (hrow : row ∈ allActions item)
    {field : FieldRef} (hsource : row.source = .field field) :
    ∃ i, row.fieldIndex = some i ∧ ∀ j, item.fields[j]? = some field ↔ j = i := by
  obtain ⟨i, hindex⟩ := fieldIndex_of_mem_allActions hrow hsource
  have hget := getElem?_of_mem_allActions hrow hsource hindex
  refine ⟨i, hindex, fun j => ⟨fun hother => ?_, fun heq => heq ▸ hget⟩⟩
  obtain ⟨hlt, heq⟩ := List.getElem?_eq_some_iff.mp hget
  obtain ⟨hlt', heq'⟩ := List.getElem?_eq_some_iff.mp hother
  exact (h.fields.of_map.getElem_inj_iff).mp (heq'.trans heq.symm)

theorem fieldIndex_of_totp {row : ActionEntry} (hrow : row ∈ allActions item) {name : String}
    (hsource : row.source = .totp name) : row.fieldIndex = none := by
  rcases mem_allActions_cases hrow with hprimary | ⟨_, _, -, -, hfield, -⟩ | ⟨_, -, -, -, hindex⟩
  · unfold primaryEntry at hprimary
    split at hprimary
    next => simp at hprimary
    next field _ =>
      obtain rfl := List.mem_singleton.mp hprimary
      simp [entry] at hsource
    next => rw [List.mem_singleton.mp hprimary, entry]
  · simp [hsource] at hfield
  · exact hindex

/-! ### The shortcut of a row -/

theorem indexOf_eq_some {name : String} {i : Nat} (h : indexOf item name = some i) :
    ∃ field, item.fields[i]? = some field ∧ field.name = name := by
  obtain ⟨hlt, hname, -⟩ := List.findIdx?_eq_some_iff_getElem.mp h
  exact ⟨_, List.getElem?_eq_getElem hlt, of_decide_eq_true hname⟩

theorem accessor_of_fieldEntry {field : FieldRef} {i : Nat} (hget : item.fields[i]? = some field)
    {row : ActionEntry} (h : fieldEntry item field i = some row) {a : Action}
    (hshortcut : row.shortcut = some a) : accessor item a = some row.source := by
  unfold fieldEntry at h
  split at h
  next => simp at h
  next =>
    obtain rfl := Option.some.inj h
    simp only [entry] at hshortcut ⊢
    split at hshortcut
    next husername =>
      obtain rfl := Option.some.inj hshortcut
      simp [accessor, usernameAction, usernameField, ← husername, hget]
    next =>
      split at hshortcut
      next hurl =>
        obtain rfl := Option.some.inj hshortcut
        simp [accessor, urlAction, ← hurl, hget]
      next => simp at hshortcut

theorem accessor_of_totpEntry {name : String} {i : Nat} (hget : item.totpFields[i]? = some name)
    {row : ActionEntry} (h : totpEntry item name i = some row) {a : Action}
    (hshortcut : row.shortcut = some a) : accessor item a = some row.source := by
  unfold totpEntry at h
  split at h
  next => simp at h
  next =>
    obtain rfl := Option.some.inj h
    simp only [entry] at hshortcut ⊢
    split at hshortcut
    next hfirst =>
      obtain rfl := Option.some.inj hshortcut
      subst hfirst
      simp [accessor, totpAction, List.head?_eq_getElem?, hget]
    next => simp at hshortcut

/-- **A row with a shortcut stands for what the shortcut copies.** -/
theorem accessor_of_shortcut {row : ActionEntry} (hrow : row ∈ allActions item) {a : Action}
    (hshortcut : row.shortcut = some a) : accessor item a = some row.source := by
  unfold allActions at hrow
  rw [List.mem_append, List.mem_append] at hrow
  rcases hrow with (hprimary | hfield) | htotp
  · have haction := (mem_primaryEntry hprimary).1
    have hfirst : row.shortcut = some .copyPrimary := by
      unfold primaryEntry at hprimary
      split at hprimary
      next => simp at hprimary
      all_goals rw [List.mem_singleton.mp hprimary, entry]
    obtain rfl := Option.some.inj (hfirst.symm.trans hshortcut)
    exact haction
  · obtain ⟨⟨field, i⟩, hmem, hentry⟩ := List.mem_filterMap.mp hfield
    exact accessor_of_fieldEntry (List.mk_mem_zipIdx_iff_getElem?.mp hmem) hentry hshortcut
  · obtain ⟨⟨name, i⟩, hmem, hentry⟩ := List.mem_filterMap.mp htotp
    exact accessor_of_totpEntry (List.mk_mem_zipIdx_iff_getElem?.mp hmem) hentry hshortcut

/-- Two rows never share a shortcut, since they would stand for the same thing. -/
theorem pairwise_shortcut (h : item.Named) :
    (allActions item).Pairwise fun row row' => row.shortcut = none ∨ row.shortcut ≠ row'.shortcut := by
  have hsources : (allActions item).Pairwise fun row row' => row.source ≠ row'.source :=
    List.pairwise_map.mp ((map_source_perm h).nodup_iff.mpr (nodup_sources h))
  refine hsources.imp_of_mem fun {row row'} hrow hrow' hne => ?_
  cases hshortcut : row.shortcut with
  | none => exact .inl rfl
  | some a =>
      refine .inr fun hsame => hne (Option.some.inj ?_)
      exact (accessor_of_shortcut hrow hshortcut).symm.trans (accessor_of_shortcut hrow' hsame.symm)

theorem row_of_fieldEntry {field : FieldRef} {i : Nat} {row : ActionEntry}
    (hget : item.fields[i]? = some field) (h : fieldEntry item field i = some row) :
    row ∈ allActions item := by
  refine List.mem_append_left _ (List.mem_append_right _ ?_)
  exact List.mem_filterMap.mpr ⟨(field, i), List.mk_mem_zipIdx_iff_getElem?.mpr hget, h⟩

theorem row_of_username {source : CopySource} (h : usernameAction item = some source)
    (hother : primaryAction item ≠ some source) :
    ∃ row ∈ allActions item, row.shortcut = some .copyUsername := by
  obtain ⟨field, hfield, rfl⟩ := Option.map_eq_some_iff.mp h
  obtain ⟨i, hindex, hget⟩ := Option.bind_eq_some_iff.mp hfield
  refine ⟨_, row_of_fieldEntry hget (if_neg hother), ?_⟩
  simp [entry, hindex]

theorem row_of_url {source : CopySource} (h : urlAction item = some source)
    (hother : primaryAction item ≠ some source) :
    ∃ row ∈ allActions item, row.shortcut = some .copyUrl := by
  obtain ⟨i, hindex, hmap⟩ := Option.bind_eq_some_iff.mp h
  obtain ⟨field, hget, rfl⟩ := Option.map_eq_some_iff.mp hmap
  obtain ⟨own, hown, hurl⟩ := indexOf_eq_some hindex
  have husername : some i ≠ usernameIndex item := by
    intro heq
    rcases Option.or_eq_some_iff.mp heq.symm with husername | ⟨-, hemail⟩
    · obtain ⟨other, hother, hname⟩ := indexOf_eq_some husername
      obtain rfl := Option.some.inj (hown.symm.trans hother)
      simp [hname] at hurl
    · obtain ⟨other, hother, hname⟩ := indexOf_eq_some hemail
      obtain rfl := Option.some.inj (hown.symm.trans hother)
      simp [hname] at hurl
  refine ⟨_, row_of_fieldEntry hget (if_neg hother), ?_⟩
  simp [entry, husername, hindex]

theorem row_of_totp {source : CopySource} (h : totpAction item = some source)
    (hother : primaryAction item ≠ some source) :
    ∃ row ∈ allActions item, row.shortcut = some .copyTotp := by
  obtain ⟨name, hname, rfl⟩ := Option.map_eq_some_iff.mp h
  rw [List.head?_eq_getElem?] at hname
  have hentry : totpEntry item name 0 = some (entry (.totp name) (some .copyTotp) none) :=
    if_neg hother
  refine ⟨_, List.mem_append_right _ (List.mem_filterMap.mpr ⟨(name, 0), ?_, hentry⟩), rfl⟩
  exact List.mk_mem_zipIdx_iff_getElem?.mpr hname

/-- What a shortcut copies has a row of its own, which carries it unless it is the primary one. -/
theorem row_of_accessor {a : Action} {source : CopySource} (h : accessor item a = some source)
    (hother : primaryAction item ≠ some source) :
    ∃ row ∈ allActions item, row.shortcut = some a := by
  cases a with
  | copyPrimary => exact absurd h hother
  | copyUsername => exact row_of_username h hother
  | copyUrl => exact row_of_url h hother
  | copyTotp => exact row_of_totp h hother
  | openActions | reveal | refresh | preferences | signIn | retry => simp [accessor] at h

/-- **The list holds every field and code of an item once**, each where and as it is bound. -/
theorem all_actions_bound (h : item.Named) :
    ((allActions item).map (·.source)).Perm item.sources ∧
      item.sources.Nodup ∧
      (allActions item).head?.map (fun row => (row.source, row.shortcut)) =
        (primaryAction item).map (fun source => (source, some .copyPrimary)) ∧
      (allActions item).map (·.source) = (primaryAction item).toList ++
        item.sources.filter (fun source => primaryAction item ≠ some source) ∧
      (∀ row ∈ allActions item, ∀ field, row.source = .field field →
        ∃ i, row.fieldIndex = some i ∧ ∀ j, item.fields[j]? = some field ↔ j = i) ∧
      (∀ row ∈ allActions item, ∀ name, row.source = .totp name → row.fieldIndex = none) ∧
      (allActions item).Pairwise
        (fun row row' => row.shortcut = none ∨ row.shortcut ≠ row'.shortcut) ∧
      (∀ row ∈ allActions item, ∀ a, row.shortcut = some a → accessor item a = some row.source) ∧
      ∀ a source, accessor item a = some source → primaryAction item ≠ some source →
        ∃ row ∈ allActions item, row.shortcut = some a :=
  ⟨map_source_perm h, nodup_sources h, head?_allActions item, map_source_allActions item,
    fun _ hrow _ => fieldIndex_eq h hrow, fun _ hrow _ => fieldIndex_of_totp hrow,
    pairwise_shortcut h, fun _ hrow _ => accessor_of_shortcut hrow, fun _ _ => row_of_accessor⟩

end Rows

section Examples

/-- A login whose password is the primary row. -/
def webLogin : ItemSummary :=
  { key := ⟨⟨"personal"⟩, ⟨"web"⟩⟩
    vaultName := "Personal"
    title := "Web"
    kind := .login
    username := some "me"
    email := none
    subtitle := some "me"
    urls := ["https://web.example"]
    fields :=
      [{ name := "username", label := "Username", secret := false, value := some "me" },
        { name := "password", label := "Password", secret := true, value := none },
        { name := "url", label := "Website", secret := false, value := some "https://web.example" }]
    totpFields := ["totp_uri"]
    modifiedAt := 0 }

theorem all_actions_bound_web :
    webLogin.Named ∧ ∃ row ∈ allActions webLogin, row.shortcut = some .copyUrl := by
  have hnamed : webLogin.Named := ⟨by decide, by decide⟩
  obtain ⟨-, -, -, -, -, -, -, -, hrows⟩ := all_actions_bound hnamed
  exact ⟨hnamed, hrows .copyUrl _ rfl (by decide)⟩

end Examples

end CosmicPass
