import CosmicPass.Proof.CopySlot

/-!
# The window and the copies it closes after

A copy closes the window once the clipboard confirms it. Confirmations carry no name: `copying` is one
flag for all of them, raised by each copy and lowered only when the window hides. `update_windowMove`
says what one message does to the flag and the window; from it, the flag is about the copies of the
present showing exactly as long as no failure leaves it raised and no late confirmation meets it.
-/

namespace CosmicPass

namespace Effect

def isCopy : Effect → Bool
  | .copy _ _ => true
  | _ => false

/-- Asks for a copy, or to show or hide the window. -/
def concernsWindow : Effect → Bool
  | .copy _ _ | .showWindow | .hideWindow => true
  | _ => false

theorem isCopy_iff {effect : Effect} :
    effect.isCopy ↔ ∃ value secret, effect = .copy value secret := by
  cases effect <;> simp [isCopy]

end Effect

theorem execute_of_isCopy {effect : Effect} {reply : Reply} {msg : Msg} (hcopy : effect.isCopy)
    (h : execute effect reply = some msg) : ∃ result, msg = .copyFinished result := by
  obtain ⟨value, secret, rfl⟩ := Effect.isCopy_iff.mp hcopy
  cases reply <;> simp only [execute, reduceCtorEq, Option.some.injEq] at h
  exact ⟨_, h.symm⟩

namespace Model

section Moves

variable [TextSupport]

/-- What one message does to the window and to the flag. -/
inductive WindowMove (m : Model) (msg : Msg) (r : Model × List Effect) : Prop
  | keep (hvisible : r.1.view.visible = m.view.visible) (hcopying : r.1.view.copying = m.view.copying)
      (heffects : ∀ effect ∈ r.2, effect.concernsWindow = false)
      (hmsg : ∀ done, msg = .copyFinished (.ok done) → m.view.copying = false)
  | «show» (hbefore : m.view.visible = false) (hmsg : msg = .show ∨ msg = .toggle)
      (hafter : r.1.view.visible = true) (hcopying : r.1.view.copying = m.view.copying)
      (hshows : .showWindow ∈ r.2) (heffects : ∀ effect ∈ r.2, effect = .showWindow ∨ effect = .refresh)
  | hide (h : r = m.hide)
  | copy (value : SecretString) (secret : Bool) (hvisible : r.1.view.visible = m.view.visible)
      (hcopying : r.1.view.copying = true) (heffects : r.2 = [.copy value secret, .persist])
      (hmsg : ∀ result, msg ≠ .copyFinished result)

variable (m : Model)

theorem WindowMove.quiet {m : Model} {msg : Msg} {r : Model × List Effect}
    (hvisible : r.1.view.visible = m.view.visible) (hcopying : r.1.view.copying = m.view.copying)
    (heffects : ∀ effect ∈ r.2, effect.concernsWindow = false)
    (hmsg : ∀ result, msg ≠ .copyFinished result) : WindowMove m msg r :=
  .keep hvisible hcopying heffects fun _ h => absurd h (hmsg _)

theorem WindowMove.untouched {m : Model} {msg : Msg} {r : Model × List Effect}
    (hcopy : Untouched .copy m r) (hwindow : Untouched .window m r)
    (hmsg : ∀ result, msg ≠ .copyFinished result) : WindowMove m msg r := by
  refine .quiet hwindow.same.1 hcopy.same.2 (fun effect hmem => ?_) hmsg
  have hcopyPart := hcopy.effects effect hmem
  have hwindowPart := hwindow.effects effect hmem
  cases effect <;> simp_all [Effect.part, Effect.concernsWindow]

theorem show_windowMove {msg : Msg} (hmsg : msg = .show ∨ msg = .toggle) (now : Int) :
    WindowMove m msg (m.show now) := by
  have hother : ∀ result, msg ≠ .copyFinished result := by
    rintro result rfl
    simp at hmsg
  cases hvisible : m.view.visible with
  | true =>
      exact .quiet (by rw [show_fst, hvisible]) (by rw [show_fst]) (by simp [show_snd, hvisible])
        hother
  | false =>
      refine .show hvisible hmsg (by rw [show_fst]) (by rw [show_fst]) ?_ ?_
      · simp [show_snd, hvisible]
      · intro effect hmem
        rw [show_snd, hvisible] at hmem
        rcases List.mem_cons.mp hmem with rfl | hrest
        · exact Or.inl rfl
        · right
          split at hrest <;> simp_all

theorem startCopy_windowMove {msg : Msg} (hmsg : ∀ result, msg ≠ .copyFinished result)
    (key : ItemKey) (source : CopySource) : WindowMove m msg (m.startCopy key source) := by
  refine .quiet rfl rfl (fun effect hmem => ?_) hmsg
  rw [(m.startCopy_spec key source).1, List.mem_singleton] at hmem
  subst hmem
  cases source <;> rfl

theorem copyWith_windowMove {msg : Msg} (hmsg : ∀ result, msg ≠ .copyFinished result)
    (pick : ItemSummary → Option CopySource) (missing : String) :
    WindowMove m msg (m.copyWith pick missing) := by
  unfold copyWith
  split
  next => exact .quiet rfl rfl (by simp) hmsg
  next item _ =>
    split
    next source _ => exact m.startCopy_windowMove hmsg item.key source
    next => exact .quiet rfl rfl (by simp [notify, Effect.concernsWindow]) hmsg

theorem copyFetched_windowMove (key : ItemKey) (result : Except PassError SecretString) (now : Int) :
    WindowMove m (.copyFetched key result) (m.copyFetched key result now) := by
  unfold copyFetched
  split
  next => exact .quiet rfl rfl (by simp) (by simp)
  next fetch _ =>
    split
    next =>
      have hsettled : ∀ {part : Part}, part ≠ .copy →
          part.Same m { m with view := { m.view with pending := none } } := by
        intro part hpart
        cases part <;> simp [Part.Same] at hpart ⊢
      cases result with
      | ok value => exact .copy value fetch.secret rfl rfl rfl (by simp)
      | error error =>
          have huntouched : ∀ part ∉ [Part.reveal, .session, .data],
              Untouched part { m with view := { m.view with pending := none } }
                (copySettled { m with view := { m.view with pending := none } } key fetch.secret
                  (.error error) now) :=
            fun part hpart => copySettled_error_untouched _ hpart key fetch.secret error now
          have hcopy := huntouched .copy (by simp)
          have hwindow := huntouched .window (by simp)
          refine .quiet hwindow.same.1 hcopy.same.2 (fun effect hmem => ?_) (by simp)
          have hcopyPart := hcopy.effects effect hmem
          have hwindowPart := hwindow.effects effect hmem
          cases effect <;> simp_all [Effect.part, Effect.concernsWindow]
    next => exact .quiet rfl rfl (by simp) (by simp)

/-- **What a message does to the window and the flag.** -/
theorem update_windowMove (msg : Msg) (now : Int) : WindowMove m msg (m.update msg now) := by
  by_cases htouches : Part.copy ∈ msg.touches ∨ Part.window ∈ msg.touches
  · cases msg with
    | toggle =>
        rw [update]
        split
        · exact .hide rfl
        · exact m.show_windowMove (Or.inr rfl) now
    | «show» => exact m.show_windowMove (Or.inl rfl) now
    | hide => exact .hide rfl
    | queryChanged query => exact .quiet rfl rfl (by simp [update]) (by simp)
    | copyPrimary | copyUsername | copyTotp | copyUrl => exact m.copyWith_windowMove (by simp) _ _
    | activateAction index =>
        simp only [update, activateAction]
        split
        next =>
          split
          · exact m.startCopy_windowMove (by simp) _ _
          · exact .quiet rfl rfl (by simp) (by simp)
        next => exact .quiet rfl rfl (by simp) (by simp)
    | copyFetched key result => exact m.copyFetched_windowMove key result now
    | copyFinished result =>
        simp only [update, copyFinished, copyConfirmed]
        split
        next =>
          split
          · exact .hide rfl
          next hlow => exact .keep rfl rfl (by simp) fun _ _ => by simpa using hlow
        next => exact .keep rfl rfl (by simp [notify, Effect.concernsWindow]) (by simp)
    | escape =>
        simp only [update, escape]
        split
        · exact .quiet rfl rfl (by simp) (by simp)
        · split
          · exact .quiet rfl rfl (by simp) (by simp)
          · exact .hide rfl
          · exact .quiet rfl rfl (by simp) (by simp)
    | _ => simp [Msg.touches] at htouches
  · rw [not_or] at htouches
    refine .untouched (m.update_untouched msg now htouches.1) (m.update_untouched msg now htouches.2) ?_
    rintro result rfl
    simp [Msg.touches] at htouches

end Moves

end Model

namespace World

/-- Asked for since the window was last shown. -/
def sinceShown (w : World) (id : Nat) : Bool :=
  (w.flights.drop (id + 1)).all fun flight => flight.effect ≠ .showWindow

/-- Asked for before the window was last hidden. -/
def beforeHide (w : World) (id : Nat) : Bool :=
  (w.flights.drop (id + 1)).any fun flight => flight.effect = .hideWindow

/-- A copy the clipboard has not answered. -/
def openCopy (w : World) (id : Nat) : Bool :=
  (w.flights[id]?.any fun flight => flight.effect.isCopy) ∧ ∀ done ∈ w.answered, done.1 ≠ id

/-- A copy of the present showing, not answered yet. -/
def ownCopy (w : World) (id : Nat) : Bool :=
  w.openCopy id ∧ w.sinceShown id ∧ w.beforeHide id = false

/-- Not every copy of the present showing is answered. -/
def copiesOwn (w : World) : Bool := ∃ id < w.flights.length, w.ownCopy id

/-- A copy of the present showing fails only while another one is unanswered, and none is when a copy
of an earlier one is confirmed, or when the window is shown. -/
def ownConfirmations (w : World) : Event → Bool
  | .send .show _ | .send .toggle _ => w.model.view.visible ∨ w.copiesOwn = false
  | .deliver id _ =>
      match w.resolved.find? fun done => done.1 = id with
      | some (_, .copyFinished (.error _)) =>
          w.ownCopy id → ∃ other < w.flights.length, other ≠ id ∧ w.ownCopy other
      | some (_, .copyFinished (.ok _)) => w.beforeHide id → w.copiesOwn = false
      | _ => true
  | _ => true

variable {w : World} {id : Nat}

theorem openCopy_iff : w.openCopy id ↔ ∃ effect, effect.isCopy ∧ w.Unanswered id effect := by
  simp only [openCopy, decide_eq_true_eq, Option.any_eq_true]
  constructor
  · rintro ⟨⟨flight, hflight, hcopy⟩, hopen⟩
    exact ⟨_, hcopy, ⟨flight, hflight, rfl⟩, fun msg hmem => hopen _ hmem rfl⟩
  · rintro ⟨effect, hcopy, ⟨flight, hflight, rfl⟩, hopen⟩
    exact ⟨⟨flight, hflight, hcopy⟩, fun done hmem hid => hopen done.2 (hid ▸ hmem)⟩

theorem ownCopy_iff : w.ownCopy id ↔ w.openCopy id ∧ w.sinceShown id ∧ w.beforeHide id = false := by
  simp [ownCopy]

theorem openCopy_lt (h : w.openCopy id) : id < w.flights.length := by
  obtain ⟨_, -, hopen⟩ := openCopy_iff.mp h
  exact hopen.lt

theorem copiesOwn_iff : w.copiesOwn ↔ ∃ id, w.ownCopy id := by
  rw [copiesOwn, decide_eq_true_eq]
  constructor
  · rintro ⟨id, -, hid⟩
    exact ⟨id, hid⟩
  · rintro ⟨id, hid⟩
    exact ⟨id, openCopy_lt (ownCopy_iff.mp hid).1, hid⟩

/-- The flag is about the copies of the present showing, and nothing of an earlier one is recent. -/
structure OwnCopying (w : World) : Prop where
  shown : w.model.view.visible → ∀ id, w.openCopy id → w.beforeHide id → w.sinceShown id = false
  copying : w.model.view.copying ↔ ∃ id, w.ownCopy id

theorem OwnCopying.copying_eq (hown : w.OwnCopying) : w.model.view.copying = w.copiesOwn := by
  rw [Bool.eq_iff_iff, hown.copying, copiesOwn_iff]

section Runs

variable [TextSupport] {w' : World} {source : Option Nat} {msg : Msg} {now : Int}

theorem Handled.openCopy_iff (h : Handled w source msg now w') (hconsistent : w.Consistent) :
    w'.openCopy id ↔ source ≠ some id ∧ w.openCopy id ∨ w.flights.length ≤ id ∧
      ∃ effect, effect.isCopy ∧ (w.model.update msg now).2[id - w.flights.length]? = some effect := by
  simp only [World.openCopy_iff, h.unanswered_iff hconsistent]
  constructor
  · rintro ⟨effect, hcopy, ⟨hsource, hopen⟩ | ⟨hge, hnew⟩⟩
    · exact Or.inl ⟨hsource, effect, hcopy, hopen⟩
    · exact Or.inr ⟨hge, effect, hcopy, hnew⟩
  · rintro (⟨hsource, effect, hcopy, hopen⟩ | ⟨hge, effect, hcopy, hnew⟩)
    · exact ⟨effect, hcopy, Or.inl ⟨hsource, hopen⟩⟩
    · exact ⟨effect, hcopy, Or.inr ⟨hge, hnew⟩⟩

theorem Handled.openCopy_of_no_copy (h : Handled w source msg now w') (hconsistent : w.Consistent)
    (hnone : ∀ effect ∈ (w.model.update msg now).2, effect.isCopy = false) :
    w'.openCopy id ↔ source ≠ some id ∧ w.openCopy id := by
  rw [h.openCopy_iff hconsistent, or_iff_left]
  rintro ⟨-, effect, hcopy, hnew⟩
  simp [hnone effect (List.mem_of_getElem? hnew)] at hcopy

theorem Handled.sinceShown_iff (h : Handled w source msg now w') (hid : id < w.flights.length) :
    w'.sinceShown id ↔ w.sinceShown id ∧ .showWindow ∉ (w.model.update msg now).2 := by
  rw [sinceShown, h.flights, List.drop_append_of_le_length hid, List.all_append, Bool.and_eq_true]
  refine and_congr_right fun _ => ?_
  simp only [List.all_map, List.all_eq_true, Function.comp_apply, decide_eq_true_eq]
  exact ⟨fun hall hmem => hall _ hmem rfl, fun hnone effect hmem heq => hnone (heq ▸ hmem)⟩

theorem Handled.beforeHide_iff (h : Handled w source msg now w') (hid : id < w.flights.length) :
    w'.beforeHide id ↔ w.beforeHide id ∨ .hideWindow ∈ (w.model.update msg now).2 := by
  rw [beforeHide, h.flights, List.drop_append_of_le_length hid]
  simp [beforeHide]

/-- Where no copy is asked for, and the window is neither shown nor hidden, the copies that are open
stay what they were. -/
theorem Handled.ownCopy_of_quiet (h : Handled w source msg now w') (hconsistent : w.Consistent)
    (hquiet : ∀ effect ∈ (w.model.update msg now).2, effect.concernsWindow = false) :
    w'.ownCopy id ↔ source ≠ some id ∧ w.ownCopy id := by
  have hnone : ∀ effect ∈ (w.model.update msg now).2, effect.isCopy = false := by
    intro effect hmem
    have := hquiet effect hmem
    cases effect <;> simp_all [Effect.concernsWindow, Effect.isCopy]
  have hshow : .showWindow ∉ (w.model.update msg now).2 := fun hmem => by
    simpa [Effect.concernsWindow] using hquiet _ hmem
  have hhide : .hideWindow ∉ (w.model.update msg now).2 := fun hmem => by
    simpa [Effect.concernsWindow] using hquiet _ hmem
  rw [ownCopy_iff, ownCopy_iff, h.openCopy_of_no_copy hconsistent hnone, and_assoc]
  refine and_congr_right fun _ => and_congr_right fun hopen => ?_
  have hid := openCopy_lt hopen
  rw [h.sinceShown_iff hid, ← Bool.not_eq_true, h.beforeHide_iff hid]
  simp [hshow, hhide]

omit [TextSupport] in
theorem ownConfirmations_deliver (hconsistent : w.Consistent) (hmsg : (id, msg) ∈ w.resolved)
    (hguard : ownConfirmations w (.deliver id now)) :
    (∀ text, msg = .copyFinished (.error text) → w.ownCopy id → ∃ other, other ≠ id ∧ w.ownCopy other) ∧
      ∀ done, msg = .copyFinished (.ok done) → w.beforeHide id → w.copiesOwn = false := by
  simp only [ownConfirmations, hconsistent.find?_resolved hmsg] at hguard
  refine ⟨?_, ?_⟩
  · rintro text rfl hown
    obtain ⟨other, -, hother⟩ := of_decide_eq_true hguard hown
    exact ⟨other, hother⟩
  · rintro done rfl hbefore
    exact of_decide_eq_true hguard hbefore

theorem OwnCopying.keep (hown : w.OwnCopying) (hconsistent : w.Consistent)
    (h : Handled w source msg now w') (hvisible : w'.model.view.visible = w.model.view.visible)
    (hcopying : w'.model.view.copying = w.model.view.copying)
    (hquiet : ∀ effect ∈ (w.model.update msg now).2, effect.concernsWindow = false)
    (hother : ∀ id, source = some id → w.ownCopy id → ∃ other, other ≠ id ∧ w.ownCopy other) :
    w'.OwnCopying := by
  have hnone : ∀ effect ∈ (w.model.update msg now).2, effect.isCopy = false := by
    intro effect hmem
    have := hquiet effect hmem
    cases effect <;> simp_all [Effect.concernsWindow, Effect.isCopy]
  refine ⟨fun hshown id hopen hbefore => ?_, ?_⟩
  · have hold := ((h.openCopy_of_no_copy hconsistent hnone).mp hopen).2
    have hid := openCopy_lt hold
    rcases (h.beforeHide_iff hid).mp hbefore with hbefore | hhide
    · have := hown.shown (hvisible ▸ hshown) id hold hbefore
      rw [← Bool.not_eq_true, h.sinceShown_iff hid, this]
      simp
    · simpa [Effect.concernsWindow] using hquiet _ hhide
  · rw [hcopying, hown.copying]
    simp only [h.ownCopy_of_quiet hconsistent hquiet]
    constructor
    · rintro ⟨id, hid⟩
      by_cases hsource : source = some id
      · obtain ⟨other, hne, hotherOwn⟩ := hother id hsource hid
        exact ⟨other, fun heq => hne (Option.some.inj (heq.symm.trans hsource)), hotherOwn⟩
      · exact ⟨id, hsource, hid⟩
    · rintro ⟨id, -, hid⟩
      exact ⟨id, hid⟩

theorem OwnCopying.shows (hconsistent : w.Consistent)
    (h : Handled w source msg now w') (hlow : w.model.view.copying = false)
    (hcopying : w'.model.view.copying = w.model.view.copying)
    (hshows : .showWindow ∈ (w.model.update msg now).2)
    (heffects : ∀ effect ∈ (w.model.update msg now).2, effect = .showWindow ∨ effect = .refresh) :
    w'.OwnCopying := by
  have hnone : ∀ effect ∈ (w.model.update msg now).2, effect.isCopy = false := by
    intro effect hmem
    rcases heffects effect hmem with rfl | rfl <;> rfl
  have hpast : ∀ {id}, w'.openCopy id → w'.sinceShown id = false := by
    intro id hopen
    have hid := openCopy_lt ((h.openCopy_of_no_copy hconsistent hnone).mp hopen).2
    rw [← Bool.not_eq_true, h.sinceShown_iff hid]
    exact fun hafter => hafter.2 hshows
  refine ⟨fun _ id hopen _ => hpast hopen, ?_⟩
  rw [hcopying, hlow]
  simp only [Bool.false_eq_true, false_iff, not_exists]
  intro id hid
  obtain ⟨hopen, hsince, -⟩ := ownCopy_iff.mp hid
  simp [hpast hopen] at hsince

theorem OwnCopying.hides (hconsistent : w.Consistent) (h : Handled w source msg now w')
    (hhide : w.model.update msg now = w.model.hide) : w'.OwnCopying := by
  have heffects : (w.model.update msg now).2 = [.hideWindow] := by
    rw [hhide]
    rfl
  have hview : w'.model.view.visible = false ∧ w'.model.view.copying = false := by
    rw [h.model, hhide]
    exact ⟨rfl, rfl⟩
  have hnone : ∀ effect ∈ (w.model.update msg now).2, effect.isCopy = false := by
    simp [heffects, Effect.isCopy]
  refine ⟨by simp [hview.1], ?_⟩
  simp only [hview.2, Bool.false_eq_true, false_iff, not_exists]
  intro id hid
  obtain ⟨hopen, -, hbefore⟩ := ownCopy_iff.mp hid
  have hlt := openCopy_lt ((h.openCopy_of_no_copy hconsistent hnone).mp hopen).2
  simp [(h.beforeHide_iff hlt).mpr (Or.inr (by simp [heffects]))] at hbefore

theorem OwnCopying.copies (hown : w.OwnCopying) (hconsistent : w.Consistent)
    (h : Handled w source msg now w') {value : SecretString} {secret : Bool}
    (hvisible : w'.model.view.visible = w.model.view.visible) (hcopying : w'.model.view.copying = true)
    (heffects : (w.model.update msg now).2 = [.copy value secret, .persist]) : w'.OwnCopying := by
  have hafter : w'.sinceShown w.flights.length ∧ w'.beforeHide w.flights.length = false := by
    have hpast : w.flights.drop (w.flights.length + 1) = [] := List.drop_eq_nil_of_le (Nat.le_succ _)
    simp [sinceShown, beforeHide, h.flights, heffects, List.drop_append, hpast]
  have hnew : w'.openCopy w.flights.length :=
    (h.openCopy_iff hconsistent).mpr (Or.inr ⟨le_rfl, .copy value secret, rfl, by simp [heffects]⟩)
  refine ⟨fun hshown id hopen hbefore => ?_, ?_⟩
  · rcases (h.openCopy_iff hconsistent).mp hopen with ⟨-, hold⟩ | ⟨hge, effect, hcopy, hget⟩
    · have hid := openCopy_lt hold
      have hpast : w.beforeHide id := by
        simpa [heffects] using (h.beforeHide_iff hid).mp hbefore
      rw [← Bool.not_eq_true, h.sinceShown_iff hid, hown.shown (hvisible ▸ hshown) id hold hpast]
      simp
    · have hid : id = w.flights.length := by
        rw [heffects] at hget
        rcases hoffset : id - w.flights.length with _ | _ | _
        · omega
        · simp [hoffset] at hget
          subst hget
          simp [Effect.isCopy] at hcopy
        · simp [hoffset] at hget
      rw [hid, hafter.2] at hbefore
      simp at hbefore
  · simp only [hcopying, true_iff]
    exact ⟨_, ownCopy_iff.mpr ⟨hnew, hafter⟩⟩

theorem OwnCopying.handled (hown : w.OwnCopying) (hconsistent : w.Consistent)
    (h : Handled w source msg now w')
    (hsend : source = none → ownConfirmations w (.send msg now))
    (hdeliver : ∀ id, source = some id → ownConfirmations w (.deliver id now)) : w'.OwnCopying := by
  cases w.model.update_windowMove msg now with
  | keep hvisible hcopying heffects hmsg =>
      refine hown.keep hconsistent h (by rw [h.model, hvisible]) (by rw [h.model, hcopying]) heffects ?_
      intro id hsource hid
      obtain ⟨effect, hcopy, ⟨flight, hflight, rfl⟩, -⟩ := openCopy_iff.mp (ownCopy_iff.mp hid).1
      obtain ⟨reply, hexecute⟩ := h.executes hsource hflight
      obtain ⟨result, rfl⟩ := execute_of_isCopy hcopy hexecute
      cases result with
      | ok done => exact absurd (hown.copying.mpr ⟨id, hid⟩) (by simp [hmsg done rfl])
      | error text =>
          exact (ownConfirmations_deliver hconsistent (h.answer id hsource).1
            (hdeliver id hsource)).1 text rfl hid
  | «show» hbefore hmsg _ hcopying hshows heffects =>
      refine .shows hconsistent h ?_ (by rw [h.model, hcopying]) hshows heffects
      have hsource : source = none := h.source_eq_none (by rcases hmsg with rfl | rfl <;> rfl)
      have hguard := hsend hsource
      rw [hown.copying_eq]
      rcases hmsg with rfl | rfl <;> simpa [ownConfirmations, hbefore] using hguard
  | hide hhide => exact .hides hconsistent h hhide
  | copy value secret hvisible hcopying heffects _ =>
      exact hown.copies hconsistent h (by rw [h.model, hvisible]) (by rw [h.model, hcopying]) heffects

theorem ownCopying_of_reach (h : system.Reach (fun w e => ownConfirmations w e) w) : w.OwnCopying := by
  refine invariant_of_handled ?_ ?_ ?_ h
  · intro prefs account
    refine ⟨by simp [World.start, Model.new], ?_⟩
    simp [World.start, Model.new, ownCopy, openCopy]
  · rintro w w' hquiet ⟨hshown, hcopying⟩
    refine ⟨?_, ?_⟩ <;>
      simpa only [ownCopy, openCopy, sinceShown, beforeHide, hquiet.model, hquiet.flights,
        hquiet.answered]
  · intro w w' source msg now _ hconsistent hhandled hsend hdeliver hown
    exact hown.handled hconsistent hhandled hsend hdeliver

theorem copyFinished_of_low {m : Model} {result : Except String Unit}
    (h : ∀ done, result = .ok done → m.view.copying = false) :
    ∃ nextNotice notice effects, m.copyFinished result =
      ({ m with nextNotice, view := { m.view with notice } }, effects) ∧ .hideWindow ∉ effects := by
  cases result with
  | ok done =>
      refine ⟨m.nextNotice, m.view.notice, [], ?_, List.not_mem_nil⟩
      rw [Model.copyFinished, Model.copyConfirmed, if_neg (by simp [h done rfl])]
  | error text => exact ⟨_, _, _, rfl, by simp⟩

/-- **The flag is about the copies of the present showing, and a late confirmation does nothing.** In
every run that meets the condition: while the window is shown, the flag is up just when a copy asked for
since then is unanswered; while it is hidden, just when one asked for since then is; and the answer to
a copy asked for before the window was last hidden changes nothing but the notice. -/
theorem copies_close_own_session (h : system.Reach (fun w e => ownConfirmations w e) w) :
    (w.model.view.visible → (w.model.view.copying ↔
      ∃ id value secret, w.sinceShown id ∧ w.Unanswered id (.copy value secret))) ∧
    (w.model.view.visible = false → (w.model.view.copying ↔ ∃ id value secret,
      w.sinceShown id ∧ w.beforeHide id = false ∧ w.Unanswered id (.copy value secret))) ∧
    ∀ id now w' result, w.beforeHide id → (id, .copyFinished result) ∈ w.resolved →
      ownConfirmations w (.deliver id now) → w.step (.deliver id now) = some w' →
      w'.model.view = { w.model.view with notice := w'.model.view.notice } ∧
        w'.model.tokens = w.model.tokens ∧ .hideWindow ∉ w.issued w' := by
  have hown := ownCopying_of_reach h
  have hconsistent := consistent_of_reach h
  refine ⟨fun hvisible => ?_, fun _ => ?_, ?_⟩
  · rw [hown.copying]
    constructor
    · rintro ⟨id, hid⟩
      obtain ⟨hopen, hsince, -⟩ := ownCopy_iff.mp hid
      obtain ⟨effect, hcopy, hunanswered⟩ := openCopy_iff.mp hopen
      obtain ⟨value, secret, rfl⟩ := Effect.isCopy_iff.mp hcopy
      exact ⟨id, value, secret, hsince, hunanswered⟩
    · rintro ⟨id, value, secret, hsince, hunanswered⟩
      have hopen : w.openCopy id := openCopy_iff.mpr ⟨_, rfl, hunanswered⟩
      refine ⟨id, ownCopy_iff.mpr ⟨hopen, hsince, ?_⟩⟩
      by_contra hbefore
      rw [Bool.not_eq_false] at hbefore
      simp [hown.shown hvisible id hopen hbefore] at hsince
  · rw [hown.copying]
    constructor
    · rintro ⟨id, hid⟩
      obtain ⟨hopen, hsince, hbefore⟩ := ownCopy_iff.mp hid
      obtain ⟨effect, hcopy, hunanswered⟩ := openCopy_iff.mp hopen
      obtain ⟨value, secret, rfl⟩ := Effect.isCopy_iff.mp hcopy
      exact ⟨id, value, secret, hsince, hbefore, hunanswered⟩
    · rintro ⟨id, value, secret, hsince, hbefore, hunanswered⟩
      exact ⟨id, ownCopy_iff.mpr ⟨openCopy_iff.mpr ⟨_, rfl, hunanswered⟩, hsince, hbefore⟩⟩
  · intro id now w' result hbefore hmem hguard hstep
    obtain ⟨msg, hmsg, hhandled⟩ := deliver_handled hconsistent hstep
    obtain rfl := hconsistent.once id _ _ hmem hmsg
    have hlow : ∀ done, result = .ok done → w.model.view.copying = false := by
      rintro done rfl
      rw [hown.copying_eq]
      exact (ownConfirmations_deliver hconsistent hmem hguard).2 done rfl hbefore
    obtain ⟨nextNotice, notice, effects, hupdate, hstays⟩ := copyFinished_of_low hlow
    rw [hhandled.issued_eq, hhandled.model, Model.update, hupdate]
    exact ⟨rfl, rfl, hstays⟩

/-- A window shown while the flag is up has it for a copy of another showing. -/
theorem not_ownCopying_of_shown (hconsistent : w.Consistent) (hmsg : msg = .show ∨ msg = .toggle)
    (hhidden : w.model.view.visible = false) (hup : w.model.view.copying) :
    ¬ (w.feed msg now).OwnCopying := by
  intro hafter
  have huser : msg.isAnswer = false := by
    cases hmsg with
    | inl hshow => simp [hshow, Msg.isAnswer]
    | inr htoggle => simp [htoggle, Msg.isAnswer]
  have hhandled : Handled w none msg now (w.feed msg now) := feed_handled huser
  have hupdate : w.model.update msg now = w.model.show now := by
    cases hmsg with
    | inl hshow => rw [hshow, Model.update]
    | inr htoggle => simp [htoggle, Model.update, hhidden]
  have heffects : .showWindow ∈ (w.model.update msg now).2 := by
    simp [hupdate, Model.show_snd, hhidden]
  have hnone : ∀ effect ∈ (w.model.update msg now).2, effect.isCopy = false := by
    rw [hupdate, Model.show_snd, hhidden]
    intro effect hmem
    rcases List.mem_cons.mp hmem with rfl | hrest
    · rfl
    · split at hrest <;> simp_all [Effect.isCopy]
  have hstill : (w.feed msg now).model.view.copying := by
    rw [hhandled.model, hupdate, Model.show_fst]
    exact hup
  obtain ⟨id, hid⟩ := hafter.copying.mp hstill
  obtain ⟨hopen, hsince, -⟩ := ownCopy_iff.mp hid
  have hlt := openCopy_lt ((hhandled.openCopy_of_no_copy hconsistent hnone).mp hopen).2
  exact ((hhandled.sinceShown_iff hlt).mp hsince).2 heffects

/-- The condition leaves out nothing that does no harm: a step that does not meet it leaves the flag
wrong, or hides the window for a copy asked for before it was last hidden. -/
theorem copies_close_other_session (h : system.Reach (fun w e => ownConfirmations w e) w) {e : Event}
    (hstep : w.step e = some w') (hbreaks : ¬ ownConfirmations w e) :
    ¬ w'.OwnCopying ∨ ∃ id now, e = .deliver id now ∧ w.beforeHide id ∧
      .hideWindow ∈ w.issued w' := by
  have hown := ownCopying_of_reach h
  have hconsistent := consistent_of_reach h
  cases e with
  | send msg now =>
      have hfeed : w' = w.feed msg now := by
        simp only [step] at hstep
        split at hstep
        · simp at hstep
        · exact (Option.some.inj hstep).symm
      cases msg with
      | «show» =>
          simp only [ownConfirmations, decide_eq_true_eq, not_or, Bool.not_eq_true,
            Bool.not_eq_false] at hbreaks
          rw [hfeed]
          exact Or.inl (not_ownCopying_of_shown hconsistent (Or.inl rfl) hbreaks.1
            (hown.copying_eq.trans hbreaks.2))
      | toggle =>
          simp only [ownConfirmations, decide_eq_true_eq, not_or, Bool.not_eq_true,
            Bool.not_eq_false] at hbreaks
          rw [hfeed]
          exact Or.inl (not_ownCopying_of_shown hconsistent (Or.inr rfl) hbreaks.1
            (hown.copying_eq.trans hbreaks.2))
      | _ => simp [ownConfirmations] at hbreaks
  | deliver id now =>
      obtain ⟨msg, hmem, hhandled⟩ := deliver_handled hconsistent hstep
      simp only [ownConfirmations, hconsistent.find?_resolved hmem] at hbreaks
      cases msg with
      | copyFinished result =>
          cases result with
          | ok done =>
              simp only [decide_eq_true_eq, Classical.not_imp, Bool.not_eq_false] at hbreaks
              refine Or.inr ⟨id, now, rfl, hbreaks.1, ?_⟩
              have hup : w.model.view.copying := hown.copying_eq.trans hbreaks.2
              rw [hhandled.issued_eq]
              simp [Model.update, Model.copyFinished, Model.copyConfirmed, hup, Model.hide]
          | error text =>
              simp only [decide_eq_true_eq, Classical.not_imp] at hbreaks
              obtain ⟨hid, honly⟩ := hbreaks
              refine Or.inl fun hafter => ?_
              have hup : w'.model.view.copying := by
                rw [hhandled.model]
                exact hown.copying.mpr ⟨id, hid⟩
              obtain ⟨other, hother⟩ := hafter.copying.mp hup
              have hquiet : ∀ effect ∈ (w.model.update (.copyFinished (.error text)) now).2,
                  effect.concernsWindow = false := by
                simp [Model.update, Model.copyFinished, Model.notify, Effect.concernsWindow]
              obtain ⟨hsource, hbefore⟩ := (hhandled.ownCopy_of_quiet hconsistent hquiet).mp hother
              exact honly ⟨other, openCopy_lt (ownCopy_iff.mp hbefore).1,
                fun heq => hsource (congrArg some heq.symm), hbefore⟩
      | _ => simp at hbreaks
  | _ => simp [ownConfirmations] at hbreaks

end Runs

section Examples

attribute [local instance] plainText

/-- The window shown with the login listed; its password is copied, and the window closed before the
clipboard answers: effect 4 is the copy. -/
def copyAndLeave : List Event :=
  [.send .show 0, .resolve 1 (.listing (.ok { vaults := [], items := [mailLogin] })), .deliver 1 0,
    .send .copyPrimary 0, .resolve 3 (.field (.ok ⟨"hunter2"⟩)), .deliver 3 0, .send .escape 0,
    .resolve 4 (.clipboard (.ok ())), .send .show 0]

theorem copies_close_own_session_late : ∃ w w' : World, w.model.view.visible ∧ w.beforeHide 4 ∧
    w.step (.deliver 4 0) = some w' ∧
    w'.model.view = { w.model.view with notice := w'.model.view.notice } := by
  have hrun : ∃ w, system.Reach (fun w e => ownConfirmations w e) w ∧ w.model.view.visible ∧
      w.beforeHide 4 ∧ (4, .copyFinished (.ok ())) ∈ w.resolved ∧
      ownConfirmations w (.deliver 4 0) ∧ (w.step (.deliver 4 0)).isSome := by
    refine TransitionSystem.exists_reach_of_run (start .default none) copyAndLeave ⟨_, _, rfl⟩ ?_
    decide
  obtain ⟨w, hreach, hvisible, hbefore, hmem, hguard, hstep⟩ := hrun
  obtain ⟨w', hnext⟩ := Option.isSome_iff_exists.mp hstep
  exact ⟨w, w', hvisible, hbefore, hnext,
    ((copies_close_own_session hreach).2.2 4 0 w' _ hbefore hmem hguard hnext).1⟩

/-- The password is copied again in the new showing, and the confirmation of the first copy hides the
window it was not asked from. -/
theorem late_confirmation_hides : ∃ w w' : World, system.Reach TransitionSystem.anyStep w ∧
    w.model.view.visible ∧ w.beforeHide 4 ∧ w.Unanswered 4 (.copy ⟨"hunter2"⟩ true) ∧
    w.Unanswered 9 (.copy ⟨"hunter2"⟩ true) ∧ w.sinceShown 9 ∧
    w.step (.deliver 4 0) = some w' ∧ w'.model.view.visible = false ∧ .hideWindow ∈ w.issued w' := by
  have hrun : ∃ w, system.Reach TransitionSystem.anyStep w ∧ w.model.view.visible ∧
      w.beforeHide 4 ∧ w.Unanswered 4 (.copy ⟨"hunter2"⟩ true) ∧
      w.Unanswered 9 (.copy ⟨"hunter2"⟩ true) ∧ w.sinceShown 9 ∧
      (w.step (.deliver 4 0)).any fun w' => w'.model.view.visible = false ∧
        .hideWindow ∈ w.issued w' := by
    refine TransitionSystem.exists_reach_of_run (start .default none)
      (copyAndLeave ++ [.send .copyPrimary 0, .resolve 8 (.field (.ok ⟨"hunter2"⟩)), .deliver 8 0])
      ⟨_, _, rfl⟩ ?_
    decide
  obtain ⟨w, hreach, hvisible, hbefore, hfirst, hsecond, hsince, hlater⟩ := hrun
  obtain ⟨w', hstep, hdecided⟩ := (Option.any_eq_true _ _).mp hlater
  obtain ⟨hhidden, hhides⟩ := of_decide_eq_true hdecided
  exact ⟨w, w', hreach, hvisible, hbefore, hfirst, hsecond, hsince, hstep, hhidden, hhides⟩

end Examples

end World

end CosmicPass
