import CosmicPass.Proof.RevealBooks
import CosmicPass.Proof.SessionSlot

/-!
# Nothing waits for an answer that is not coming

Every waiting state of the reducer has its effect under way: a session being checked or signed in to,
a refresh, a copy, a revealed field, a code. Since every effect is answered, no waiting state lasts.
-/

namespace CosmicPass

theorem execute_probeSession {reply : Reply} {msg : Msg}
    (h : execute .probeSession reply = some msg) : ∃ result, msg = .sessionProbed result := by
  cases reply <;> simp only [execute, reduceCtorEq, Option.some.injEq] at h
  exact ⟨_, h.symm⟩

theorem execute_startLogin {reply : Reply} {msg : Msg}
    (h : execute .startLogin reply = some msg) : ∃ result, msg = .loginFinished result := by
  cases reply <;> simp only [execute, reduceCtorEq, Option.some.injEq] at h
  exact ⟨_, h.symm⟩

theorem execute_refresh {reply : Reply} {msg : Msg} (h : execute .refresh reply = some msg) :
    msg.endsRefresh = true := by
  unfold execute at h
  split at h <;> simp_all <;> subst h <;> rfl

theorem refresh_of_execute {effect : Effect} {reply : Reply} {msg : Msg}
    (h : execute effect reply = some msg) (hends : msg.endsRefresh = true) : effect = .refresh := by
  unfold execute at h
  split at h <;> simp_all <;> subst h <;> simp [Msg.endsRefresh] at hends

namespace World

/-- The session's waiting states have their effect under way, and a refresh is under way just while
the flag is up, never twice. -/
structure SessionBooks (w : World) : Prop where
  checking : w.model.session = .checking → ∃ id, w.Unanswered id .probeSession
  loggingIn : w.model.session = .loggingIn → ∃ id, w.Unanswered id .startLogin
  refreshing : w.model.data.refreshing = true ↔ ∃ id, w.Unanswered id .refresh
  once : ∀ id id', w.Unanswered id .refresh → w.Unanswered id' .refresh → id = id'

section Runs

variable [TextSupport] {w w' : World} {source : Option Nat} {msg : Msg} {now : Int}

theorem Handled.unanswered_of_mem (h : Handled w source msg now w') (hconsistent : w.Consistent)
    {effect : Effect} (hmem : effect ∈ (w.model.update msg now).2) :
    ∃ id, w'.Unanswered id effect := by
  obtain ⟨k, hget⟩ := List.mem_iff_getElem?.mp hmem
  refine ⟨w.flights.length + k, (h.unanswered_iff hconsistent _ _).mpr (Or.inr ⟨?_, ?_⟩)⟩
  · exact Nat.le_add_right _ _
  · rwa [Nat.add_sub_cancel_left]

theorem Handled.unanswered_mono (h : Handled w source msg now w') (hconsistent : w.Consistent)
    {id : Nat} {effect : Effect} (hopen : w.Unanswered id effect)
    (hmsg : ∀ reply, execute effect reply ≠ some msg) : w'.Unanswered id effect := by
  refine (h.unanswered_iff hconsistent _ _).mpr (Or.inl ⟨fun hsource => ?_, hopen⟩)
  obtain ⟨⟨flight, hflight, rfl⟩, -⟩ := hopen
  obtain ⟨reply, hexecute⟩ := h.executes hsource hflight
  exact hmsg reply hexecute

theorem Handled.refresh_of_endsRefresh (h : Handled w source msg now w')
    (hmsg : msg.endsRefresh = true) : ∃ id, source = some id ∧ w.Unanswered id .refresh := by
  have hanswer : msg.isAnswer = true := by
    cases msg <;> simp [Msg.endsRefresh, Msg.isAnswer] at hmsg ⊢
  obtain ⟨id, hsource⟩ := h.answers_of_isAnswer hanswer
  obtain ⟨-, ⟨flight, reply, hflight, hexecute, -⟩, hopen⟩ := h.answer id hsource
  exact ⟨id, hsource, ⟨flight, hflight, refresh_of_execute hexecute hmsg⟩, hopen⟩

theorem Handled.unanswered_refresh_iff (h : Handled w source msg now w') (hconsistent : w.Consistent)
    (hmsg : msg.endsRefresh = false) (id : Nat) :
    w'.Unanswered id .refresh ↔ w.Unanswered id .refresh ∨ w.flights.length ≤ id ∧
      (w.model.update msg now).2[id - w.flights.length]? = some .refresh := by
  constructor
  · intro hopen
    exact ((h.unanswered_iff hconsistent _ _).mp hopen).imp_left And.right
  · rintro (hopen | hnew)
    · refine h.unanswered_mono hconsistent hopen fun reply hexecute => ?_
      simp [execute_refresh hexecute] at hmsg
    · exact (h.unanswered_iff hconsistent _ _).mpr (Or.inr hnew)

theorem SessionBooks.refresh_handled (hbooks : w.SessionBooks) (hconsistent : w.Consistent)
    (h : Handled w source msg now w') :
    (w'.model.data.refreshing = true ↔ ∃ id, w'.Unanswered id .refresh) ∧
      ∀ id id', w'.Unanswered id .refresh → w'.Unanswered id' .refresh → id = id' := by
  rw [h.model]
  cases w.model.update_refreshMove msg now with
  | keep hflag heffects hmsg =>
      have hsame : ∀ id, w'.Unanswered id .refresh ↔ w.Unanswered id .refresh := by
        intro id
        rw [h.unanswered_refresh_iff hconsistent hmsg]
        exact or_iff_left fun hnew => heffects (List.mem_of_getElem? hnew.2)
      simp only [hsame, hflag]
      exact ⟨hbooks.refreshing, hbooks.once⟩
  | ask hbefore hafter k heffects hmsg =>
      have hnone : ∀ id, ¬ w.Unanswered id .refresh := by
        intro id hopen
        simp [hbooks.refreshing.mpr ⟨id, hopen⟩] at hbefore
      have honly : ∀ id, w'.Unanswered id .refresh ↔ id = w.flights.length + k := by
        intro id
        rw [h.unanswered_refresh_iff hconsistent hmsg, or_iff_right (hnone id), heffects]
        omega
      simp only [honly, hafter, true_iff]
      exact ⟨⟨_, rfl⟩, fun id id' hid hid' => hid.trans hid'.symm⟩
  | settle hafter heffects hmsg =>
      -- The refresh that answers was the only one.
      obtain ⟨answering, hsource, hanswering⟩ := h.refresh_of_endsRefresh hmsg
      have hnone : ∀ id, ¬ w'.Unanswered id .refresh := by
        intro id hopen
        rcases (h.unanswered_iff hconsistent _ _).mp hopen with ⟨hother, hold⟩ | ⟨-, hnew⟩
        · exact hother (hsource.trans (congrArg some (hbooks.once _ _ hanswering hold)))
        · exact heffects (List.mem_of_getElem? hnew)
      simp [hafter, hnone]

theorem SessionBooks.handled (hbooks : w.SessionBooks) (hconsistent : w.Consistent)
    (h : Handled w source msg now w') : w'.SessionBooks := by
  have hmove := w.model.update_sessionMove msg now
  obtain ⟨hrefreshing, honce⟩ := hbooks.refresh_handled hconsistent h
  refine ⟨?_, ?_, hrefreshing, honce⟩
  · intro hchecking
    rw [h.model] at hchecking
    rcases hmove.checking hchecking with hmem | ⟨hbefore, hmsg⟩
    · exact h.unanswered_of_mem hconsistent hmem
    · obtain ⟨id, hopen⟩ := hbooks.checking hbefore
      refine ⟨id, h.unanswered_mono hconsistent hopen fun reply hexecute => ?_⟩
      obtain ⟨result, hprobed⟩ := execute_probeSession hexecute
      exact hmsg result hprobed
  · intro hlogging
    rw [h.model] at hlogging
    rcases hmove.loggingIn hlogging with hmem | ⟨hbefore, hmsg⟩
    · exact h.unanswered_of_mem hconsistent hmem
    · obtain ⟨id, hopen⟩ := hbooks.loggingIn hbefore
      refine ⟨id, h.unanswered_mono hconsistent hopen fun reply hexecute => ?_⟩
      obtain ⟨result, hfinished⟩ := execute_startLogin hexecute
      exact hmsg result hfinished

theorem sessionBooks_of_reach {guard : World → Event → Prop} (h : system.Reach guard w) :
    w.SessionBooks := by
  refine invariant_of_handled ?_ ?_ ?_ h
  · intro prefs account
    refine ⟨?_, ?_, ?_, ?_⟩ <;> simp [World.start, Model.new, Unanswered]
  · rintro w w' hquiet ⟨hchecking, hlogging, hrefreshing, honce⟩
    refine ⟨?_, ?_, ?_, ?_⟩ <;> simpa only [hquiet.unanswered_iff, hquiet.model]
  · intro w w' source msg now _ hconsistent hhandled _ _ hbooks
    exact hbooks.handled hconsistent hhandled

end Runs

/-- No waiting state is waiting for an answer that is not coming. -/
structure NothingStranded (w : World) : Prop where
  checking : w.model.session = .checking → ∃ id, w.Unanswered id .probeSession
  loggingIn : w.model.session = .loggingIn → ∃ id, w.Unanswered id .startLogin
  refreshing : w.model.data.refreshing = true ↔ ∃! id, w.Unanswered id .refresh
  refreshOnce : ∀ id id', w.Unanswered id .refresh → w.Unanswered id' .refresh → id = id'
  pending : ∀ fetch, w.model.view.pending = some fetch → ∃ (id : Nat) (effect : Effect),
    effect.pendingFetch = some fetch ∧ w.Unanswered id effect ∧
      ∀ id', w.copyFetch id' = some fetch → id' = id
  revealCancel : w.model.view.revealCancel.isSome ↔
    ∃ target, w.model.view.revealed = .field target none
  field : ∀ target, w.model.view.revealed = .field target none → ∃ id cancel,
    w.Unanswered id
      (.fetchReveal target.key target.field.name target.index target.generation cancel)
  code : ∀ code, w.model.view.revealed = .totp code true → ∃ key selected id cancel,
    w.model.view.mode = .actions key selected ∧ w.Unanswered id (.fetchTotp key cancel)

section Runs

variable [TextSupport] {w : World}

/-- **No waiting state is ever stranded.** In any order of messages and answers, the field list being
entered from the list of items only, whatever waits has its own effect still unanswered. -/
theorem nothing_stranded (h : system.Reach (fun w e => fromList w e) w) : w.NothingStranded := by
  have hsession := sessionBooks_of_reach h
  have hcopies := copyBooks_of_reach h
  have hreveals := revealBooks_of_reach (fun _ _ hguard => hguard) h
  refine ⟨hsession.checking, hsession.loggingIn, ?_, hsession.once, ?_, ?_, ?_, ?_⟩
  · rw [hsession.refreshing]
    constructor
    · rintro ⟨id, hopen⟩
      exact ⟨id, hopen, fun id' hopen' => hsession.once id' id hopen' hopen⟩
    · rintro ⟨id, hopen, -⟩
      exact ⟨id, hopen⟩
  · intro fetch hpending
    obtain ⟨id, hfetch, hopen⟩ := hcopies.awaited fetch hpending
    obtain ⟨flight, hflight, hasked⟩ := copyFetch_eq_some.mp hfetch
    exact ⟨id, flight.effect, hasked, ⟨⟨flight, hflight, rfl⟩, hopen⟩,
      fun id' hfetch' => hcopies.distinct id' id fetch fetch hfetch' hfetch rfl⟩
  · constructor
    · exact hreveals.idle
    · rintro ⟨target, hrevealed⟩
      obtain ⟨-, id, cancel, -, hwaiting, -⟩ := hreveals.field target none hrevealed
      rw [(hwaiting rfl).1]
      rfl
  · intro target hrevealed
    obtain ⟨-, id, cancel, ⟨flight, item, hflight, heffect, -⟩, hwaiting, -⟩ :=
      hreveals.field target none hrevealed
    exact ⟨id, cancel, ⟨flight, hflight, heffect⟩, (hwaiting rfl).2⟩
  · intro code hrevealed
    obtain ⟨key, selected, hmode, hwaiting, -⟩ := hreveals.totp code true hrevealed
    obtain ⟨id, cancel, hasks, hopen⟩ := hwaiting rfl
    exact ⟨key, selected, id, cancel, hmode, hasks, hopen⟩

end Runs

section Examples

attribute [local instance] plainText

theorem nothing_stranded_probing : ∃ w : World, w.model.session = .checking ∧
    w.model.data.refreshing = true ∧ w.model.view.pending.isSome ∧ w.NothingStranded := by
  have hrun : ∃ w, system.Reach (fun w e => fromList w e) w ∧ w.model.session = .checking ∧
      w.model.data.refreshing = true ∧ w.model.view.pending.isSome := by
    refine TransitionSystem.exists_reach_of_run (start .default none)
      (listMailLogin ++ [.send .copyPrimary 0, .send .refreshRequested 0, .send .startup 0])
      ⟨_, _, rfl⟩ ?_
    decide
  obtain ⟨w, hreach, hchecking, hrefreshing, hpending⟩ := hrun
  exact ⟨w, hchecking, hrefreshing, hpending, nothing_stranded hreach⟩

end Examples

end World

end CosmicPass
