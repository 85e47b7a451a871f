import CosmicPass.Proof.SignIn

/-!
# The link of a sign-in

`pass-cli login` prints the address to sign in at, among other lines. The reducer keeps the first
one it sees, and drops it when a sign-in starts and when one ends. Read beside the lines received
since then, the link is the first address among them, whatever else happened in between; and as
lines only come from a sign-in under way, there is one under way whenever a link is offered.
-/

namespace CosmicPass

/-! ### Addresses in a line -/

/-- A word of a line: a stretch of it, with no white space. -/
theorem of_mem_splitWords {chars current word : List Char}
    (hcurrent : ∀ c ∈ current, isWhitespace c = false) (hmem : word ∈ splitWords chars current) :
    word <:+: current.reverse ++ chars ∧ ∀ c ∈ word, isWhitespace c = false := by
  induction chars generalizing current with
  | nil =>
      simp only [splitWords] at hmem
      split at hmem
      · simp at hmem
      · obtain rfl := List.mem_singleton.mp hmem
        exact ⟨by simp, by simpa using hcurrent⟩
  | cons c rest ih =>
      -- The words after a blank lie in the rest of the line.
      have hrest : word ∈ splitWords rest [] →
          word <:+: current.reverse ++ c :: rest ∧ ∀ c ∈ word, isWhitespace c = false := by
        intro hlater
        obtain ⟨hwithin, hwhite⟩ := ih (by simp) hlater
        refine ⟨List.IsInfix.trans hwithin ?_, hwhite⟩
        exact ⟨current.reverse ++ [c], [], by simp⟩
      simp only [splitWords] at hmem
      split at hmem
      next =>
        split at hmem
        next => exact hrest hmem
        next =>
          rcases List.mem_cons.mp hmem with rfl | hlater
          · exact ⟨(List.prefix_append _ _).isInfix, by simpa using hcurrent⟩
          · exact hrest hlater
      next hword =>
        have hgrown : ∀ d ∈ c :: current, isWhitespace d = false :=
          List.forall_mem_cons.mpr ⟨by simpa using hword, hcurrent⟩
        simpa using ih hgrown hmem

/-- An address as a sign-in prints it: a word of the line that starts with `https://`. -/
def IsLinkOf (url line : String) : Prop :=
  "https://".toList <+: url.toList ∧ (∀ c ∈ url.toList, isWhitespace c = false) ∧
    url.toList <:+: line.toList

theorem isLinkOf_of_findUrl {line url : String} (h : findUrl line = some url) : IsLinkOf url line := by
  obtain ⟨word, hfind, rfl⟩ := Option.map_eq_some_iff.mp h
  have hprefix := List.find?_some hfind
  obtain ⟨hwithin, hwhite⟩ := of_mem_splitWords (by simp) (List.mem_of_find?_eq_some hfind)
  have htext : (String.ofList word).toList = word := String.toList_ofList
  refine ⟨?_, ?_, ?_⟩ <;> rw [htext]
  · exact List.isPrefixOf_iff_prefix.mp hprefix
  · exact hwhite
  · simpa using hwithin

/-! ### What a message does to the link and the warning -/

namespace Model

section Methods

variable [TextSupport] (m : Model)

/-- What a sign-in and a version probe leave to be read: the link and the warning. -/
def told : Option String × Option String := (m.loginUrl, m.cliWarning)

theorem sessionError_told (error : PassError) : (m.sessionError error).1.told = m.told := by
  cases error <;> rfl

theorem copySettled_told (key : ItemKey) (secret : Bool) (result : Except PassError SecretString)
    (now : Int) : (m.copySettled key secret result now).1.told = m.told := by
  unfold copySettled
  split
  next => rfl
  next => rfl
  next =>
    rw [requestRefresh_fst]
    rfl
  next => rfl
  next error _ _ _ => exact sessionError_told _ error

theorem replaceItems_told (listing : Listing) :
    (m.replaceItems listing).told = m.told := by
  unfold replaceItems
  rw [dropStaleReveal_eq]
  rfl

theorem signedIn_told (account : AccountId) : (m.signedIn account).1.told = m.told := by
  unfold signedIn
  dsimp only
  rw [requestRefresh_fst]
  split <;> rfl

omit [TextSupport] in
theorem fetchTotp_told : m.fetchTotp.1.told = m.told := by
  unfold fetchTotp
  split <;> rfl

omit [TextSupport] in
theorem toggleReveal_told : m.toggleReveal.1.told = m.told := by
  unfold toggleReveal fetchReveal
  split
  next =>
    split
    · rfl
    · split
      · rfl
      · split
        · exact fetchTotp_told _
        · split
          · dsimp only
            split <;> rfl
          · rfl
        · rfl
  next => rfl

theorem savePrefs_told (prefs : Preferences) :
    (m.savePrefs prefs).1.told = m.told := by
  obtain ⟨_, _, h⟩ := m.savePrefs_cases prefs
  rw [h]
  rfl

/-- The link changes with a sign-in that starts, speaks or ends, and with nothing else. -/
def linkAfter (msg : Msg) : Option String :=
  match msg with
  | .startLogin => if m.canStartLogin then none else m.loginUrl
  | .loginLine line => m.loginUrl.or (findUrl line)
  | .loginFinished _ => none
  | _ => m.loginUrl

/-- The warning is that of the last probe. -/
def warningAfter (msg : Msg) : Option String :=
  match msg with
  | .versionProbed (.ok found) => versionWarning found
  | .versionProbed (.error _) => none
  | _ => m.cliWarning

theorem update_told (msg : Msg) (now : Int) :
    (m.update msg now).1.told = (m.linkAfter msg, m.warningAfter msg) := by
  cases msg with
  | toggle =>
      rw [update]
      split
      · rfl
      · rw [show_fst]
        rfl
  | «show» =>
      rw [update, show_fst]
      rfl
  | refreshRequested =>
      rw [update, requestRefresh_fst]
      rfl
  | selectNext | selectPrev | pageDown | pageUp =>
      simp only [update, moveSelection, linkAfter]
      split
      · rfl
      · split <;> rfl
  | dataLoaded listing => exact replaceItems_told _ listing
  | cacheLoaded file =>
      simp only [update, cacheLoaded]
      split
      · rfl
      · split
        · rfl
        · split
          · rfl
          · exact replaceItems_told _ _
  | refreshFailed error => exact sessionError_told _ error
  | sessionProbed result =>
      cases result with
      | ok account => exact m.signedIn_told account
      | error error =>
          have herror := m.sessionError_told error
          simp only [update, sessionProbed]
          split <;> exact herror
  | copyPrimary | copyUsername | copyTotp | copyUrl =>
      simp only [update, copyWith, linkAfter]
      split
      · rfl
      · split <;> rfl
  | copyFetched key result =>
      simp only [update, copyFetched]
      split
      · rfl
      · split
        · exact copySettled_told _ _ _ _ _
        · rfl
  | copyFinished result =>
      simp only [update, copyFinished, copyConfirmed]
      split
      · split <;> rfl
      · rfl
  | escape =>
      simp only [update, escape]
      split
      · rfl
      · split <;> rfl
  | activateAction index =>
      simp only [update, activateAction]
      split
      · split <;> rfl
      · rfl
  | toggleReveal => exact m.toggleReveal_told
  | revealFetched key index generation result =>
      simp only [update, revealFetched]
      split
      · rfl
      · split
        · split <;> rfl
        · rfl
        · rfl
  | totpFetched key result =>
      have hsettled : m.totpFetchSettled.told = m.told := by
        unfold totpFetchSettled
        split <;> rfl
      simp only [update, totpFetched]
      split
      · rfl
      · split
        · rfl
        · exact hsettled
        · exact hsettled
  | tick clock =>
      simp only [update, tick]
      split
      · exact m.fetchTotp_told
      · rfl
  | adjustClipboardClear | resetShortcuts => exact m.savePrefs_told _
  | prefsLoaded prefs =>
      obtain ⟨_, _, h⟩ := m.applyPrefs_cases prefs.validated
      simp only [update, h]
      rfl
  | chordCaptured chord =>
      simp only [update, chordCaptured]
      split
      · split
        · rfl
        · exact savePrefs_told _ _
      · rfl
  | loginLine line =>
      simp only [update, loginLine, linkAfter]
      cases hlink : m.loginUrl <;> simp [told, warningAfter, hlink]
  | loginFinished result | versionProbed result => cases result <;> rfl
  | startLogin =>
      simp only [update, startLogin, linkAfter]
      split <;> rfl
  | select | noticeExpired | openActions | startRebind =>
      simp only [update, openActions]
      split <;> rfl
  | startup | queryChanged | hide | back | openPreferences => rfl

theorem update_loginUrl (msg : Msg) (now : Int) : (m.update msg now).1.loginUrl = m.linkAfter msg :=
  congrArg Prod.fst (m.update_told msg now)

theorem update_cliWarning (msg : Msg) (now : Int) :
    (m.update msg now).1.cliWarning = m.warningAfter msg :=
  congrArg Prod.snd (m.update_told msg now)

end Methods

end Model

/-! ### The lines of the sign-in -/

def Msg.isLine : Msg → Bool
  | .loginLine _ => true
  | _ => false

namespace World

/-- Output only comes from a sign-in under way. -/
def whileLogging (w : World) : Event → Prop
  | .send (.loginLine _) _ => ∃ id, w.Unanswered id .startLogin
  | _ => True

theorem whileLogging_of_isLine {w : World} {msg : Msg} {now : Int} (h : msg.isLine = true) :
    (∃ id ∈ List.range w.flights.length, w.Unanswered id .startLogin) ↔
      w.whileLogging (.send msg now) := by
  cases msg with
  | loginLine line =>
      refine ⟨fun ⟨id, _, hopen⟩ => ⟨id, hopen⟩, fun ⟨id, hopen⟩ => ⟨id, ?_, hopen⟩⟩
      obtain ⟨⟨flight, hflight, -⟩, -⟩ := hopen
      exact List.mem_range.mpr (List.getElem?_eq_some_iff.mp hflight).1
  | _ => simp [Msg.isLine] at h

theorem whileLogging_of_not_isLine {w : World} {msg : Msg} {now : Int} (h : msg.isLine = false) :
    w.whileLogging (.send msg now) := by
  cases msg with
  | loginLine line => simp [Msg.isLine] at h
  | _ => trivial

instance (w : World) (e : Event) : Decidable (w.whileLogging e) :=
  match e with
  | .send msg _ =>
      if h : msg.isLine = true then decidable_of_iff _ (whileLogging_of_isLine h)
      else isTrue (whileLogging_of_not_isLine (by simpa using h))
  | .resolve _ _ | .deliver _ _ | .switchAccount _ => isTrue trivial

/-- The lines received since a sign-in last started or ended. -/
def loginNote (w : World) (lines : List String) : Event → List String
  | .send (.loginLine line) _ => lines ++ [line]
  | .send .startLogin _ => if w.model.canStartLogin then [] else lines
  | .deliver id _ =>
      match w.resolved.find? fun done => done.1 = id with
      | some (_, .loginFinished _) => []
      | _ => lines
  | _ => lines

section Runs

variable [TextSupport] {w w' : World} {source : Option Nat} {msg : Msg} {now : Int}

/-- The application beside the lines of the sign-in. -/
abbrev logging : TransitionSystem (World × List String) Event :=
  system.annotated (fun lines => lines = []) fun w lines e => some (loginNote w lines e)

/-- The lines after a message, which only the sign-in changes. -/
def linesAfter (m : Model) (lines : List String) : Msg → List String
  | .startLogin => if m.canStartLogin then [] else lines
  | .loginLine line => lines ++ [line]
  | .loginFinished _ => []
  | _ => lines

/-- The note of an event is that of the message it has the reducer handle. -/
theorem loginNote_cases (hconsistent : w.Consistent) {e : Event} (lines : List String)
    (h : w.step e = some w') :
    Quiet w w' ∧ loginNote w lines e = lines ∨
      ∃ source msg now, Handled w source msg now w' ∧
        (source = none → e = .send msg now) ∧
        loginNote w lines e = linesAfter w.model lines msg := by
  rcases event_cases hconsistent h with ⟨msg, now, rfl, hhandled⟩ |
    ⟨id, msg, now, rfl, hmem, hhandled⟩ | ⟨⟨_, _, rfl⟩ | ⟨_, rfl⟩, hquiet⟩
  · refine Or.inr ⟨none, msg, now, hhandled, fun _ => rfl, ?_⟩
    have huser := hhandled.user rfl
    cases msg <;> first | rfl | simp [Msg.isAnswer] at huser
  · refine Or.inr ⟨some id, msg, now, hhandled, by simp, ?_⟩
    have hanswer : msg.isAnswer = true := by
      obtain ⟨flight, reply, -, hexecute, -⟩ := hconsistent.resolved _ _ hmem
      exact isAnswer_of_execute hexecute
    simp only [loginNote, hconsistent.find?_resolved hmem]
    cases msg <;> first | rfl | simp [Msg.isAnswer] at hanswer
  · exact Or.inl ⟨hquiet, rfl⟩
  · exact Or.inl ⟨hquiet, rfl⟩

/-- A sign-in is under way as long as it has not finished. -/
theorem Handled.unanswered_startLogin (h : Handled w source msg now w') (hconsistent : w.Consistent)
    {id : Nat} (hopen : w.Unanswered id .startLogin) (hmsg : ∀ result, msg ≠ .loginFinished result) :
    w'.Unanswered id .startLogin := by
  refine (h.unanswered_iff hconsistent _ _).mpr (Or.inl ⟨fun hsource => ?_, hopen⟩)
  obtain ⟨⟨flight, hflight, heffect⟩, -⟩ := hopen
  obtain ⟨reply, hexecute⟩ := h.executes hsource hflight
  rw [heffect] at hexecute
  cases reply <;> simp [execute] at hexecute
  exact hmsg _ hexecute.symm

/-- The link is read off the lines, and lines come from a sign-in that has not ended. -/
def LinkBooks (w : World) (lines : List String) : Prop :=
  w.model.loginUrl = lines.findSome? findUrl ∧ (lines ≠ [] → ∃ id, w.Unanswered id .startLogin)

theorem LinkBooks.handled {lines : List String} (hbooks : w.LinkBooks lines)
    (h : Handled w source msg now w') (hconsistent : w.Consistent)
    (hline : ∀ line, msg = .loginLine line → ∃ id, w.Unanswered id .startLogin) :
    w'.LinkBooks (linesAfter w.model lines msg) := by
  obtain ⟨hlink, hopen⟩ := hbooks
  rw [LinkBooks, h.model, Model.update_loginUrl]
  -- A sign-in that was under way still is, unless the message ends it.
  have hstays : (∃ id, w.Unanswered id .startLogin) → (∀ result, msg ≠ .loginFinished result) →
      ∃ id, w'.Unanswered id .startLogin := fun ⟨id, hid⟩ hmsg =>
    ⟨id, h.unanswered_startLogin hconsistent hid hmsg⟩
  cases msg with
  | startLogin =>
      simp only [Model.linkAfter, linesAfter]
      split
      · exact ⟨rfl, fun hne => absurd rfl hne⟩
      · exact ⟨hlink, fun hne => hstays (hopen hne) (by simp)⟩
  | loginLine line =>
      refine ⟨?_, fun _ => hstays (hline line rfl) (by simp)⟩
      simp [Model.linkAfter, linesAfter, List.findSome?_append, hlink]
  | loginFinished result => exact ⟨rfl, fun hne => absurd rfl hne⟩
  | _ => exact ⟨hlink, fun hne => hstays (hopen hne) (by simp)⟩

theorem linkBooks_of_reach {s : World × List String}
    (h : logging.Reach (fun s e => whileLogging s.1 e) s) : s.1.Consistent ∧ s.1.LinkBooks s.2 := by
  apply h.invariant
  · rintro ⟨w, lines⟩ ⟨⟨prefs, account, rfl⟩, hempty⟩
    rw [show lines = [] from hempty]
    exact ⟨.start prefs account, rfl, fun hne => absurd rfl hne⟩
  · rintro ⟨w, lines⟩ e ⟨w', lines'⟩ - hguard hstep ⟨hconsistent, hbooks⟩
    obtain ⟨hstep, hnote⟩ := TransitionSystem.annotated_step_eq_some.mp hstep
    obtain rfl := Option.some.inj hnote
    refine ⟨(step_handled hconsistent hstep).1, ?_⟩
    rcases loginNote_cases hconsistent lines hstep with ⟨hquiet, hlines⟩ |
      ⟨source, msg, now, hhandled, hsend, hlines⟩
    · dsimp only
      rw [hlines, LinkBooks, hquiet.model]
      refine ⟨hbooks.1, fun hne => ?_⟩
      obtain ⟨id, hopen⟩ := hbooks.2 hne
      exact ⟨id, (hquiet.unanswered_iff _ _).mpr hopen⟩
    · dsimp only
      rw [hlines]
      refine hbooks.handled hhandled hconsistent fun line hmsg => ?_
      have hsource := hhandled.source_eq_none (by rw [hmsg]; rfl)
      have hevent := hsend hsource
      rw [hmsg] at hevent
      rw [hevent] at hguard
      exact hguard

/-- **The link offered is the first address the sign-in under way has printed.** Of the lines
received since a sign-in last started or ended, it is the first address of the first line with one;
and if any line was received, that sign-in has not ended. -/
theorem loginUrl_eq_first_printed
    {lines : List String} (h : logging.Reach (fun s e => whileLogging s.1 e) (w, lines)) :
    w.model.loginUrl = lines.findSome? findUrl ∧
      (∀ url, w.model.loginUrl = some url → ∃ line ∈ lines, IsLinkOf url line) ∧
      (lines ≠ [] → ∃ id, w.Unanswered id .startLogin) := by
  obtain ⟨-, hlink, hopen⟩ := linkBooks_of_reach h
  refine ⟨hlink, fun url hurl => ?_, hopen⟩
  obtain ⟨line, hmem, hfound⟩ := List.exists_of_findSome?_eq_some (hlink.symm.trans hurl)
  exact ⟨line, hmem, isLinkOf_of_findUrl hfound⟩

end Runs

section Examples

attribute [local instance] plainText

theorem loginUrl_first_of_two : ∃ w : World, ∃ lines : List String,
    lines = ["Open https://account/1", "or https://account/2"] ∧
    w.model.loginUrl = lines.findSome? findUrl ∧ ∃ id, w.Unanswered id .startLogin := by
  have hrun : ∃ s : World × List String, logging.Reach (fun s e => whileLogging s.1 e) s ∧
      s.2 = ["Open https://account/1", "or https://account/2"] := by
    refine TransitionSystem.exists_reach_of_run (start .default none, [])
      [.send .startup 0, .resolve 2 (.account (.error .signedOut)), .deliver 2 0, .send .startLogin 0,
        .send (.loginLine "Open https://account/1") 0, .send (.loginLine "or https://account/2") 0]
      ⟨⟨_, _, rfl⟩, rfl⟩ ?_
    decide
  obtain ⟨⟨w, lines⟩, hreach, rfl⟩ := hrun
  obtain ⟨hlink, -, hopen⟩ := loginUrl_eq_first_printed hreach
  exact ⟨w, _, rfl, hlink, hopen (by simp)⟩

end Examples

end World

end CosmicPass
