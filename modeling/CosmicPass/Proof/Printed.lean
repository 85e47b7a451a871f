import CosmicPass.Proof.FieldValue
import CosmicPass.Proof.Listings
import CosmicPass.Proof.LoginLink
import CosmicPass.Proof.RevealBooks

/-!
# What `pass-cli` printed

The reducer among its effects, with the effects for `pass-cli` answered by the operations on it. Then
nothing the app shows, copies or goes by is of its own making: whoever is signed in, the warning about
the version, each item not out of a cache file, each value copied and each value and code shown were
printed by the call that an effect of the run made for them.
-/

namespace CosmicPass

namespace PassCli

section Answers

variable (run : List String → Except PassError Output) (readJson : List UInt8 → Option Json)

/-- What the branches of `execute` get of `PassCli` for an effect, its calls returning `run`. -/
def Answers : Effect → Reply → Prop
  | .refresh, .listing result =>
      (ListAll.system run readJson).Reach TransitionSystem.anyStep (.returned result)
  | .fetchAndCopy key field _ _, .field result => result = getField run key field
  | .fetchTotpAndCopy key _ _, .codes result => result = totp run readJson key
  | .probeSession, .account result => result = account run readJson
  | .probeVersion, .version result => result = version run
  | .fetchReveal key field _ _ _, .field result => result = getField run key field
  | .fetchTotp key _, .codes result => result = totp run readJson key
  | _, _ => True

/-- The same of the message that the effect sends back. -/
def Tells (effect : Effect) : Msg → Prop
  | .dataLoaded listing => effect = .refresh ∧
      (ListAll.system run readJson).Reach TransitionSystem.anyStep (.returned (.ok listing))
  | .copyFetched key result =>
      (∃ field secret cancel, effect = .fetchAndCopy key field secret cancel ∧
        result = getField run key field) ∨
      ∃ field cancel, effect = .fetchTotpAndCopy key field cancel ∧
        result = (totp run readJson key).bind fun codes => pickTotp codes field
  | .sessionProbed result => effect = .probeSession ∧ result = account run readJson
  | .versionProbed result => effect = .probeVersion ∧ result = version run
  | .revealFetched key index generation result => ∃ field cancel,
      effect = .fetchReveal key field index generation cancel ∧ result = getField run key field
  | .totpFetched key result => ∃ cancel,
      effect = .fetchTotp key cancel ∧ result = totp run readJson key
  | _ => True

theorem tells_of_answers {effect : Effect} {reply : Reply} {msg : Msg}
    (hanswers : Answers run readJson effect reply) (h : execute effect reply = some msg) :
    Tells run readJson effect msg := by
  unfold execute at h
  split at h <;> simp_all [Answers] <;> subst h <;> simp_all [Tells]

end Answers

end PassCli

namespace World

def Asked (w : World) (id : Nat) (effect : Effect) : Prop :=
  ∃ flight, w.flights[id]? = some flight ∧ flight.effect = effect

section Printed

variable (calls : Nat → List String → Except PassError Output) (readJson : List UInt8 → Option Json)

/-- The effects for `pass-cli` are answered with what it printed; `calls id` are the calls of effect
`id`. -/
def answeredBy (w : World) : Event → Prop
  | .resolve id reply => ∀ flight, w.flights[id]? = some flight →
      PassCli.Answers (calls id) readJson flight.effect reply
  | _ => True

/-- What was printed for the fetch of a copy. -/
def copiedValue (id : Nat) : Effect → Option SecretString
  | .fetchAndCopy key field _ _ => (PassCli.getField (calls id) key field).toOption
  | .fetchTotpAndCopy key field _ =>
      ((PassCli.totp (calls id) readJson key).bind fun codes => pickTotp codes field).toOption
  | _ => none

/-- Where everything known comes from. -/
structure Printed (w : World) : Prop where
  session : ∀ account, w.model.session = .signedIn account → ∃ id, w.Asked id .probeSession ∧
    PassCli.account (calls id) readJson = .ok account
  warning : ∀ text, w.model.cliWarning = some text → ∃ id found, w.Asked id .probeVersion ∧
    PassCli.version (calls id) = .ok found ∧ versionWarning found = some text
  items : ∀ item ∈ w.model.data.items,
    (∃ id file, (id, .cacheLoaded (some file)) ∈ w.answered ∧ item ∈ file.items) ∨
      ∃ id vault out entries entry, w.Asked id .refresh ∧
        calls id (Argv.itemList vault.shareId.id) = .ok out ∧
        (readJson out.stdout).bind decodeItemList = some entries ∧ entry ∈ entries ∧
        item.ListedBy vault entry
  copied : ∀ n value secret, w.Asked n (.copy value secret) →
    ∃ id effect, w.Asked id effect ∧ copiedValue calls readJson id effect = some value
  field : ∀ target value, w.model.view.revealed = .field target (some value) →
    ∃ id cancel, w.Asked id (.fetchReveal target.key target.field.name target.index
      target.generation cancel) ∧
      PassCli.getField (calls id) target.key target.field.name = .ok value
  code : ∀ shown fetching, w.model.view.revealed = .totp (some shown) fetching →
    ∃ key selected id cancel codes, w.model.view.mode = .actions key selected ∧
      w.Asked id (.fetchTotp key cancel) ∧ PassCli.totp (calls id) readJson key = .ok codes ∧
      Model.shownCode codes shown.field = some shown.code

/-- What has been resolved says what was printed. -/
def Truthful (w : World) : Prop :=
  ∀ id msg, (id, msg) ∈ w.resolved →
    ∃ effect, w.Asked id effect ∧ PassCli.Tells (calls id) readJson effect msg

end Printed

/-- The messages that everything known, but for what is revealed, came with. -/
structure Known (w : World) : Prop where
  session : ∀ account, w.model.session = .signedIn account →
    ∃ id, (id, .sessionProbed (.ok account)) ∈ w.answered
  warning : ∀ text, w.model.cliWarning = some text →
    ∃ id found, (id, .versionProbed (.ok found)) ∈ w.answered ∧ versionWarning found = some text
  items : ∀ item ∈ w.model.data.items,
    (∃ id file, (id, .cacheLoaded (some file)) ∈ w.answered ∧ item ∈ file.items) ∨
      ∃ id listing, (id, .dataLoaded listing) ∈ w.answered ∧ item ∈ listing.items
  copied : ∀ n value secret, w.Asked n (.copy value secret) →
    ∃ id key, (id, .copyFetched key (.ok value)) ∈ w.answered

section Runs

variable [TextSupport] {w w' : World} {source : Option Nat} {msg : Msg} {now : Int}
  {guard : World → Event → Prop} {calls : Nat → List String → Except PassError Output}
  {readJson : List UInt8 → Option Json}

theorem Handled.asked (h : Handled w source msg now w') {id : Nat} {effect : Effect}
    (hasked : w.Asked id effect) : w'.Asked id effect := by
  obtain ⟨flight, hflight, heffect⟩ := hasked
  exact ⟨flight, h.flights_mono hflight, heffect⟩

theorem truthful_of_reach (hguard : ∀ w e, guard w e → w.answeredBy calls readJson e)
    (h : system.Reach guard w) : w.Truthful calls readJson := by
  apply h.invariant
  · rintro _ ⟨prefs, account, rfl⟩
    simp [Truthful, World.start]
  · intro w e w' hreach hok hstep htruthful
    have hconsistent := consistent_of_reach hreach
    rcases step_cases hstep with ⟨msg, now, rfl, huser, rfl⟩ | ⟨id, reply, flight, msg, rfl, hflight,
      hmsg, -, -, rfl⟩ | ⟨id, now, msg, rfl, -, -, -⟩ | ⟨account, rfl, rfl⟩
    · intro id msg' hmem
      obtain ⟨effect, hasked, htells⟩ := htruthful id msg' hmem
      exact ⟨effect, (feed_handled huser).asked hasked, htells⟩
    · intro other msg' hmem
      rcases List.mem_cons.mp hmem with heq | hold
      · obtain ⟨rfl, rfl⟩ := Prod.mk.inj heq
        exact ⟨flight.effect, ⟨flight, hflight, rfl⟩,
          PassCli.tells_of_answers _ _ (hguard _ _ hok flight hflight) hmsg⟩
      · exact htruthful other msg' hold
    · obtain ⟨_, -, hhandled⟩ := deliver_handled hconsistent hstep
      intro other msg' hmem
      rw [hhandled.resolved] at hmem
      obtain ⟨effect, hasked, htells⟩ := htruthful other msg' hmem
      exact ⟨effect, hhandled.asked hasked, htells⟩
    · exact htruthful

theorem Handled.new (h : Handled w source msg now w') (hanswer : msg.isAnswer) :
    ∃ id, (id, msg) ∈ w'.answered := by
  obtain ⟨id, hsource⟩ := h.answers_of_isAnswer hanswer
  exact ⟨id, h.now_answered hsource⟩

theorem Known.session_handled (hknown : w.Known) (h : Handled w source msg now w')
    {account : AccountId} (hsession : w'.model.session = .signedIn account) :
    ∃ id, (id, .sessionProbed (.ok account)) ∈ w'.answered := by
  have hstays : w.model.session = .signedIn account →
      ∃ id, (id, .sessionProbed (.ok account)) ∈ w'.answered := fun hbefore =>
    (hknown.session account hbefore).imp fun _ => h.still_answered
  have hmove := w.model.update_dataMove msg now
  rw [← h.model] at hmove
  cases hmove with
  | keep _ hsignedIn _ => exact hstays (hsignedIn account hsession)
  | wipe _ _ hout => simp [hout] at hsession
  | name named hmsg hnamed _ _ =>
      rw [← SessionState.signedIn.inj (hnamed.symm.trans hsession), ← hmsg]
      exact h.new (by rw [hmsg]; rfl)
  | list _ _ hsame _ _ _ _ => exact hstays (hsame ▸ hsession)
  | cache _ _ hsame _ _ _ _ _ _ => exact hstays (hsame ▸ hsession)
  | use _ _ _ _ hsame _ _ => exact hstays (hsame ▸ hsession)

theorem Known.warning_handled (hknown : w.Known) (h : Handled w source msg now w') {text : String}
    (hwarning : w'.model.cliWarning = some text) :
    ∃ id found, (id, .versionProbed (.ok found)) ∈ w'.answered ∧
      versionWarning found = some text := by
  rw [h.model, Model.update_cliWarning] at hwarning
  unfold Model.warningAfter at hwarning
  split at hwarning
  next found =>
    obtain ⟨id, hanswered⟩ := h.new rfl
    exact ⟨id, found, hanswered, hwarning⟩
  next => simp at hwarning
  next =>
    obtain ⟨id, found, hanswered, hfound⟩ := hknown.warning text hwarning
    exact ⟨id, found, h.still_answered hanswered, hfound⟩

theorem Known.items_handled (hknown : w.Known) (h : Handled w source msg now w') {item : ItemSummary}
    (hmem : item ∈ w'.model.data.items) :
    (∃ id file, (id, .cacheLoaded (some file)) ∈ w'.answered ∧ item ∈ file.items) ∨
      ∃ id listing, (id, .dataLoaded listing) ∈ w'.answered ∧ item ∈ listing.items := by
  have hstays : w'.model.data.items = w.model.data.items →
      (∃ id file, (id, .cacheLoaded (some file)) ∈ w'.answered ∧ item ∈ file.items) ∨
        ∃ id listing, (id, .dataLoaded listing) ∈ w'.answered ∧ item ∈ listing.items := fun hsame =>
    (hknown.items item (hsame ▸ hmem)).imp
      (fun ⟨id, file, hanswered, hitem⟩ => ⟨id, file, h.still_answered hanswered, hitem⟩)
      fun ⟨id, listing, hanswered, hitem⟩ => ⟨id, listing, h.still_answered hanswered, hitem⟩
  have hmove := w.model.update_dataMove msg now
  rw [← h.model] at hmove
  cases hmove with
  | keep hsame _ _ => exact hstays hsame.2.1
  | wipe hwiped _ _ => simp [hwiped.items] at hmem
  | name named _ _ _ hdata =>
      split at hdata
      next => simp [hdata.items] at hmem
      next => exact hstays hdata.items
  | list listing hmsg _ _ hitems _ _ =>
      subst hmsg
      obtain ⟨id, hanswered⟩ := h.new rfl
      exact Or.inr ⟨id, listing, hanswered, hitems ▸ hmem⟩
  | cache file hmsg _ _ _ _ hitems _ _ =>
      subst hmsg
      obtain ⟨id, hanswered⟩ := h.new rfl
      exact Or.inl ⟨id, file, hanswered, hitems ▸ hmem⟩
  | use _ _ _ _ _ hdata _ => exact hstays hdata.2.1

theorem Known.copied_handled (hknown : w.Known) (h : Handled w source msg now w') {n : Nat}
    {value : SecretString} {secret : Bool} (hcopy : w'.Asked n (.copy value secret)) :
    ∃ id key, (id, .copyFetched key (.ok value)) ∈ w'.answered := by
  obtain ⟨copy, hcopy, heffect⟩ := hcopy
  rcases h.flight_cases hcopy with hold | ⟨-, hnew, -, -⟩
  · obtain ⟨id, key, hanswered⟩ := hknown.copied n value secret ⟨copy, hold, heffect⟩
    exact ⟨id, key, h.still_answered hanswered⟩
  · obtain ⟨fetch, -, -, hmsg⟩ := copy_of_mem_update (heffect ▸ List.mem_of_getElem? hnew)
    subst hmsg
    obtain ⟨id, hanswered⟩ := h.new rfl
    exact ⟨id, fetch.key, hanswered⟩

theorem known_of_reach (h : system.Reach guard w) : w.Known := by
  refine invariant_of_handled ?_ ?_ ?_ h
  · intro prefs account
    refine ⟨?_, ?_, ?_, ?_⟩ <;> simp [World.start, Model.new, Asked]
  · rintro w w' hquiet ⟨hsession, hwarning, hitems, hcopied⟩
    refine ⟨?_, ?_, ?_, ?_⟩ <;>
      simpa only [Asked, hquiet.model, hquiet.flights, hquiet.answered]
  · intro w w' source msg now _ _ hhandled _ _ hknown
    exact ⟨fun _ => hknown.session_handled hhandled, fun _ => hknown.warning_handled hhandled,
      fun _ => hknown.items_handled hhandled, fun _ _ _ => hknown.copied_handled hhandled⟩

/-- **Nothing but what `pass-cli` printed.** In every run in which the effects for it are answered with
what it printed, and the field list is entered from the list of items: who is signed in, what warning
of its version there is, each item not out of a cache file, each value put on the clipboard, and each
value and code revealed were printed by the call that an effect of the run made for them. -/
theorem known_was_printed
    (h : system.Reach (fun w e => fromList w e ∧ w.answeredBy calls readJson e) w) :
    w.Printed calls readJson := by
  have hconsistent := consistent_of_reach h
  have hknown := known_of_reach h
  have hbooks := revealBooks_of_reach (fun _ _ hok => hok.1) h
  have htruthful := truthful_of_reach (fun _ _ hok => hok.2) h
  -- What has been handled was resolved, and so printed.
  have htold : ∀ id msg, (id, msg) ∈ w.answered →
      ∃ effect, w.Asked id effect ∧ PassCli.Tells (calls id) readJson effect msg :=
    fun id msg hmem => htruthful id msg (hconsistent.answered id msg hmem)
  refine ⟨fun account hsession => ?_, fun text hwarning => ?_, fun item hmem => ?_,
    fun n value secret hcopy => ?_, fun target value hrevealed => ?_,
    fun shown fetching hrevealed => ?_⟩
  · obtain ⟨id, hanswered⟩ := hknown.session account hsession
    obtain ⟨effect, hasked, rfl, hprinted⟩ := htold id _ hanswered
    exact ⟨id, hasked, hprinted.symm⟩
  · obtain ⟨id, found, hanswered, hfound⟩ := hknown.warning text hwarning
    obtain ⟨effect, hasked, rfl, hprinted⟩ := htold id _ hanswered
    exact ⟨id, found, hasked, hprinted.symm, hfound⟩
  · refine (hknown.items item hmem).imp_right ?_
    rintro ⟨id, listing, hanswered, hitem⟩
    obtain ⟨effect, hasked, rfl, hreturned⟩ := htold id _ hanswered
    obtain ⟨vault, -, out, entries, entry, hcall, hread, hentry, hlisted⟩ :=
      (ListAll.returned_of_reach hreturned).2.2 listing rfl item hitem
    exact ⟨id, vault, out, entries, entry, hasked, hcall, hread, hentry, hlisted⟩
  · obtain ⟨id, key, hanswered⟩ := hknown.copied n value secret hcopy
    obtain ⟨effect, hasked, htells⟩ := htold id _ hanswered
    refine ⟨id, effect, hasked, ?_⟩
    rcases htells with ⟨field, flag, cancel, rfl, hprinted⟩ | ⟨field, cancel, rfl, hprinted⟩
    · rw [copiedValue, ← hprinted]
      rfl
    · rw [copiedValue, ← hprinted]
      rfl
  · obtain ⟨-, id, cancel, ⟨flight, item, hflight, heffect, -⟩, -, hvalue⟩ :=
      hbooks.field target _ hrevealed
    obtain ⟨effect, ⟨flight', hflight', rfl⟩, field, cancel', hfetch, hprinted⟩ :=
      htold id _ (hvalue value rfl).2
    obtain rfl := Option.some.inj (hflight.symm.trans hflight')
    obtain ⟨-, rfl, -, -, -⟩ := Effect.fetchReveal.inj (heffect.symm.trans hfetch)
    exact ⟨id, cancel, ⟨flight, hflight, heffect⟩, hprinted.symm⟩
  · obtain ⟨key, selected, hmode, -, hcode⟩ := hbooks.totp _ _ hrevealed
    obtain ⟨id, -, codes, -, hmem, hshown⟩ := hcode shown rfl
    obtain ⟨effect, hasked, cancel, rfl, hprinted⟩ := htold id _ hmem
    exact ⟨key, selected, id, cancel, codes, hmode, hasked, hprinted.symm, hshown⟩

end Runs

section Examples

attribute [local instance] plainText

def infoText : List UInt8 := "\x7b\"id\":\"ada\"\x7d".toUTF8.data.toList

def readInfo (bytes : List UInt8) : Option Json :=
  if bytes = infoText then some (.object [("id", .string "ada")]) else none

/-- Ada is signed in, and the password of her login is `hunter2`. -/
def adaCalls (_ : Nat) (argv : List String) : Except PassError Output :=
  if argv = Argv.info then .ok { stdout := infoText }
  else if argv = Argv.itemView mailLogin.key "password" then
    .ok { stdout := ("hunter2" ++ "\n").toUTF8.data.toList }
  else .error .fieldMissing

theorem adaCalls_account (id : Nat) : PassCli.account (adaCalls id) readInfo = .ok ada := rfl

theorem adaCalls_getField (id : Nat) :
    PassCli.getField (adaCalls id) mailLogin.key "password" = .ok ⟨"hunter2"⟩ := by
  have hcall : adaCalls id (Argv.itemView mailLogin.key "password") =
      .ok { stdout := ("hunter2" ++ "\n").toUTF8.data.toList } := rfl
  rw [PassCli.getField, hcall]
  simp only [Except.bind, Array.toArray_toList]
  rw [parseField_toUTF8]
  rfl

/-- The cache file, the account and the password are answered, and nothing else. -/
def adaReplies (w : World) : Event → Bool
  | .resolve id reply => w.flights[id]?.any fun flight =>
      match flight.effect, reply with
      | .loadCache, .cache _ => true
      | .probeSession, .account result => result = .ok ada
      | .fetchAndCopy key field _ _, .field result =>
          key = mailLogin.key ∧ field = "password" ∧ result = .ok ⟨"hunter2"⟩
      | _, _ => false
  | _ => true

theorem answeredBy_of_adaReplies {w : World} {e : Event} (h : w.adaReplies e = true) :
    w.answeredBy adaCalls readInfo e := by
  cases e with
  | resolve id reply =>
      intro flight hflight
      simp only [adaReplies, hflight, Option.any_some] at h
      split at h
      next heffect => simp [heffect, PassCli.Answers]
      next result heffect =>
        rw [heffect, of_decide_eq_true h]
        exact (adaCalls_account id).symm
      next key field _ _ result heffect =>
        obtain ⟨rfl, rfl, rfl⟩ := of_decide_eq_true h
        rw [heffect]
        exact (adaCalls_getField id).symm
      next => simp at h
  | _ => trivial

/-- The login comes out of the cache file, and its password is copied. -/
theorem known_was_printed_ada : ∃ w : World, w.model.session = .signedIn ada ∧
    w.Asked 5 (.copy ⟨"hunter2"⟩ true) ∧ w.Printed adaCalls readInfo := by
  have hrun : ∃ w, system.Reach (fun w e => fromList w e && adaReplies w e) w ∧
      w.model.session = .signedIn ada ∧
      (w.flights[5]?.any fun flight => flight.effect = .copy ⟨"hunter2"⟩ true) := by
    refine TransitionSystem.exists_reach_of_run (start .default (some ada))
      [.send .startup 0, .resolve 0 (.cache (some mailCache)), .deliver 0 0,
        .resolve 2 (.account (.ok ada)), .deliver 2 0, .send .copyPrimary 0,
        .resolve 4 (.field (.ok ⟨"hunter2"⟩)), .deliver 4 0] ⟨_, _, rfl⟩ ?_
    decide
  obtain ⟨w, hreach, hsession, hcopy⟩ := hrun
  obtain ⟨flight, hflight, heffect⟩ := (Option.any_eq_true _ _).mp hcopy
  refine ⟨w, hsession, ⟨flight, hflight, of_decide_eq_true heffect⟩, known_was_printed ?_⟩
  refine hreach.mono fun w e hok => ?_
  obtain ⟨hlist, hreplies⟩ := Bool.and_eq_true_iff.mp hok
  exact ⟨hlist, answeredBy_of_adaReplies hreplies⟩

end Examples

end World

end CosmicPass
