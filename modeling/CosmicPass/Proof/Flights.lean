import CosmicPass.Core.Runs
import CosmicPass.Proof.Tokens
import CosmicPass.Runtime

/-!
# Effects in flight

What every run keeps about the effects asked for: each resolves at most once, with a message its own
call can produce, and is answered at most once. `step_handled` turns one event into either nothing the
reducer sees, or one message handled, from the user or from a named effect; `Handled.unanswered_iff`
says which effects are unanswered afterwards. The invariants about waiting states rest on these two.
-/

namespace CosmicPass

theorem isAnswer_of_execute {effect : Effect} {reply : Reply} {msg : Msg}
    (h : execute effect reply = some msg) : msg.isAnswer = true := by
  unfold execute at h
  split at h <;> simp_all <;> subst h <;> rfl

namespace World

def ResolvedBy (w : World) (id : Nat) (msg : Msg) : Prop :=
  ∃ flight reply, w.flights[id]? = some flight ∧ execute flight.effect reply = some msg ∧
    (reply.isCancelled → w.fetchCancelled flight.effect)

/-- The books of resolved and answered effects are in order. -/
structure Consistent (w : World) : Prop where
  resolved : ∀ id msg, (id, msg) ∈ w.resolved → w.ResolvedBy id msg
  once : ∀ id msg msg', (id, msg) ∈ w.resolved → (id, msg') ∈ w.resolved → msg = msg'
  answered : ∀ id msg, (id, msg) ∈ w.answered → (id, msg) ∈ w.resolved

/-- What the reducer handled: `source` is the effect the message answers, if it answers one. -/
structure Handled [TextSupport] (w : World) (source : Option Nat) (msg : Msg) (now : Int)
    (w' : World) : Prop where
  model : w'.model = (w.model.update msg now).1
  flights : w'.flights = w.flights ++ (w.model.update msg now).2.map fun effect =>
    { effect, asked := w.model, account := w.account }
  resolved : w'.resolved = w.resolved
  answered : w'.answered = (source.toList.map fun id => (id, msg)) ++ w.answered
  account : w'.account = w.account
  user : source = none → msg.isAnswer = false
  answer : ∀ id, source = some id → (id, msg) ∈ w.resolved ∧ w.ResolvedBy id msg ∧
    ∀ msg', (id, msg') ∉ w.answered

/-- Nothing the reducer can see. -/
structure Quiet (w w' : World) : Prop where
  model : w'.model = w.model
  flights : w'.flights = w.flights
  answered : w'.answered = w.answered

theorem Quiet.unanswered_iff {w w' : World} (h : Quiet w w') (id : Nat) (effect : Effect) :
    w'.Unanswered id effect ↔ w.Unanswered id effect := by
  rw [Unanswered, Unanswered, h.flights, h.answered]

theorem fetchCancelled_mono {w w' : World} (hflags : w.model.tokens.Extends w'.model.tokens)
    {effect : Effect} (h : w.fetchCancelled effect) : w'.fetchCancelled effect := by
  unfold fetchCancelled at h ⊢
  cases htoken : effect.token with
  | none => simp [htoken] at h
  | some token =>
      rw [htoken] at h
      simp only [Option.any_some, decide_eq_true_eq] at h ⊢
      exact hflags.cancelled h

theorem ResolvedBy.mono {w w' : World} {id : Nat} {msg : Msg}
    (hflags : w.model.tokens.Extends w'.model.tokens)
    (hflights : ∀ flight, w.flights[id]? = some flight → w'.flights[id]? = some flight)
    (h : w.ResolvedBy id msg) : w'.ResolvedBy id msg := by
  obtain ⟨flight, reply, hflight, hmsg, hcancelled⟩ := h
  exact ⟨flight, reply, hflights flight hflight, hmsg,
    fun hreply => fetchCancelled_mono hflags (hcancelled hreply)⟩

theorem ResolvedBy.lt {w : World} {id : Nat} {msg : Msg} (h : w.ResolvedBy id msg) :
    id < w.flights.length := by
  obtain ⟨flight, _, hflight, _⟩ := h
  exact (List.getElem?_eq_some_iff.mp hflight).1

theorem Consistent.start (prefs : Preferences) (account : Option AccountId) :
    (World.start prefs account).Consistent :=
  ⟨by simp [World.start], by simp [World.start], by simp [World.start]⟩

theorem Consistent.resolve {w : World} (hconsistent : w.Consistent) {id : Nat} {msg : Msg}
    (hresolved : w.ResolvedBy id msg) (hfirst : ∀ msg, (id, msg) ∉ w.resolved) :
    Consistent { w with resolved := (id, msg) :: w.resolved } := by
  refine ⟨?_, ?_, ?_⟩
  · intro other msg' hmem
    rcases List.mem_cons.mp hmem with heq | hold
    · obtain ⟨rfl, rfl⟩ := Prod.mk.injEq .. ▸ heq
      exact hresolved
    · exact hconsistent.resolved other msg' hold
  · intro other msg₁ msg₂ hmem₁ hmem₂
    rcases List.mem_cons.mp hmem₁ with heq₁ | hold₁ <;>
      rcases List.mem_cons.mp hmem₂ with heq₂ | hold₂
    · rw [(Prod.mk.inj heq₁).2, (Prod.mk.inj heq₂).2]
    · exact absurd ((Prod.mk.inj heq₁).1 ▸ hold₂) (hfirst msg₂)
    · exact absurd ((Prod.mk.inj heq₂).1 ▸ hold₁) (hfirst msg₁)
    · exact hconsistent.once other msg₁ msg₂ hold₁ hold₂
  · intro other msg' hmem
    exact List.mem_cons_of_mem _ (hconsistent.answered other msg' hmem)

theorem Consistent.find?_resolved {w : World} (hconsistent : w.Consistent) {id : Nat} {msg : Msg}
    (hmem : (id, msg) ∈ w.resolved) :
    (w.resolved.find? fun done => done.1 = id) = some (id, msg) := by
  have hsome : (w.resolved.find? fun done => done.1 = id).isSome :=
    List.find?_isSome.mpr ⟨(id, msg), hmem, by simp⟩
  obtain ⟨⟨found, msg'⟩, hfind⟩ := Option.isSome_iff_exists.mp hsome
  obtain rfl : found = id := by simpa using List.find?_some hfind
  rw [hfind, hconsistent.once found msg msg' hmem (List.mem_of_find?_eq_some hfind)]

theorem unanswered_iff_lookup {w : World} {id : Nat} {effect : Effect} : w.Unanswered id effect ↔
    (w.flights[id]?.map fun flight => flight.effect) = some effect ∧
      ∀ done ∈ w.answered, done.1 ≠ id := by
  rw [Option.map_eq_some_iff]
  exact and_congr_right fun _ =>
    ⟨fun hopen done hmem hid => hopen done.2 (hid ▸ hmem), fun hopen msg hmem => hopen _ hmem rfl⟩

instance (w : World) (id : Nat) (effect : Effect) : Decidable (w.Unanswered id effect) :=
  decidable_of_iff' _ unanswered_iff_lookup

theorem Unanswered.lt {w : World} {id : Nat} {effect : Effect} (h : w.Unanswered id effect) :
    id < w.flights.length := by
  obtain ⟨⟨flight, hflight, -⟩, -⟩ := h
  exact (List.getElem?_eq_some_iff.mp hflight).1

def issued (w w' : World) : List Effect :=
  (w'.flights.drop w.flights.length).map (·.effect)

def HeldOwned (w : World) : Prop := w.model.held.Owned

section Steps

variable [TextSupport]

variable {w w' : World} {source : Option Nat} {msg : Msg} {now : Int}

namespace Handled

theorem extends_tokens (h : Handled w source msg now w') :
    w.model.tokens.Extends w'.model.tokens := by
  rw [h.model]
  exact (w.model.update_evolves msg now).extends_tokens

theorem source_eq_none (h : Handled w source msg now w') (hanswer : msg.isAnswer = false) :
    source = none := by
  cases hsource : source with
  | none => rfl
  | some id =>
      obtain ⟨-, ⟨flight, reply, -, hexecute, -⟩, -⟩ := h.answer id hsource
      simp [isAnswer_of_execute hexecute] at hanswer

theorem answers_of_isAnswer (h : Handled w source msg now w') (hanswer : msg.isAnswer) :
    ∃ id, source = some id := by
  cases hsource : source with
  | none => simp [h.user hsource] at hanswer
  | some id => exact ⟨id, rfl⟩

theorem executes (h : Handled w source msg now w') {id : Nat} {flight : Flight}
    (hsource : source = some id) (hflight : w.flights[id]? = some flight) :
    ∃ reply, execute flight.effect reply = some msg := by
  obtain ⟨-, ⟨answered, reply, hanswered, hexecute, -⟩, -⟩ := h.answer id hsource
  obtain rfl := Option.some.inj (hflight.symm.trans hanswered)
  exact ⟨reply, hexecute⟩

theorem flights_mono (h : Handled w source msg now w') {id : Nat} {flight : Flight}
    (hflight : w.flights[id]? = some flight) : w'.flights[id]? = some flight := by
  rw [h.flights, List.getElem?_append_left (List.getElem?_eq_some_iff.mp hflight).1]
  exact hflight

theorem flight_cases (h : Handled w source msg now w') {id : Nat} {flight : Flight}
    (hflight : w'.flights[id]? = some flight) :
    w.flights[id]? = some flight ∨
      w.flights.length ≤ id ∧
        (w.model.update msg now).2[id - w.flights.length]? = some flight.effect ∧
        flight.asked = w.model ∧ flight.account = w.account := by
  rw [h.flights, List.getElem?_append] at hflight
  split at hflight
  next => exact Or.inl hflight
  next hge =>
    rw [List.getElem?_map] at hflight
    obtain ⟨effect, heffect, rfl⟩ := Option.map_eq_some_iff.mp hflight
    exact Or.inr ⟨by omega, heffect, rfl, rfl⟩

theorem flight_new (h : Handled w source msg now w') {k : Nat} {effect : Effect}
    (heffect : (w.model.update msg now).2[k]? = some effect) :
    w'.flights[w.flights.length + k]? =
      some { effect, asked := w.model, account := w.account } := by
  rw [h.flights, List.getElem?_append_right (Nat.le_add_right _ _), Nat.add_sub_cancel_left,
    List.getElem?_map, heffect]
  rfl

theorem answered_iff (h : Handled w source msg now w') (id : Nat) (msg' : Msg) :
    (id, msg') ∈ w'.answered ↔ source = some id ∧ msg' = msg ∨ (id, msg') ∈ w.answered := by
  rw [h.answered, List.mem_append]
  cases source with
  | none => simp
  | some answered =>
      simp only [Option.toList_some, List.map_cons, List.map_nil, List.mem_singleton,
        Prod.mk.injEq, Option.some.injEq]
      constructor
      · rintro (⟨rfl, rfl⟩ | hold)
        · exact Or.inl ⟨rfl, rfl⟩
        · exact Or.inr hold
      · rintro (⟨rfl, rfl⟩ | hold)
        · exact Or.inl ⟨rfl, rfl⟩
        · exact Or.inr hold

theorem still_answered (h : Handled w source msg now w') {id : Nat} {msg' : Msg}
    (hmem : (id, msg') ∈ w.answered) : (id, msg') ∈ w'.answered :=
  (h.answered_iff _ _).mpr (Or.inr hmem)

theorem now_answered (h : Handled w source msg now w') {id : Nat} (hsource : source = some id) :
    (id, msg) ∈ w'.answered :=
  (h.answered_iff _ _).mpr (Or.inl ⟨hsource, rfl⟩)

/-- **Which effects are unanswered after a message.** The one it answered no longer is; the ones it
asked for are. -/
theorem unanswered_iff (h : Handled w source msg now w') (hconsistent : w.Consistent) (id : Nat)
    (effect : Effect) :
    w'.Unanswered id effect ↔
      source ≠ some id ∧ w.Unanswered id effect ∨
        w.flights.length ≤ id ∧
          (w.model.update msg now).2[id - w.flights.length]? = some effect := by
  have hknown : ∀ {id msg}, (id, msg) ∈ w.resolved → id < w.flights.length :=
    fun hmem => (hconsistent.resolved _ _ hmem).lt
  constructor
  · rintro ⟨⟨flight, hflight, rfl⟩, hopen⟩
    rcases h.flight_cases hflight with hold | ⟨hge, hnew, -⟩
    · refine Or.inl ⟨?_, ⟨flight, hold, rfl⟩, ?_⟩
      · intro hsource
        exact hopen msg (h.now_answered hsource)
      · intro msg' hanswered
        exact hopen msg' (h.still_answered hanswered)
    · exact Or.inr ⟨hge, hnew⟩
  · rintro (⟨hsource, ⟨flight, hflight, rfl⟩, hopen⟩ | ⟨hge, hnew⟩)
    · refine ⟨⟨flight, h.flights_mono hflight, rfl⟩, fun msg' hanswered => ?_⟩
      rcases (h.answered_iff _ _).mp hanswered with ⟨heq, -⟩ | hold
      · exact hsource heq
      · exact hopen msg' hold
    · have hflight := h.flight_new hnew
      rw [Nat.add_sub_cancel' hge] at hflight
      refine ⟨⟨_, hflight, rfl⟩, fun msg' hanswered => ?_⟩
      · rcases (h.answered_iff _ _).mp hanswered with ⟨heq, -⟩ | hold
        · have := hknown (h.answer id heq).1
          omega
        · have := hknown (hconsistent.answered _ _ hold)
          omega

theorem issued_eq (h : Handled w source msg now w') :
    w.issued w' = (w.model.update msg now).2 := by
  rw [issued, h.flights, List.drop_left, List.map_map]
  exact List.map_id _

theorem consistent (h : Handled w source msg now w') (hconsistent : w.Consistent) :
    w'.Consistent := by
  refine ⟨?_, ?_, ?_⟩
  · intro id msg' hmem
    rw [h.resolved] at hmem
    exact (hconsistent.resolved id msg' hmem).mono h.extends_tokens fun _ => h.flights_mono
  · rw [h.resolved]
    exact hconsistent.once
  · intro id msg' hmem
    rw [h.resolved]
    rcases (h.answered_iff _ _).mp hmem with ⟨heq, rfl⟩ | hold
    · exact (h.answer id heq).1
    · exact hconsistent.answered id msg' hold

end Handled

/-- A message of the user is handled at once. -/
theorem feed_handled (huser : msg.isAnswer = false) : Handled w none msg now (w.feed msg now) where
  model := rfl
  flights := rfl
  resolved := rfl
  answered := rfl
  account := rfl
  user _ := huser
  answer _ hsource := by cases hsource

theorem deliver_handled {id : Nat} (hconsistent : w.Consistent)
    (h : w.step (.deliver id now) = some w') :
    ∃ msg, (id, msg) ∈ w.resolved ∧ Handled w (some id) msg now w' := by
  rcases step_cases h with ⟨_, _, hevent, -⟩ | ⟨_, _, _, _, hevent, -⟩ |
    ⟨_, _, msg, hevent, hmem, hopen, rfl⟩ | ⟨_, hevent, -⟩
  · cases hevent
  · cases hevent
  · obtain ⟨rfl, rfl⟩ := Event.deliver.inj hevent
    refine ⟨msg, hmem, rfl, rfl, rfl, rfl, rfl, by simp, ?_⟩
    rintro _ ⟨⟩
    exact ⟨hmem, hconsistent.resolved _ _ hmem, hopen⟩
  · cases hevent

/-- **What one event means to the reducer.** Nothing, or one message handled; the books stay in
order. -/
theorem step_handled {e : Event} (hconsistent : w.Consistent) (h : w.step e = some w') :
    w'.Consistent ∧ (Quiet w w' ∨ ∃ source msg now, Handled w source msg now w' ∧
      (e = .send msg now ∧ source = none ∨ ∃ id, e = .deliver id now ∧ source = some id)) := by
  rcases step_cases h with ⟨msg, now, rfl, huser, rfl⟩ | ⟨id, reply, flight, msg, rfl, hflight, hmsg,
    hfirst, hcancelled, rfl⟩ | ⟨id, now, msg, rfl, hmem, hopen, rfl⟩ | ⟨account, -, rfl⟩
  · have hhandled : Handled w none msg now (w.feed msg now) := feed_handled huser
    exact ⟨hhandled.consistent hconsistent, Or.inr ⟨_, _, _, hhandled, Or.inl ⟨rfl, rfl⟩⟩⟩
  · exact ⟨hconsistent.resolve ⟨flight, reply, hflight, hmsg, hcancelled⟩ hfirst,
      Or.inl ⟨rfl, rfl, rfl⟩⟩
  · obtain ⟨msg', -, hhandled⟩ := deliver_handled hconsistent h
    exact ⟨hhandled.consistent hconsistent,
      Or.inr ⟨_, _, _, hhandled, Or.inr ⟨id, rfl, rfl⟩⟩⟩
  · exact ⟨⟨hconsistent.resolved, hconsistent.once, hconsistent.answered⟩, Or.inl ⟨rfl, rfl, rfl⟩⟩

/-- **Which event it was.** A message sent or delivered is handled; of the other events the reducer sees
nothing. -/
theorem event_cases {e : Event} (hconsistent : w.Consistent) (h : w.step e = some w') :
    (∃ msg now, e = .send msg now ∧ Handled w none msg now w') ∨
      (∃ id msg now, e = .deliver id now ∧ (id, msg) ∈ w.resolved ∧ Handled w (some id) msg now w') ∨
      ((∃ id reply, e = .resolve id reply) ∨ ∃ account, e = .switchAccount account) ∧ Quiet w w' := by
  rcases step_cases h with ⟨msg, now, rfl, huser, rfl⟩ | ⟨id, reply, _, _, rfl, -, -, -, -, rfl⟩ |
    ⟨id, now, _, rfl, -, -, -⟩ | ⟨account, rfl, rfl⟩
  · exact Or.inl ⟨msg, now, rfl, feed_handled huser⟩
  · exact Or.inr (Or.inr ⟨Or.inl ⟨id, reply, rfl⟩, ⟨rfl, rfl, rfl⟩⟩)
  · obtain ⟨msg, hmem, hhandled⟩ := deliver_handled hconsistent h
    exact Or.inr (Or.inl ⟨id, msg, now, rfl, hmem, hhandled⟩)
  · exact Or.inr (Or.inr ⟨Or.inr ⟨account, rfl⟩, ⟨rfl, rfl, rfl⟩⟩)

variable {guard : World → Event → Prop}

theorem consistent_of_reach (h : system.Reach guard w) : w.Consistent := by
  induction h with
  | start hinit =>
      obtain ⟨prefs, account, rfl⟩ := hinit
      exact .start prefs account
  | next _ _ hstep ih => exact (step_handled ih hstep).1

/-- **The invariant rule for what the reducer sees.** An invariant that holds when nothing has
happened, that events the reducer does not see keep, and that every message handled keeps, holds of
every world reached. -/
theorem invariant_of_handled {Inv : World → Prop}
    (hstart : ∀ prefs account, Inv (World.start prefs account))
    (hquiet : ∀ w w', Quiet w w' → Inv w → Inv w')
    (hhandled : ∀ w w' source msg now, system.Reach guard w → w.Consistent →
      Handled w source msg now w' →
      (source = none → guard w (.send msg now)) → (∀ id, source = some id → guard w (.deliver id now)) →
      Inv w → Inv w')
    (h : system.Reach guard w) : Inv w := by
  apply h.invariant
  · rintro _ ⟨prefs, account, rfl⟩
    exact hstart prefs account
  · intro w e w' hreach hguard hstep hinv
    have hconsistent := consistent_of_reach hreach
    rcases (step_handled hconsistent hstep).2 with hsame | ⟨source, msg, now, hmsg, hevent⟩
    · exact hquiet w w' hsame hinv
    · refine hhandled w w' source msg now hreach hconsistent hmsg ?_ ?_ hinv
      · rintro rfl
        rcases hevent with ⟨rfl, -⟩ | ⟨_, -, hsource⟩
        · exact hguard
        · exact absurd hsource (by simp)
      · rintro id rfl
        rcases hevent with ⟨-, hsource⟩ | ⟨id', rfl, hsource⟩
        · exact absurd hsource (by simp)
        · rwa [Option.some.inj hsource]

/-- The reducer's own run in a run of the application. -/
theorem model_reach (h : system.Reach guard w) :
    Model.system.Reach TransitionSystem.anyStep w.model := by
  refine @invariant_of_handled _ w guard
    (fun w => Model.system.Reach TransitionSystem.anyStep w.model) ?_ ?_ ?_ h
  · intro prefs account
    exact .start ⟨prefs, rfl⟩
  · intro w w' hquiet hreach
    rwa [hquiet.model]
  · intro w w' source msg now _ _ hhandled _ _ hreach
    rw [hhandled.model]
    exact .next hreach trivial (e := (msg, now)) rfl

theorem owned_of_reach (h : system.Reach guard w) : w.HeldOwned := by
  refine invariant_of_handled ?_ ?_ ?_ h
  · intro prefs account
    refine ⟨?_, ?_, ?_⟩ <;> simp [World.start, Model.new, Model.held, Held.list, Tokens.none]
  · intro w w' hquiet howned
    rwa [HeldOwned, hquiet.model]
  · intro w w' source msg now _ _ hhandled _ _ howned
    rw [HeldOwned, hhandled.model]
    exact (w.model.update_evolves msg now).owned howned

end Steps

/-!
### Runs by evaluation

A matcher for runs whose queries are empty, one login, and the listing and the cache file it comes in.
-/

/-- Finds no fragment in a query and leaves text as it is; the runs below only have empty queries and
lower-case ASCII text. -/
abbrev plainText : TextSupport where
  Atom := Empty
  patternAtoms _ := []
  score _ _ := none
  indices _ _ := none
  toLowercase text := text
  toUppercase text := text

def mailLogin : ItemSummary :=
  { key := ⟨⟨"share"⟩, ⟨"mail"⟩⟩
    vaultName := "personal"
    kind := .login
    title := "mail"
    username := some "me"
    email := none
    subtitle := some "me"
    urls := []
    totpFields := ["totp_uri"]
    fields := [.plain "username" "Username" "me", .secretField "password" "Password"]
    modifiedAt := 0 }

/-- What an earlier session wrote: the login, used once. -/
def mailCache : CacheFile :=
  { formatVersion := cacheFormatVersion
    account := ⟨"ada"⟩
    fetchedAt := 0
    vaults := []
    items := [mailLogin]
    usage := [{ key := mailLogin.key, lastUsed := 1, count := 1 }] }

/-- A first refresh that lists the login: effect 0, and effect 1 saves it. -/
def listMailLogin : List Event :=
  [.send .refreshRequested 0,
    .resolve 0 (.listing (.ok { vaults := [], items := [mailLogin] })), .deliver 0 0]

/-- A fetch whose token was cancelled before it resolved reports that it was. -/
def prompt (w : World) : Event → Bool
  | .resolve id reply =>
      (w.flights[id]?.any fun flight => w.fetchCancelled flight.effect) → reply.isCancelled
  | _ => true

end World

end CosmicPass
