import CosmicPass.Library.Interleaving
import CosmicPass.Pass.Runner
import CosmicPass.Pass.Streaming
import CosmicPass.Proof.Flights

/-!
# What the stream of a sign-in yields

Both outputs of the child pass through one channel. What is on its way at any time (yielded, queued,
in hand) is an interleaving of what has been read off the two pipes, so no line is lost, repeated,
or moved before an earlier line of the same output; only a line in hand when time runs out is
dropped. The result is yielded once, after every line; and the task only ever waits for the child,
never for itself.
-/

namespace CosmicPass

open Interleaving

/-! ### One pipe -/

namespace OutputPipe

variable {pipe pipe' : OutputPipe} {lines : List String} {line : String}

/-- These lines have been read off the pipe, up to its end or a line that is not text if it is done.
-/
structure Reads (pipe : OutputPipe) (lines : List String) : Prop where
  taken : pipe.printed.take pipe.taken = lines.map some
  le : pipe.taken ≤ pipe.printed.length
  done : pipe.done = true → pipe.printed[pipe.taken]? = some none ∨
    pipe.closed = true ∧ pipe.taken = pipe.printed.length

theorem nextLine_cases {read : Option String} (h : pipe.nextLine = some (read, pipe')) :
    pipe.done = false ∧
      ((∃ line, read = some line ∧ pipe.printed[pipe.taken]? = some (some line) ∧
          pipe' = { pipe with taken := pipe.taken + 1 }) ∨
        read = none ∧ pipe' = { pipe with done := true } ∧
          (pipe.printed[pipe.taken]? = some none ∨
            pipe.closed = true ∧ pipe.printed.length ≤ pipe.taken)) := by
  unfold nextLine at h
  split at h
  next => simp at h
  next hdone =>
    refine ⟨by simpa using hdone, ?_⟩
    split at h
    next line hline =>
      obtain ⟨rfl, rfl⟩ := Prod.mk.inj (Option.some.inj h)
      exact Or.inl ⟨line, rfl, hline, rfl⟩
    next hbad =>
      obtain ⟨rfl, rfl⟩ := Prod.mk.inj (Option.some.inj h)
      exact Or.inr ⟨rfl, rfl, Or.inl hbad⟩
    next hend =>
      split at h
      next hclosed =>
        obtain ⟨rfl, rfl⟩ := Prod.mk.inj (Option.some.inj h)
        exact Or.inr ⟨rfl, rfl, Or.inr ⟨hclosed, List.getElem?_eq_none_iff.mp hend⟩⟩
      next => simp at h

namespace Reads

theorem new : OutputPipe.new.Reads [] := ⟨rfl, le_rfl, by simp [OutputPipe.new]⟩

theorem advance (h : pipe.Reads lines) (hdone : pipe.done = false)
    (hline : pipe.printed[pipe.taken]? = some (some line)) :
    Reads { pipe with taken := pipe.taken + 1 } (lines ++ [line]) := by
  refine ⟨?_, ?_, fun hd => by simp [hdone] at hd⟩
  · dsimp only
    rw [List.take_add_one, hline, h.taken]
    simp
  · exact (List.getElem?_eq_some_iff.mp hline).1

theorem finished (h : pipe.Reads lines) (hend : pipe.printed[pipe.taken]? = some none ∨
    pipe.closed = true ∧ pipe.printed.length ≤ pipe.taken) :
    Reads { pipe with done := true } lines :=
  ⟨h.taken, h.le, fun _ => hend.imp_right fun hclosed => ⟨hclosed.1, le_antisymm h.le hclosed.2⟩⟩

theorem print (h : pipe.Reads lines) {printed : Option String} (hopen : pipe.closed = false) :
    Reads { pipe with printed := pipe.printed ++ [printed] } lines := by
  refine ⟨?_, ?_, fun hdone => Or.inl ?_⟩
  · dsimp only
    rw [List.take_append_of_le_length h.le, h.taken]
  · simpa using Nat.le_succ_of_le h.le
  · rcases h.done hdone with hbad | ⟨hclosed, -⟩
    · rw [List.getElem?_append_left (List.getElem?_eq_some_iff.mp hbad).1]
      exact hbad
    · simp [hopen] at hclosed

theorem close (h : pipe.Reads lines) : Reads { pipe with closed := true } lines :=
  ⟨h.taken, h.le, fun hdone => (h.done hdone).imp_right fun hclosed => ⟨rfl, hclosed.2⟩⟩

theorem readable_of_done (h : pipe.Reads lines) (hdone : pipe.done = true) :
    pipe.printed.readable = lines := by
  have hsplit := List.take_append_drop pipe.taken pipe.printed
  rw [h.taken] at hsplit
  rcases h.done hdone with hbad | ⟨-, hall⟩
  · rw [List.drop_eq_getElem?_toList_append, hbad] at hsplit
    rw [← hsplit]
    exact List.readable_map_some_append_none lines _
  · rw [hall, List.drop_length, List.append_nil] at hsplit
    rw [← hsplit, List.readable_map_some]

end Reads

end OutputPipe

/-! ### The flow -/

/-- The line read and not yet in the channel. -/
def Reader.inHand : Reader → List String
  | .sending line => [line]
  | _ => []

/-- The lines still to be read, and the end of the pipe. -/
def OutputPipe.work (pipe : OutputPipe) : Nat :=
  3 * (pipe.printed.length - pipe.taken) + (!pipe.done).toNat

def Reader.work : Reader → Nat
  | .spawning | .returned _ => 0
  | .selecting | .waiting => 1
  | .sending _ => 3

def stderrText (lines : List String) : String :=
  lines.foldl (fun text line => text ++ line ++ "\n") ""

namespace LoginFlow

section Pipes

variable (s : LoginFlow) (source : OutputSource) (pipe : OutputPipe)

theorem pipe_setPipe (other : OutputSource) :
    (s.setPipe source pipe).pipe other = if source = other then pipe else s.pipe other := by
  cases source <;> cases other <;> rfl

@[simp] theorem setPipe_child : (s.setPipe source pipe).child = s.child := by cases source <;> rfl

@[simp] theorem setPipe_reader : (s.setPipe source pipe).reader = s.reader := by cases source <;> rfl

@[simp] theorem setPipe_errText : (s.setPipe source pipe).errText = s.errText := by
  cases source <;> rfl

@[simp] theorem setPipe_channel : (s.setPipe source pipe).channel = s.channel := by
  cases source <;> rfl

@[simp] theorem setPipe_yielded : (s.setPipe source pipe).yielded = s.yielded := by
  cases source <;> rfl

end Pipes

section Runs

variable [TextSupport] {s s' : LoginFlow} {merged : List (OutputSource × String)}
  {received dropped : List String} {final : Option (Except PassError Unit)}

/-- Both pipes have been read to their end. -/
def ended (s : LoginFlow) : Bool := s.out.done && s.err.done

/-- How the task came to its result: `child` and `ended` are as it left them. -/
inductive Outcome (merged : List (OutputSource × String)) (dropped : List String) :
    Child → Bool → Except PassError Unit → Prop
  | unstarted (kind : ErrorKind) (ended : Bool) (nothing : merged = []) (kept : dropped = []) :
      Outcome merged dropped .unborn ended (.error (classify { spawnError := some kind }))
  | finished (success : Bool) (kept : dropped = []) :
      Outcome merged dropped (.exited success) true
        (if success then .ok ()
        else .error (classify { stderr := stderrText (ofStream .stderr merged) }))
  | abandoned (error : PassError) (ended : Bool) (atMost : dropped.length ≤ 1) :
      Outcome merged dropped .killed ended (.error error)

/-- Where the task is, and what that says of the child and of its pipes. -/
def Placed (merged : List (OutputSource × String)) (dropped : List String) (child : Child)
    (ended : Bool) : Reader → Prop
  | .spawning => child = .unborn ∧ ended = false ∧ merged = [] ∧ dropped = []
  | .selecting | .sending _ => child ≠ .unborn ∧ child ≠ .killed ∧ ended = false ∧ dropped = []
  | .waiting => child ≠ .unborn ∧ child ≠ .killed ∧ ended = true ∧ dropped = []
  | .returned result => Outcome merged dropped child ended result

/-- What has been read, and where each line of it is. -/
structure Relays (s : LoginFlow) (merged : List (OutputSource × String))
    (received dropped : List String) (final : Option (Except PassError Unit)) : Prop where
  reads : ∀ source, (s.pipe source).Reads (ofStream source merged)
  errText : s.errText = stderrText (ofStream .stderr merged)
  lines : received ++ s.channel ++ s.reader.inHand ++ dropped = merged.map Prod.snd
  yielded : s.yielded = received.map .loginLine ++ final.toList.map .loginFinished
  reported : ∀ result, final = some result → s.reader = .returned result ∧ s.channel = []
  placed : Placed merged dropped s.child s.ended s.reader

omit [TextSupport] in
theorem ended_setPipe {source : OutputSource} {pipe : OutputPipe}
    (hdone : pipe.done = (s.pipe source).done) : (s.setPipe source pipe).ended = s.ended := by
  cases source <;> simp [ended, setPipe, hdone, LoginFlow.pipe]

/-- The end of one pipe: the task goes on with the other one, or waits for the child. -/
theorem loop_placed (hborn : s.child ≠ .unborn) (halive : s.child ≠ .killed) :
    Placed merged [] s.loop.child s.loop.ended s.loop.reader := by
  have hended : s.loop.ended = s.ended := rfl
  rw [hended, loop, ended]
  by_cases hdone : s.out.done ∧ s.err.done
  · rw [if_pos hdone]
    exact ⟨hborn, halive, by simp [hdone], rfl⟩
  · rw [if_neg hdone]
    exact ⟨hborn, halive, by simpa using hdone, rfl⟩

namespace Relays

theorem new : LoginFlow.new.Relays [] [] [] none where
  reads source := by cases source <;> exact .new
  errText := rfl
  lines := rfl
  yielded := rfl
  reported := by simp
  placed := ⟨rfl, rfl, rfl, rfl⟩

/-- A result is reported by a task that has returned. -/
theorem final_eq_none (h : s.Relays merged received dropped final)
    (hreader : ∀ result, s.reader ≠ .returned result) : final = none := by
  cases hfinal : final with
  | none => rfl
  | some result => exact absurd (h.reported result hfinal).1 (hreader result)

/-- The child prints, or closes a pipe; the pipe is still read as it was. -/
theorem setPipe (h : s.Relays merged received dropped final) {source : OutputSource}
    {pipe : OutputPipe} (hreads : ∀ lines, (s.pipe source).Reads lines → pipe.Reads lines)
    (hdone : pipe.done = (s.pipe source).done) :
    (s.setPipe source pipe).Relays merged received dropped final where
  reads other := by
    rw [pipe_setPipe]
    split
    next heq => exact heq ▸ hreads _ (h.reads source)
    next => exact h.reads other
  errText := by simpa using h.errText
  lines := by simpa using h.lines
  yielded := by simpa using h.yielded
  reported := by simpa using h.reported
  placed := by simpa [ended_setPipe hdone] using h.placed

/-- A line read is in hand. -/
theorem readLine (h : s.Relays merged received dropped final) (hreader : s.reader = .selecting)
    {source : OutputSource} {line : String} (hdone : (s.pipe source).done = false)
    (hline : (s.pipe source).printed[(s.pipe source).taken]? = some (some line)) :
    let read := s.setPipe source { s.pipe source with taken := (s.pipe source).taken + 1 }
    Relays { read with errText := read.errTextAfter line source, reader := .sending line }
      (merged ++ [(source, line)]) received dropped final where
  reads other := by
    change ((s.setPipe source _).pipe other).Reads _
    rw [pipe_setPipe, ofStream_concat]
    split
    next heq => exact heq ▸ (h.reads source).advance hdone hline
    next => simpa using h.reads other
  errText := by
    dsimp only
    rw [ofStream_concat]
    cases source <;> simp [errTextAfter, h.errText, stderrText]
  lines := by
    have hlines := h.lines
    have hplaced := h.placed
    rw [hreader] at hlines hplaced
    obtain ⟨-, -, -, rfl⟩ := hplaced
    simp only [Reader.inHand, List.append_nil] at hlines
    simp [Reader.inHand, ← hlines]
  yielded := by simpa using h.yielded
  reported result hfinal := by
    rw [h.final_eq_none (by simp [hreader])] at hfinal
    simp at hfinal
  placed := by
    have hplaced := h.placed
    have hended : (s.setPipe source
      { s.pipe source with taken := (s.pipe source).taken + 1 }).ended = s.ended :=
      ended_setPipe rfl
    rw [hreader, ← hended, ← s.setPipe_child source
      { s.pipe source with taken := (s.pipe source).taken + 1 }] at hplaced
    exact hplaced

/-- A pipe comes to its end. -/
theorem readEnd (h : s.Relays merged received dropped final) (hreader : s.reader = .selecting)
    {source : OutputSource}
    (hend : (s.pipe source).printed[(s.pipe source).taken]? = some none ∨
      (s.pipe source).closed = true ∧ (s.pipe source).printed.length ≤ (s.pipe source).taken) :
    Relays (s.setPipe source { s.pipe source with done := true }).loop merged received dropped
      final where
  reads other := by
    change ((s.setPipe source _).pipe other).Reads _
    rw [pipe_setPipe]
    split
    next heq => exact heq ▸ (h.reads source).finished hend
    next => exact h.reads other
  errText := by simpa [loop] using h.errText
  lines := by
    have hlines := h.lines
    rw [hreader] at hlines
    simp only [loop, setPipe_channel]
    split <;> exact hlines
  yielded := by simpa [loop] using h.yielded
  reported result hfinal := by
    rw [h.final_eq_none (by simp [hreader])] at hfinal
    simp at hfinal
  placed := by
    have hplaced := h.placed
    rw [hreader] at hplaced
    obtain ⟨hborn, halive, -, rfl⟩ := hplaced
    exact loop_placed (by simpa using hborn) (by simpa using halive)

theorem send (h : s.Relays merged received dropped final) {line : String}
    (hreader : s.reader = .sending line) :
    Relays (loop { s with channel := s.channel ++ [line] }) merged received dropped final where
  reads := h.reads
  errText := h.errText
  lines := by
    have hlines := h.lines
    rw [hreader] at hlines
    simp only [loop]
    split <;> simpa [Reader.inHand] using hlines
  yielded := h.yielded
  reported result hfinal := by
    rw [h.final_eq_none (by simp [hreader])] at hfinal
    simp at hfinal
  placed := by
    have hplaced := h.placed
    rw [hreader] at hplaced
    obtain ⟨hborn, halive, -, rfl⟩ := hplaced
    exact loop_placed hborn halive

theorem finish (h : s.Relays merged received dropped final) (hreader : s.reader = .waiting)
    {success : Bool} (hchild : s.child = .exited success) :
    Relays { s with
      warm := true
      reader := .returned
        (if success then .ok () else .error (classify { stderr := s.errText })) }
      merged received dropped final where
  reads := h.reads
  errText := h.errText
  lines := by
    have hlines := h.lines
    rw [hreader] at hlines
    exact hlines
  yielded := h.yielded
  reported result hfinal := by
    rw [h.final_eq_none (by simp [hreader])] at hfinal
    simp at hfinal
  placed := by
    have hplaced := h.placed
    rw [hreader] at hplaced
    obtain ⟨-, -, hended, hkept⟩ := hplaced
    change Outcome merged dropped s.child s.ended _
    rw [hchild, hended, h.errText]
    exact .finished success hkept

/-- What is in hand when the work is dropped is dropped with it. -/
theorem abandon (h : s.Relays merged received [] final)
    (hreader : ∀ result, s.reader ≠ .returned result) (error : PassError) :
    (s.abandon error).Relays merged received s.reader.inHand final where
  reads := h.reads
  errText := h.errText
  lines := by simpa [LoginFlow.abandon, Reader.inHand] using h.lines
  yielded := h.yielded
  reported result hfinal := by
    rw [h.final_eq_none hreader] at hfinal
    simp at hfinal
  placed := .abandoned error _ (by cases s.reader <;> simp [Reader.inHand])

theorem receive (h : s.Relays merged received dropped final) {line : String} {rest : List String}
    (hchannel : s.channel = line :: rest) :
    Relays { s with channel := rest, yielded := s.yielded ++ [.loginLine line] } merged
      (received ++ [line]) dropped final where
  reads := h.reads
  errText := h.errText
  lines := by simpa [hchannel] using h.lines
  yielded := by
    have hnone : final = none := by
      cases hfinal : final with
      | none => rfl
      | some result => simp [(h.reported result hfinal).2] at hchannel
    simp [h.yielded, hnone]
  reported result hfinal := by simp [(h.reported result hfinal).2] at hchannel
  placed := h.placed

theorem report (h : s.Relays merged received dropped none) {result : Except PassError Unit}
    (hreader : s.reader = .returned result) (hchannel : s.channel = []) :
    Relays { s with yielded := s.yielded ++ [.loginFinished result] } merged received dropped
      (some result) where
  reads := h.reads
  errText := h.errText
  lines := h.lines
  yielded := by simp [h.yielded]
  reported other hother := by
    obtain rfl := Option.some.inj hother
    exact ⟨hreader, hchannel⟩
  placed := h.placed

/-- The stream has not reported as long as no result is among its messages. -/
theorem final_of_reported (h : s.Relays merged received dropped final) :
    s.reported = final.isSome := by
  rw [LoginFlow.reported, h.yielded]
  cases final <;> simp

end Relays

/-- The task leaves the spawn behind. -/
theorem Relays.leaveSpawn (h : s.Relays merged received dropped final) (hreader : s.reader = .spawning)
    (child : Child) (reader : Reader) (hhand : reader.inHand = [])
    (hplaced : Placed [] [] child false reader) :
    ∃ received', Relays { s with child, reader } [] received' [] none := by
  have hold := h.placed
  have hlines := h.lines
  rw [hreader] at hold hlines
  obtain ⟨-, hended, rfl, rfl⟩ := hold
  have hnone : final = none := h.final_eq_none (by simp [hreader])
  refine ⟨received, h.reads, h.errText, ?_, ?_, by simp, ?_⟩
  · dsimp only
    rw [hhand]
    simpa [Reader.inHand] using hlines
  · simpa [hnone] using h.yielded
  · change Placed [] [] child s.ended reader
    rwa [hended]

theorem Relays.step_abandon (h : s.Relays merged received dropped final)
    (hworking : s.reader = .selecting ∨ (∃ line, s.reader = .sending line) ∨ s.reader = .waiting)
    (error : PassError) :
    ∃ dropped', (s.abandon error).Relays merged received dropped' final := by
  have hplaced := h.placed
  have hkept : dropped = [] := by
    rcases hworking with hreader | ⟨line, hreader⟩ | hreader <;> rw [hreader] at hplaced <;>
      exact hplaced.2.2.2
  obtain rfl := hkept
  refine ⟨_, h.abandon ?_ error⟩
  rcases hworking with hreader | ⟨line, hreader⟩ | hreader <;> simp [hreader]

/-- **Every step keeps track of every line.** -/
theorem Relays.step (h : s.Relays merged received dropped final) {e : LoginEvent}
    (hstep : s.step e = some s') :
    ∃ merged' received' dropped' final', s'.Relays merged' received' dropped' final' := by
  cases e with
  | spawned =>
      simp only [LoginFlow.step, Option.ite_none_right_eq_some, Option.some.injEq] at hstep
      obtain ⟨hreader, rfl⟩ := hstep
      obtain ⟨received', h'⟩ := h.leaveSpawn hreader .running .selecting rfl
        ⟨by simp, by simp, rfl, rfl⟩
      exact ⟨_, _, _, _, h'⟩
  | spawnFailed kind =>
      simp only [LoginFlow.step, Option.ite_none_right_eq_some, Option.some.injEq] at hstep
      obtain ⟨hreader, rfl⟩ := hstep
      have hplaced := h.placed
      rw [hreader] at hplaced
      obtain ⟨received', h'⟩ := h.leaveSpawn hreader s.child
        (.returned (.error (classify { spawnError := some kind }))) rfl
        (hplaced.1 ▸ .unstarted kind _ rfl rfl)
      exact ⟨_, _, _, _, h'⟩
  | print source line =>
      simp only [LoginFlow.step, Option.ite_none_right_eq_some, OutputPipe.print,
        Option.map_eq_some_iff, Option.ite_none_left_eq_some] at hstep
      obtain ⟨-, pipe, ⟨hopen, hprint⟩, rfl⟩ := hstep
      obtain rfl := Option.some.inj hprint
      exact ⟨_, _, _, _, h.setPipe (fun lines hreads => hreads.print (by simpa using hopen)) rfl⟩
  | close source =>
      simp only [LoginFlow.step, Option.ite_none_right_eq_some, Option.some.injEq] at hstep
      obtain ⟨-, rfl⟩ := hstep
      exact ⟨_, _, _, _, h.setPipe (fun lines hreads => hreads.close) rfl⟩
  | exit success =>
      simp only [LoginFlow.step, Option.ite_none_right_eq_some, Option.some.injEq] at hstep
      obtain ⟨hchild, rfl⟩ := hstep
      refine ⟨merged, received, dropped, final, h.reads, h.errText, h.lines, h.yielded, h.reported, ?_⟩
      have hplaced := h.placed
      change Placed merged dropped (.exited success) s.ended s.reader
      rw [hchild] at hplaced
      cases hreader : s.reader with
      | returned result =>
          rw [hreader] at hplaced
          cases hplaced
      | _ =>
          rw [hreader] at hplaced
          simp_all [Placed]
  | read source =>
      simp only [LoginFlow.step, LoginFlow.read] at hstep
      split at hstep
      next hreader =>
        obtain ⟨⟨line, pipe⟩, hnext, rfl⟩ := Option.map_eq_some_iff.mp hstep
        obtain ⟨hdone, ⟨line, rfl, hline, rfl⟩ | ⟨rfl, rfl, hend⟩⟩ := OutputPipe.nextLine_cases hnext
        · exact ⟨_, _, _, _, h.readLine hreader hdone hline⟩
        · exact ⟨_, _, _, _, h.readEnd hreader hend⟩
      next => simp at hstep
  | send =>
      simp only [LoginFlow.step, LoginFlow.send] at hstep
      split at hstep
      next line hreader =>
        simp only [Option.ite_none_right_eq_some, Option.some.injEq] at hstep
        obtain ⟨-, rfl⟩ := hstep
        exact ⟨_, _, _, _, h.send hreader⟩
      next => simp at hstep
  | finish =>
      simp only [LoginFlow.step, LoginFlow.finish] at hstep
      split at hstep
      next success hreader hchild =>
        obtain rfl := Option.some.inj hstep
        exact ⟨_, _, _, _, h.finish hreader hchild⟩
      next => simp at hstep
  | waitFailed message =>
      simp only [LoginFlow.step, Option.ite_none_right_eq_some, Option.some.injEq] at hstep
      obtain ⟨hreader, rfl⟩ := hstep
      obtain ⟨dropped', h'⟩ := h.step_abandon (Or.inr (Or.inr hreader)) (.cli message)
      exact ⟨_, _, _, _, h'⟩
  | timedOut =>
      simp only [LoginFlow.step] at hstep
      split at hstep
      next hreader =>
        obtain rfl := Option.some.inj hstep
        obtain ⟨dropped', h'⟩ := h.step_abandon (Or.inl hreader) .timeout
        exact ⟨_, _, _, _, h'⟩
      next line hreader =>
        obtain rfl := Option.some.inj hstep
        obtain ⟨dropped', h'⟩ := h.step_abandon (Or.inr (Or.inl ⟨line, hreader⟩)) .timeout
        exact ⟨_, _, _, _, h'⟩
      next hreader =>
        obtain rfl := Option.some.inj hstep
        obtain ⟨dropped', h'⟩ := h.step_abandon (Or.inr (Or.inr hreader)) .timeout
        exact ⟨_, _, _, _, h'⟩
      all_goals simp at hstep
  | receive =>
      simp only [LoginFlow.step, LoginFlow.receive] at hstep
      split at hstep
      next => simp at hstep
      next line rest hchannel =>
        obtain rfl := Option.some.inj hstep
        exact ⟨_, _, _, _, h.receive hchannel⟩
  | report =>
      simp only [LoginFlow.step, LoginFlow.report] at hstep
      split at hstep
      next result hreader hchannel =>
        rw [Option.ite_none_left_eq_some, h.final_of_reported] at hstep
        obtain ⟨hfinal, heq⟩ := hstep
        obtain rfl := Option.some.inj heq
        obtain rfl : final = none := by simpa using hfinal
        exact ⟨_, _, _, _, h.report hreader hchannel⟩
      next => simp at hstep

theorem relays_of_reach {guard : LoginFlow → LoginEvent → Prop} (h : system.Reach guard s) :
    ∃ merged received dropped final, s.Relays merged received dropped final := by
  apply h.invariant
  · rintro _ rfl
    exact ⟨_, _, _, _, .new⟩
  · rintro s e s' - - hstep ⟨merged, received, dropped, final, hrelays⟩
    exact hrelays.step hstep

/-- **Every line once, in order, and then the result.** In every run what has been read off the two
outputs, each in its own order, is what the stream has yielded and then a rest; and the stream yields
at most one result, after them. A result of a child that came to its end by itself comes after all its
lines, and says how it ended; any other result is an error, and at most one line that was read is
missing. -/
theorem lines_then_result {guard : LoginFlow → LoginEvent → Prop} (h : system.Reach guard s) :
    ∃ (merged : List (OutputSource × String)) (received rest : List String),
      merged.map Prod.snd = received ++ rest ∧
      (∀ source, (ofStream source merged).map some =
        (s.pipe source).printed.take (s.pipe source).taken) ∧
      (s.yielded = received.map .loginLine ∨
        ∃ result, s.yielded = received.map .loginLine ++ [.loginFinished result] ∧
          rest.length ≤ 1 ∧
          ((∃ success, s.child = .exited success ∧ rest = [] ∧
              (∀ source, ofStream source merged = (s.pipe source).printed.readable) ∧
              result = if success then .ok ()
                else .error (classify { stderr := stderrText s.err.printed.readable })) ∨
            (s.child = .unborn ∨ s.child = .killed) ∧ ∃ error, result = .error error)) := by
  obtain ⟨merged, received, dropped, final, hrelays⟩ := relays_of_reach h
  have hlines := hrelays.lines
  rw [List.append_assoc, List.append_assoc] at hlines
  refine ⟨merged, received, _, hlines.symm, fun source => (hrelays.reads source).taken.symm, ?_⟩
  cases hfinal : final with
  | none => exact Or.inl (by simpa [hfinal] using hrelays.yielded)
  | some result =>
      obtain ⟨hreader, hchannel⟩ := hrelays.reported result hfinal
      have hplaced := hrelays.placed
      rw [hreader] at hplaced
      simp only [hreader, hchannel, Reader.inHand, List.nil_append]
      refine Or.inr ⟨result, by simpa [hfinal] using hrelays.yielded, ?_⟩
      -- How the task came to its result says what became of the lines.
      generalize hchild : s.child = child at hplaced
      generalize hended : s.ended = ended at hplaced
      cases hplaced with
      | unstarted kind _ _ hkept => exact ⟨by simp [hkept], Or.inr ⟨Or.inl rfl, _, rfl⟩⟩
      | finished success hkept =>
          rw [LoginFlow.ended, Bool.and_eq_true] at hended
          have hall : ∀ source, ofStream source merged = (s.pipe source).printed.readable := by
            intro source
            refine ((hrelays.reads source).readable_of_done ?_).symm
            cases source
            · exact hended.1
            · exact hended.2
          refine ⟨by simp [hkept], Or.inl ⟨success, rfl, hkept, hall, ?_⟩⟩
          rw [hall .stderr, pipe]
      | abandoned error _ hatMost => exact ⟨hatMost, Or.inr ⟨Or.inr rfl, error, rfl⟩⟩

/-! ### Getting to the end -/

/-- What the task and the stream do by themselves. -/
def own : LoginEvent → Bool
  | .read _ | .send | .finish | .receive | .report => true
  | _ => false

/-- The task waits for the child: to be started, for more output, or for its end. -/
def awaitsChild (s : LoginFlow) : Prop :=
  match s.reader with
  | .spawning => True
  | .selecting => ∀ source, (s.pipe source).done = true ∨
      (s.pipe source).closed = false ∧ (s.pipe source).printed.length ≤ (s.pipe source).taken
  | .waiting => ∀ success, s.child ≠ .exited success
  | .sending _ | .returned _ => False

/-- **Never stuck.** Before the result is reported there is a step the flow can take by itself,
unless the task waits for its child: a full channel never blocks for good. -/
theorem own_step_or_awaitsChild (s : LoginFlow) (hopen : s.reported = false) :
    s.awaitsChild ∨ ∃ e, own e = true ∧ (s.step e).isSome := by
  cases hchannel : s.channel with
  | cons line rest =>
      exact Or.inr ⟨.receive, rfl, by simp [LoginFlow.step, LoginFlow.receive, hchannel]⟩
  | nil =>
      cases hreader : s.reader with
      | spawning => exact Or.inl (by simp [awaitsChild, hreader])
      | sending line =>
          refine Or.inr ⟨.send, rfl, ?_⟩
          simp [LoginFlow.step, LoginFlow.send, hreader, hchannel, channelCapacity]
      | returned result =>
          refine Or.inr ⟨.report, rfl, ?_⟩
          simp [LoginFlow.step, LoginFlow.report, hreader, hchannel, hopen]
      | waiting =>
          by_cases hchild : ∃ success, s.child = .exited success
          · obtain ⟨success, hchild⟩ := hchild
            exact Or.inr ⟨.finish, rfl, by simp [LoginFlow.step, LoginFlow.finish, hreader, hchild]⟩
          · exact Or.inl (by simpa [awaitsChild, hreader] using hchild)
      | selecting =>
          by_cases hready : ∃ source, (s.pipe source).nextLine.isSome
          · obtain ⟨source, hready⟩ := hready
            refine Or.inr ⟨.read source, rfl, ?_⟩
            simpa [LoginFlow.step, LoginFlow.read, hreader] using hready
          · rw [not_exists] at hready
            refine Or.inl ?_
            simp only [awaitsChild, hreader]
            intro source
            have hpending := hready source
            unfold OutputPipe.nextLine at hpending
            split at hpending
            next hdone => exact Or.inl hdone
            next =>
              split at hpending
              · simp at hpending
              · simp at hpending
              · split at hpending
                · simp at hpending
                next hend hclosed =>
                  exact Or.inr ⟨by simpa using hclosed, List.getElem?_eq_none_iff.mp hend⟩

/-- A line unread is read, sent and received; a pipe's end is read; the child's end, and the result.
-/
def work (s : LoginFlow) : Nat :=
  s.out.work + s.err.work + s.reader.work + s.channel.length + (!s.reported).toNat

/-- The child's end is known, and nothing more will be printed. -/
def Over (s : LoginFlow) (success : Bool) : Prop :=
  s.child = .exited success ∧ ∀ source, (s.pipe source).closed = true

/-- What one step by itself does: it uses up some of the work, and leaves the child alone. -/
structure OwnStep (s s' : LoginFlow) : Prop where
  work : s'.work < s.work
  child : s'.child = s.child
  closed : ∀ source, (s'.pipe source).closed = (s.pipe source).closed

omit [TextSupport] in
theorem loop_work (s : LoginFlow) : s.loop.work =
    s.out.work + s.err.work + 1 + s.channel.length + (!s.reported).toNat := by
  have hreported : s.loop.reported = s.reported := rfl
  unfold work
  rw [hreported, loop]
  dsimp only
  split <;> rfl

omit [TextSupport] in
theorem ownStep_read {source : OutputSource} (hstep : s.read source = some s') : OwnStep s s' := by
  unfold LoginFlow.read at hstep
  split at hstep
  next hreader =>
    obtain ⟨⟨line, pipe⟩, hnext, rfl⟩ := Option.map_eq_some_iff.mp hstep
    obtain ⟨hdone, ⟨line, rfl, hline, rfl⟩ | ⟨rfl, rfl, -⟩⟩ := OutputPipe.nextLine_cases hnext
    · have hlt := (List.getElem?_eq_some_iff.mp hline).1
      refine ⟨?_, by simp, fun other => ?_⟩
      · cases source <;>
          simp [work, setPipe, OutputPipe.work, Reader.work, hreader, reported, pipe] at hlt ⊢ <;> omega
      · cases source <;> cases other <;> rfl
    · refine ⟨?_, by simp [loop], fun other => ?_⟩
      · rw [loop_work]
        cases source <;>
          simp [work, setPipe, OutputPipe.work, Reader.work, hreader, reported, pipe] at hdone ⊢ <;>
          simp [hdone]
      · cases source <;> cases other <;> rfl
  next => simp at hstep

theorem ownStep_of_step {e : LoginEvent} (hown : own e = true) (hstep : s.step e = some s') :
    OwnStep s s' := by
  cases e with
  | read source => exact ownStep_read hstep
  | send =>
      simp only [LoginFlow.step, LoginFlow.send] at hstep
      split at hstep
      next line hreader =>
        simp only [Option.ite_none_right_eq_some, Option.some.injEq] at hstep
        obtain ⟨-, rfl⟩ := hstep
        refine ⟨?_, rfl, fun source => by cases source <;> rfl⟩
        rw [loop_work]
        simp [work, Reader.work, hreader, reported]
        omega
      next => simp at hstep
  | finish =>
      simp only [LoginFlow.step, LoginFlow.finish] at hstep
      split at hstep
      next success hreader _ =>
        obtain rfl := Option.some.inj hstep
        refine ⟨?_, rfl, fun source => by cases source <;> rfl⟩
        simp [work, Reader.work, hreader, reported]
      next => simp at hstep
  | receive =>
      simp only [LoginFlow.step, LoginFlow.receive] at hstep
      split at hstep
      next => simp at hstep
      next line rest hchannel =>
        obtain rfl := Option.some.inj hstep
        refine ⟨?_, rfl, fun source => by cases source <;> rfl⟩
        simp [work, hchannel, reported]
  | report =>
      simp only [LoginFlow.step, LoginFlow.report] at hstep
      split at hstep
      next result hreader hchannel =>
        rw [Option.ite_none_left_eq_some] at hstep
        obtain ⟨hopen, heq⟩ := hstep
        obtain rfl := Option.some.inj heq
        refine ⟨?_, rfl, fun source => by cases source <;> rfl⟩
        rw [Bool.not_eq_true] at hopen
        simp [work, hopen]
        simp [reported]
      next => simp at hstep
  | _ => simp [own] at hown

theorem Relays.not_awaitsChild (h : s.Relays merged received dropped final) {success : Bool}
    (hover : s.Over success) : ¬ s.awaitsChild := by
  obtain ⟨hchild, hclosed⟩ := hover
  have hplaced := h.placed
  intro hawaits
  cases hreader : s.reader with
  | spawning =>
      rw [hreader] at hplaced
      simp [hchild, Placed] at hplaced
  | selecting =>
      rw [hreader] at hplaced
      simp only [awaitsChild, hreader] at hawaits
      have hdone : ∀ source, (s.pipe source).done = true := fun source =>
        (hawaits source).resolve_right fun hwaits => by simp [hclosed source] at hwaits
      have hout := hdone .stdout
      have herr := hdone .stderr
      simp only [pipe] at hout herr
      simp [Placed, ended, hout, herr] at hplaced
  | waiting =>
      simp only [awaitsChild, hreader] at hawaits
      exact hawaits success hchild
  | sending | returned => simp [awaitsChild, hreader] at hawaits

/-- **The stream comes to its end.** Once the child has come to its end and closed its outputs,
whatever order the task and the stream go on in, they make at most `work` steps, and have another
one to make until the result has been reported. -/
theorem stream_ends {guard : LoginFlow → LoginEvent → Prop} (h : system.Reach guard s) {success : Bool}
    (hover : s.Over success) {events : List LoginEvent}
    (hrun : system.run (fun _ e => own e = true) s events = some s') :
    events.length + s'.work ≤ s.work ∧
      (s'.reported = true ∨ ∃ e, own e = true ∧ (s'.step e).isSome) := by
  have hbound : events.length + s'.work ≤ s.work :=
    TransitionSystem.length_le_of_run (fun _ _ _ hown hstep => (ownStep_of_step hown hstep).work) hrun
  refine ⟨hbound, ?_⟩
  have hlater : (system.startingAt s).Reach (fun _ e => own e = true) s' :=
    TransitionSystem.reach_of_run rfl (by rwa [TransitionSystem.run_startingAt])
  have hover' : s'.Over success := by
    apply hlater.invariant
    · rintro _ rfl
      exact hover
    · intro a e b _ hown hstep hovera
      have hkeeps := ownStep_of_step hown hstep
      exact ⟨hkeeps.child.trans hovera.1, fun source => (hkeeps.closed source).trans (hovera.2 source)⟩
  have hreach : system.Reach TransitionSystem.anyStep s' :=
    (h.mono fun _ _ _ => trivial).append (hlater.mono fun _ _ _ => trivial)
  obtain ⟨merged, received, dropped, final, hrelays⟩ := relays_of_reach hreach
  cases hopen : s'.reported with
  | true => exact Or.inl rfl
  | false =>
      exact Or.inr ((s'.own_step_or_awaitsChild hopen).resolve_left (hrelays.not_awaitsChild hover'))

/-! ### The flow as a call of the runner -/

/-- The call of the runner a flow is, without its lines. -/
def Stands (s : LoginFlow) (call : Call) : Prop :=
  match s.reader with
  | .spawning => call = .spawning .nothing
  | .selecting | .sending _ | .waiting => call = .running .nothing
  | .returned result => ∃ ended : Ended, call = .returned ended ∧
      ended.result.map (fun _ => ()) = result ∧
      (∀ success, s.child = .exited success → ∃ stdout stderr, ended = .exited success stdout stderr)

/-- The runner with this call only. -/
def runner (s : LoginFlow) (call : Call) : Runner :=
  { shared := { TokioRunner.new with warm := s.warm }, calls := [call] }

omit [TextSupport] in
/-- The steps a call takes from one of its awaits to the next. -/
theorem runner_step {r r' : TokioRunner} {call next : Call} (event : CallEvent)
    (h : Runner.system.Reach TransitionSystem.anyStep { shared := r, calls := [call] })
    (hstep : call.step r event = some (r', next)) :
    Runner.system.Reach TransitionSystem.anyStep { shared := r', calls := [next] } := by
  refine .next h trivial (e := .call 0 event) ?_
  simp [Runner.system, Runner.step, hstep]

omit [TextSupport] in
/-- A call that has come to an end gives back what it holds, which for this one is nothing. -/
theorem runner_drop {r : TokioRunner} {ended : Ended}
    (h : Runner.system.Reach TransitionSystem.anyStep
      { shared := r, calls := [.dropping .nothing ended] }) :
    Runner.system.Reach TransitionSystem.anyStep { shared := r, calls := [.returned ended] } :=
  runner_step .poll h rfl

theorem stands_of_keeps {call : Call} (h : s.Stands call) (hreader : s'.reader = s.reader)
    (hchild : ∀ success, s'.child = .exited success → (∃ result, s.reader = .returned result) →
      s.child = .exited success) : s'.Stands call := by
  unfold Stands at h ⊢
  rw [hreader]
  split at h
  · exact h
  · exact h
  · exact h
  · exact h
  next result hreturned =>
    obtain ⟨ended, hcall, hresult, hexited⟩ := h
    exact ⟨ended, hcall, hresult, fun success hs => hexited success (hchild success hs ⟨_, hreturned⟩)⟩

theorem stands_loop (s : LoginFlow) : s.loop.Stands (.running .nothing) := by
  unfold Stands loop
  dsimp only
  split
  next heq => split at heq <;> simp at heq
  next => rfl
  next => rfl
  next => rfl
  next heq => split at heq <;> simp at heq

/-- The work is dropped: the child is killed, and the call has nothing to give back. -/
theorem runner_abandon
    (hcall : Runner.system.Reach TransitionSystem.anyStep (s.runner (.running .nothing)))
    (event : CallEvent) {ended : Ended} {error : PassError}
    (hevent : Call.step { TokioRunner.new with warm := s.warm } (.running .nothing) event =
      some ({ TokioRunner.new with warm := s.warm }, .killing .nothing ended))
    (hresult : ended.result.map (fun _ => ()) = .error error) :
    ∃ call, Runner.system.Reach TransitionSystem.anyStep ((s.abandon error).runner call) ∧
      (s.abandon error).Stands call := by
  refine ⟨.returned ended, runner_drop (runner_step .poll (runner_step event hcall hevent) rfl), ?_⟩
  exact ⟨ended, rfl, hresult, fun success hchild => by simp [LoginFlow.abandon] at hchild⟩

/-- Each step of the flow is none, or a few, of its call. -/
theorem Relays.call_step (h : s.Relays merged received dropped final) {call : Call}
    (hcall : Runner.system.Reach TransitionSystem.anyStep (s.runner call)) (hstands : s.Stands call)
    {e : LoginEvent} (hstep : s.step e = some s') :
    ∃ call, Runner.system.Reach TransitionSystem.anyStep (s'.runner call) ∧ s'.Stands call := by
  have hplaced := h.placed
  cases e with
  | spawned =>
      simp only [LoginFlow.step, Option.ite_none_right_eq_some, Option.some.injEq] at hstep
      obtain ⟨hreader, rfl⟩ := hstep
      obtain rfl : call = .spawning .nothing := by simpa [Stands, hreader] using hstands
      exact ⟨_, runner_step .spawned hcall rfl, rfl⟩
  | spawnFailed kind =>
      simp only [LoginFlow.step, Option.ite_none_right_eq_some, Option.some.injEq] at hstep
      obtain ⟨hreader, rfl⟩ := hstep
      obtain rfl : call = .spawning .nothing := by simpa [Stands, hreader] using hstands
      rw [hreader] at hplaced
      refine ⟨_, runner_drop (runner_step (.spawnFailed kind) hcall rfl), ?_⟩
      exact ⟨.spawnFailed kind, rfl, rfl, fun success hchild => by simp [hplaced.1] at hchild⟩
  | print source line =>
      simp only [LoginFlow.step, Option.ite_none_right_eq_some, Option.map_eq_some_iff] at hstep
      obtain ⟨-, pipe, -, rfl⟩ := hstep
      refine ⟨call, ?_, stands_of_keeps hstands (by simp) fun success hchild _ => by simpa using hchild⟩
      cases source <;> exact hcall
  | close source =>
      simp only [LoginFlow.step, Option.ite_none_right_eq_some, Option.some.injEq] at hstep
      obtain ⟨-, rfl⟩ := hstep
      refine ⟨call, ?_, stands_of_keeps hstands (by simp) fun success hchild _ => by simpa using hchild⟩
      cases source <;> exact hcall
  | exit success =>
      simp only [LoginFlow.step, Option.ite_none_right_eq_some, Option.some.injEq] at hstep
      obtain ⟨hchild, rfl⟩ := hstep
      refine ⟨call, hcall, stands_of_keeps hstands rfl fun _ _ hreturned => ?_⟩
      obtain ⟨result, hreader⟩ := hreturned
      rw [hreader, hchild] at hplaced
      cases hplaced
  | read source =>
      simp only [LoginFlow.step, LoginFlow.read] at hstep
      split at hstep
      next hreader =>
        obtain rfl : call = .running .nothing := by simpa [Stands, hreader] using hstands
        obtain ⟨⟨line, pipe⟩, -, rfl⟩ := Option.map_eq_some_iff.mp hstep
        cases line with
        | some line =>
            refine ⟨_, ?_, rfl⟩
            cases source <;> exact hcall
        | none =>
            refine ⟨_, ?_, stands_loop _⟩
            cases source <;> exact hcall
      next => simp at hstep
  | send =>
      simp only [LoginFlow.step, LoginFlow.send] at hstep
      split at hstep
      next line hreader =>
        obtain rfl : call = .running .nothing := by simpa [Stands, hreader] using hstands
        simp only [Option.ite_none_right_eq_some, Option.some.injEq] at hstep
        obtain ⟨-, rfl⟩ := hstep
        exact ⟨_, hcall, stands_loop _⟩
      next => simp at hstep
  | finish =>
      simp only [LoginFlow.step, LoginFlow.finish] at hstep
      split at hstep
      next success hreader hchild =>
        obtain rfl : call = .running .nothing := by simpa [Stands, hreader] using hstands
        obtain rfl := Option.some.inj hstep
        refine ⟨_, runner_drop (runner_step .poll
          (runner_step (.exited success [] s.errText) hcall rfl) rfl), ?_⟩
        refine ⟨_, rfl, ?_, fun other hother => ⟨[], s.errText, ?_⟩⟩
        · cases success <;> rfl
        · rw [Child.exited.inj (hchild.symm.trans hother)]
      next => simp at hstep
  | waitFailed message =>
      simp only [LoginFlow.step, Option.ite_none_right_eq_some, Option.some.injEq] at hstep
      obtain ⟨hreader, rfl⟩ := hstep
      obtain rfl : call = .running .nothing := by simpa [Stands, hreader] using hstands
      exact runner_abandon hcall (.waitFailed message) rfl rfl
  | timedOut =>
      simp only [LoginFlow.step] at hstep
      split at hstep
      next hreader =>
        obtain rfl : call = .running .nothing := by simpa [Stands, hreader] using hstands
        obtain rfl := Option.some.inj hstep
        exact runner_abandon hcall .timedOut rfl rfl
      next line hreader =>
        obtain rfl : call = .running .nothing := by simpa [Stands, hreader] using hstands
        obtain rfl := Option.some.inj hstep
        exact runner_abandon hcall .timedOut rfl rfl
      next hreader =>
        obtain rfl : call = .running .nothing := by simpa [Stands, hreader] using hstands
        obtain rfl := Option.some.inj hstep
        exact runner_abandon hcall .timedOut rfl rfl
      all_goals simp at hstep
  | receive =>
      simp only [LoginFlow.step, LoginFlow.receive] at hstep
      split at hstep
      next => simp at hstep
      next =>
        obtain rfl := Option.some.inj hstep
        exact ⟨call, hcall, stands_of_keeps hstands rfl fun _ hchild _ => hchild⟩
  | report =>
      simp only [LoginFlow.step, LoginFlow.report] at hstep
      split at hstep
      next =>
        rw [Option.ite_none_left_eq_some] at hstep
        obtain rfl := Option.some.inj hstep.2
        exact ⟨call, hcall, stands_of_keeps hstands rfl fun _ hchild _ => hchild⟩
      next => simp at hstep

/-- **A sign-in is a call of the runner.** Seen from what the calls of the runner share, every run
of the flow is a run of its call: it takes no permit and not the warm-up lock, sets `warm` when its
child came to its end by itself, and returns what the call returns. -/
theorem call_of_reach {guard : LoginFlow → LoginEvent → Prop} (h : system.Reach guard s) :
    ∃ call, Runner.system.Reach TransitionSystem.anyStep (s.runner call) ∧ s.Stands call := by
  apply h.invariant
  · rintro _ rfl
    refine ⟨.spawning .nothing, ?_, rfl⟩
    exact .next (.start rfl) trivial (e := .runStreaming) rfl
  · rintro s e s' hreach - hstep ⟨call, hcall, hstands⟩
    obtain ⟨merged, received, dropped, final, hrelays⟩ := relays_of_reach hreach
    exact hrelays.call_step hcall hstands hstep

end Runs

section Examples

attribute [local instance] World.plainText

/-- A line on each output, both closed after it, and the child gone. -/
def printTwice : List LoginEvent :=
  [.spawned, .print .stdout (some "out"), .print .stderr (some "err"), .close .stdout,
    .close .stderr, .exit true]

/-- All that the task and the stream do about it, the errors first. -/
def forwardTwice : List LoginEvent :=
  [.read .stderr, .send, .read .stdout, .send, .read .stdout, .receive, .read .stderr, .finish,
    .receive, .report]

theorem lines_then_success : ∃ (s : LoginFlow) (merged : List (OutputSource × String))
    (received rest : List String),
    s.yielded = [.loginLine "err", .loginLine "out", .loginFinished (.ok ())] ∧
      merged.map Prod.snd = received ++ rest ∧
      ∀ source, (ofStream source merged).map some =
        match source with
        | .stdout => [some "out"]
        | .stderr => [some "err"] := by
  have hrun : ∃ s, system.Reach TransitionSystem.anyStep s ∧
      s.yielded = [.loginLine "err", .loginLine "out", .loginFinished (.ok ())] ∧
      s.out.printed.take s.out.taken = [some "out"] ∧
      s.err.printed.take s.err.taken = [some "err"] := by
    refine TransitionSystem.exists_reach_of_run new (printTwice ++ forwardTwice) rfl ?_
    decide
  obtain ⟨s, hreach, hyielded, hout, herr⟩ := hrun
  obtain ⟨merged, received, rest, hmerged, hread, -⟩ := lines_then_result hreach
  refine ⟨s, merged, received, rest, hyielded, hmerged, fun source => (hread source).trans ?_⟩
  cases source
  · exact hout
  · exact herr

theorem stream_ends_after_ten : ∃ s s' : LoginFlow, s.Over true ∧
    system.run (fun _ e => own e = true) s forwardTwice = some s' ∧
    forwardTwice.length + s'.work ≤ s.work := by
  have hrun : ∃ s, system.Reach TransitionSystem.anyStep s ∧ s.child = .exited true ∧
      s.out.closed = true ∧ s.err.closed = true ∧
      (system.run (fun _ e => own e = true) s forwardTwice).isSome := by
    refine TransitionSystem.exists_reach_of_run new printTwice rfl ?_
    decide
  obtain ⟨s, hreach, hchild, hout, herr, hlater⟩ := hrun
  obtain ⟨s', hforwarded⟩ := Option.isSome_iff_exists.mp hlater
  have hover : s.Over true := ⟨hchild, fun source => by cases source <;> assumption⟩
  exact ⟨s, s', hover, hforwarded, (stream_ends hreach hover hforwarded).1⟩

theorem call_returned : ∃ (s : LoginFlow) (call : Call), s.reader = .returned (.ok ()) ∧
    Runner.system.Reach TransitionSystem.anyStep (s.runner call) ∧ s.Stands call := by
  have hrun : ∃ s, system.Reach TransitionSystem.anyStep s ∧ s.reader = .returned (.ok ()) := by
    refine TransitionSystem.exists_reach_of_run new (printTwice ++ forwardTwice) rfl ?_
    decide
  obtain ⟨s, hreach, hreader⟩ := hrun
  obtain ⟨call, hcall, hstands⟩ := call_of_reach hreach
  exact ⟨s, call, hreader, hcall, hstands⟩

end Examples

end LoginFlow

end CosmicPass
