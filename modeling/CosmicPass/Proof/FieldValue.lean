import CosmicPass.Clipboard.Serve
import CosmicPass.Pass.Output

/-!
# A copied value is its bytes

The output of a field is its value and a newline, of which one line ending is taken off: a line feed, or
a carriage return and a line feed. What is left goes to the helper byte by byte.
-/

namespace CosmicPass

/-! ### The output of a field -/

section Output

theorem withoutLineEnd_newline (text : List Char) :
    withoutLineEnd (text ++ ['\n']) = if text.getLast? = some '\r' then text.dropLast else text := by
  have hnewline : ['\n'] <:+ text ++ ['\n'] := List.suffix_append _ _
  by_cases hreturn : text.getLast? = some '\r'
  · obtain ⟨before, rfl⟩ := List.getLast?_eq_some_iff.mp hreturn
    have hboth : ['\r', '\n'] <:+ before ++ ['\r'] ++ ['\n'] := ⟨before, by simp⟩
    rw [withoutLineEnd, if_pos hboth, if_pos hreturn]
    simp
  · have hnot : ¬ ['\r', '\n'] <:+ text ++ ['\n'] := by
      rintro ⟨before, heq⟩
      have htext : text = before ++ ['\r'] :=
        List.append_cancel_right (heq.symm.trans (by simp))
      exact hreturn (by rw [htext, List.getLast?_concat])
    rw [withoutLineEnd, if_neg hnot, if_pos hnewline, if_neg hreturn]
    simp

theorem parseField_toUTF8 (value : String) :
    parseField (value ++ "\n").toUTF8 =
      .ok (if value.toList.getLast? = some '\r' then String.ofList value.toList.dropLast
        else value) := by
  have hread : String.fromUTF8? (value ++ "\n").toUTF8 = some (value ++ "\n") :=
    dif_pos (value ++ "\n").isValidUTF8
  have htext : (value ++ "\n").toList = value.toList ++ ['\n'] := String.toList_append
  rw [parseField, hread]
  simp only [htext, withoutLineEnd_newline]
  split
  next => rfl
  next => rw [String.ofList_toList]

theorem parseField_error_iff (bytes : ByteArray) :
    (∃ error, parseField bytes = .error error) ↔ ¬ bytes.IsValidUTF8 := by
  unfold parseField String.fromUTF8?
  by_cases hvalid : bytes.IsValidUTF8
  · simp [hvalid]
  · simp [hvalid]

end Output

/-! ### The way to the helper -/

section Handover

open TransitionSystem

variable {bytes : List UInt8} {s s' : Handover} {event : HandoverEvent}

/-- Nothing is lost, doubled or out of order, and the value read is all that was written. -/
structure InOrder (bytes : List UInt8) (s : Handover) : Prop where
  all : s.buf ++ s.pipe ++ s.left = bytes
  value : ∀ result, s.value = some result → s.pipe = [] ∧ s.closed = true ∧ result = readValue s.buf

theorem inOrder_step (hstep : s.step event = some s') (h : InOrder bytes s) : InOrder bytes s' := by
  obtain ⟨hall, hvalue⟩ := h
  cases event with
  | written n =>
      obtain ⟨⟨hopen, -, -⟩, heq⟩ := Option.ite_none_right_eq_some.mp hstep
      obtain rfl := Option.some.inj heq
      refine ⟨?_, fun result hresult => ?_⟩
      · rw [← hall]
        simp [List.append_assoc]
      · have hclosed := (hvalue result hresult).2.1
        rw [hopen] at hclosed
        cases hclosed
  | closed =>
      obtain ⟨-, heq⟩ := Option.ite_none_right_eq_some.mp hstep
      obtain rfl := Option.some.inj heq
      exact ⟨hall, fun result hresult =>
        ⟨(hvalue result hresult).1, rfl, (hvalue result hresult).2.2⟩⟩
  | received n =>
      obtain ⟨⟨hnone, -, -⟩, heq⟩ := Option.ite_none_right_eq_some.mp hstep
      obtain rfl := Option.some.inj heq
      refine ⟨?_, fun result hresult => ?_⟩
      · rw [← hall]
        simp [List.append_assoc]
      · rw [hnone] at hresult
        cases hresult
  | ended =>
      obtain ⟨⟨-, hclosed, hempty⟩, heq⟩ := Option.ite_none_right_eq_some.mp hstep
      obtain rfl := Option.some.inj heq
      exact ⟨hall, fun result hresult => ⟨hempty, hclosed, (Option.some.inj hresult).symm⟩⟩

theorem inOrder_of_reach (h : (Handover.system bytes).Reach anyStep s) : InOrder bytes s := by
  refine @Reach.invariant _ _ (Handover.system bytes) anyStep (InOrder bytes) ?_ ?_ s h
  · rintro s rfl
    exact ⟨rfl, fun result hresult => by cases hresult⟩
  · exact fun s e s' _ _ hstep hs => inOrder_step hstep hs

/-- What the helper reads of a value that was written to its end. -/
theorem value_of_reach (h : (Handover.system bytes).Reach anyStep s) (hleft : s.left = [])
    {result : Option (List UInt8)} (hresult : s.value = some result) : result = readValue bytes := by
  obtain ⟨hall, hvalue⟩ := inOrder_of_reach h
  obtain ⟨hempty, -, heq⟩ := hvalue result hresult
  rw [heq, ← hall, hempty, hleft, List.append_nil, List.append_nil]

/-- The copy can come to its end: in one piece, for example. -/
theorem exists_value (hbytes : bytes ≠ []) :
    ∃ s, (Handover.system bytes).Reach anyStep s ∧ s.left = [] ∧ s.value = some (some bytes) := by
  have hpos : 0 < bytes.length := List.length_pos_iff.mpr hbytes
  have hstart : (Handover.system bytes).Reach anyStep { left := bytes } := .start rfl
  have hwritten : (Handover.system bytes).Reach anyStep { left := [], pipe := bytes } :=
    hstart.next (e := .written bytes.length) trivial (by simp [Handover.system, Handover.step, hpos])
  have hclosed : (Handover.system bytes).Reach anyStep { left := [], pipe := bytes, closed := true } :=
    hwritten.next (e := .closed) trivial (by simp [Handover.system, Handover.step])
  have hreceived : (Handover.system bytes).Reach anyStep { left := [], closed := true, buf := bytes } :=
    hclosed.next (e := .received bytes.length) trivial
      (by simp [Handover.system, Handover.step, hpos])
  have hended : (Handover.system bytes).Reach anyStep
      { left := [], closed := true, buf := bytes, value := some (some bytes) } :=
    hreceived.next (e := .ended) trivial
      (by simp [Handover.system, Handover.step, readValue, hbytes])
  exact ⟨_, hended, rfl, rfl⟩

/-- **A copied value is its bytes**, up to one carriage return at the very end of a field. -/
theorem copied_value_byte_exact :
    (∀ value : String, parseField (value ++ "\n").toUTF8 =
      .ok (if value.toList.getLast? = some '\r' then String.ofList value.toList.dropLast
        else value)) ∧
    (∀ value : String, value ≠ "" →
      (∀ s, (Handover.system value.toUTF8.data.toList).Reach anyStep s → s.left = [] →
        ∀ result, s.value = some result → result = some value.toUTF8.data.toList) ∧
      ∃ s, (Handover.system value.toUTF8.data.toList).Reach anyStep s ∧ s.left = [] ∧
        s.value = some (some value.toUTF8.data.toList)) ∧
    ∀ bytes : ByteArray, (∃ error, parseField bytes = .error error) ↔ ¬ bytes.IsValidUTF8 := by
  refine ⟨parseField_toUTF8, fun value hvalue => ?_, parseField_error_iff⟩
  have hbytes : value.toUTF8.data.toList ≠ [] := fun hempty =>
    hvalue (String.toByteArray_inj.mp (ByteArray.ext (Array.toList_inj.mp hempty)))
  refine ⟨fun s h hleft result hresult => ?_, exists_value hbytes⟩
  rw [value_of_reach h hleft hresult, readValue, if_pos hbytes]

/-- A value that ends in a carriage return loses it. -/
theorem last_carriage_return_lost :
    parseField ("key\r" ++ "\n").toUTF8 = .ok "key" ∧ "key" ≠ "key\r" := by
  refine ⟨?_, by decide⟩
  rw [parseField_toUTF8]
  decide

end Handover

end CosmicPass
