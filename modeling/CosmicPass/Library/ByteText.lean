import Mathlib.Data.String.Basic

/-!
# Text read at the offsets of its bytes

A text of several characters is cut at offsets counted in bytes. A cut is possible between two
characters only, and what is cut out is what a split of the characters themselves gives.
-/

namespace ByteText

open String (utf8Len)

/-- The text from the byte `start` to the byte `stop`: there is none unless both ends lie between two
characters, in this order. -/
def slice (text : String) (start stop : Nat) : Option (List Char) :=
  if String.Pos.Raw.IsValid text ⟨start⟩ ∧ String.Pos.Raw.IsValid text ⟨stop⟩ ∧ start ≤ stop then
    some (String.Pos.Raw.extract text ⟨start⟩ ⟨stop⟩).toList
  else none

/-- Each character with the offset it starts at, where the first one starts at `offset`. -/
def charIndices (offset : Nat) : List Char → List (Nat × Char)
  | [] => []
  | c :: rest => (offset, c) :: charIndices (offset + c.utf8Size) rest

theorem isValid_of_append {text : String} {before after : List Char}
    (h : text.toList = before ++ after) : String.Pos.Raw.IsValid text ⟨utf8Len before⟩ := by
  rw [String.Pos.Raw.isValid_iff_exists_take_toList]
  refine ⟨before.length, ?_⟩
  rw [h, List.take_left, String.utf8ByteSize_ofList]

theorem slice_of_append {text : String} {before run after : List Char}
    (h : text.toList = before ++ run ++ after) :
    slice text (utf8Len before) (utf8Len (before ++ run)) = some run := by
  have hstart : String.Pos.Raw.IsValid text ⟨utf8Len before⟩ :=
    isValid_of_append (by rw [h, List.append_assoc])
  have hstop : String.Pos.Raw.IsValid text ⟨utf8Len (before ++ run)⟩ := isValid_of_append h
  have hle : utf8Len before ≤ utf8Len (before ++ run) := by simp
  obtain rfl : text = String.ofList (before ++ run ++ after) := by rw [← h, String.ofList_toList]
  rw [slice, if_pos ⟨hstart, hstop, hle⟩, String.utf8Len_append, String.extract_of_valid,
    String.toList_ofList]

end ByteText
