import Mathlib.Data.List.TakeDrop

/-!
# A sequence cut into blocks

Each place of the sequence lies in one block, and the blocks are numbered too. A number read as a block
and as a place means the same only as far as every block is a single place: a longer block pushes all
that comes after it behind its own number.
-/

namespace Blocks

variable {α : Type*} {blocks : List (List α)} {marked : Nat → Prop} {k p : Nat}

/-- The number of the block each place lies in, where the first block has the number `first`. -/
def numbers (first : Nat) : List (List α) → List Nat
  | [] => []
  | block :: rest => List.replicate block.length first ++ numbers (first + 1) rest

theorem length_numbers (first : Nat) : (numbers first blocks).length = blocks.flatten.length := by
  induction blocks generalizing first with
  | nil => rfl
  | cons block rest ih => simp [numbers, ih]

theorem numbers_append (first : Nat) (rest : List (List α)) :
    numbers first (blocks ++ rest) = numbers first blocks ++ numbers (first + blocks.length) rest := by
  induction blocks generalizing first with
  | nil => rfl
  | cons block blocks ih =>
      have hnext : first + 1 + blocks.length = first + (blocks.length + 1) := by omega
      simp only [List.cons_append, numbers, ih, List.append_assoc, List.length_cons, hnext]

theorem first_le_of_mem {first : Nat} (h : k ∈ numbers first blocks) : first ≤ k := by
  induction blocks generalizing first with
  | nil => simp [numbers] at h
  | cons block rest ih =>
      rw [numbers, List.mem_append] at h
      cases h with
      | inl hhere => exact Nat.le_of_eq (List.eq_of_mem_replicate hhere).symm
      | inr hlater => exact Nat.le_of_succ_le (ih hlater)

theorem numbers_of_single (h : ∀ block ∈ blocks, block.length = 1) (first : Nat) :
    numbers first blocks = List.range' first blocks.length := by
  induction blocks generalizing first with
  | nil => rfl
  | cons block rest ih =>
      obtain ⟨hblock, hrest⟩ := List.forall_mem_cons.mp h
      rw [numbers, hblock, ih hrest, List.length_cons, List.range'_succ]
      rfl

/-- Up to a block the blocks are single places: its number is its place, and no other place has it. -/
theorem place_eq (hk : k < blocks.length) (hsingle : ∀ block ∈ blocks.take (k + 1), block.length = 1)
    {q n : Nat} (hq : (numbers 0 blocks)[q]? = some n) : q = k ↔ n = k := by
  have hsplit : numbers 0 blocks =
      List.range' 0 (k + 1) ++ numbers (k + 1) (blocks.drop (k + 1)) := by
    have htake : (blocks.take (k + 1)).length = k + 1 := List.length_take_of_le hk
    calc numbers 0 blocks = numbers 0 (blocks.take (k + 1) ++ blocks.drop (k + 1)) := by
          rw [List.take_append_drop]
      _ = _ := by rw [numbers_append, numbers_of_single hsingle, htake, Nat.zero_add]
  rw [hsplit] at hq
  by_cases hlt : q < k + 1
  · rw [List.getElem?_append_left (by simpa using hlt), List.getElem?_range' hlt] at hq
    have heq := Option.some.inj hq
    omega
  · rw [List.getElem?_append_right (by simpa using Nat.le_of_not_lt hlt)] at hq
    have hle := first_le_of_mem (List.mem_of_getElem? hq)
    omega

/-- The last place of a block, which lies as far behind the block's number as the blocks are long. -/
theorem getElem?_last (hk : k < blocks.length) (hne : ∀ block ∈ blocks, block ≠ []) :
    (numbers 0 blocks)[(blocks.take (k + 1)).flatten.length - 1]? = some k := by
  have hblock : blocks[k] ≠ [] := hne _ (List.getElem_mem hk)
  have hpos : 0 < blocks[k].length := List.length_pos_iff.mpr hblock
  have htake : (blocks.take k).length = k := List.length_take_of_le (Nat.le_of_lt hk)
  have hsplit : numbers 0 blocks = numbers 0 (blocks.take k) ++
      (List.replicate blocks[k].length k ++ numbers (k + 1) (blocks.drop (k + 1))) := by
    calc numbers 0 blocks = numbers 0 (blocks.take k ++ blocks[k] :: blocks.drop (k + 1)) := by
          rw [← List.drop_eq_getElem_cons hk, List.take_append_drop]
      _ = _ := by rw [numbers_append, htake, Nat.zero_add, numbers]
  have hlength : (blocks.take (k + 1)).flatten.length =
      (numbers 0 (blocks.take k)).length + blocks[k].length := by
    rw [length_numbers, List.take_succ_eq_append_getElem hk, List.flatten_append, List.length_append,
      List.flatten_singleton]
  have hplace : (numbers 0 (blocks.take k)).length + blocks[k].length - 1 -
      (numbers 0 (blocks.take k)).length < blocks[k].length := by omega
  rw [hsplit, hlength, List.getElem?_append_right (by omega),
    List.getElem?_append_left (by simpa using hplace), List.getElem?_replicate_of_lt hplace]

theorem length_le_flatten (hne : ∀ block ∈ blocks, block ≠ []) :
    blocks.length ≤ blocks.flatten.length := by
  induction blocks with
  | nil => exact Nat.zero_le _
  | cons block rest ih =>
      obtain ⟨hblock, hrest⟩ := List.forall_mem_cons.mp hne
      have hpos := List.length_pos_iff.mpr hblock
      have hle := ih hrest
      rw [List.length_cons, List.flatten_cons, List.length_append]
      omega

/-- As many places as blocks: every block is one place. -/
theorem single_of_length_le (hne : ∀ block ∈ blocks, block ≠ [])
    (h : blocks.flatten.length ≤ blocks.length) : ∀ block ∈ blocks, block.length = 1 := by
  induction blocks with
  | nil => simp
  | cons block rest ih =>
      obtain ⟨hblock, hrest⟩ := List.forall_mem_cons.mp hne
      have hpos := List.length_pos_iff.mpr hblock
      have hle := length_le_flatten hrest
      rw [List.length_cons, List.flatten_cons, List.length_append] at h
      exact List.forall_mem_cons.mpr ⟨by omega, ih hrest (by omega)⟩

/-- **Marks on blocks read as marks on places** are right exactly when every block up to each mark is
one place. -/
theorem marks_agree_iff (hne : ∀ block ∈ blocks, block ≠ [])
    (hmarked : ∀ k, marked k → k < blocks.length) :
    (∀ place block, (numbers 0 blocks)[place]? = some block → (marked place ↔ marked block)) ↔
      ∀ k, marked k → ∀ block ∈ blocks.take (k + 1), block.length = 1 := by
  constructor
  · intro hagree k hk
    -- The last place of a marked block bears a mark of its own. Were it not the block's own number,
    -- that mark would be on a later block, whose last place is marked again, and so past the last one.
    induction hleft : blocks.length - k using Nat.strongRecOn generalizing k with
    | ind left ih =>
        have hlt := hmarked k hk
        have hplace : marked ((blocks.take (k + 1)).flatten.length - 1) :=
          (hagree _ k (getElem?_last hlt hne)).mpr hk
        have hnext := hmarked _ hplace
        have hnetake : ∀ block ∈ blocks.take (k + 1), block ≠ [] :=
          fun block hmem => hne block (List.mem_of_mem_take hmem)
        have htake : (blocks.take (k + 1)).length = k + 1 := List.length_take_of_le hlt
        by_cases hshort : (blocks.take (k + 1)).flatten.length ≤ k + 1
        · exact single_of_length_le hnetake (by rwa [htake])
        · have hlater := ih _ (by omega) _ hplace rfl
          intro block hmem
          apply hlater block
          exact (List.take_subset_take_left _ (by omega)) hmem
  · intro hsingle place block hplace
    constructor
    · intro hmark
      obtain rfl := (place_eq (hmarked place hmark) (hsingle place hmark) hplace).mp rfl
      exact hmark
    · intro hmark
      obtain rfl := (place_eq (hmarked block hmark) (hsingle block hmark) hplace).mpr rfl
      exact hmark

end Blocks
