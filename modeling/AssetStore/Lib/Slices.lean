import Mathlib.Data.List.Basic
import Mathlib.Tactic.Common

/-! Cutting a list at regular steps. `steps` are the starts that a counting loop visits, `slice` is
what stands between two indices, and `slices` puts them together: the list in pieces of one size,
the last of which may be shorter. -/

namespace AssetStore.Lib

variable {α : Type} {size stop : Nat} {xs : List α}

/-- `range(0, stop, size)`. -/
def steps (stop size : Nat) : List Nat := List.range' 0 ((stop + size - 1) / size) size

/-- `xs[start:stop]`. -/
def slice (xs : List α) (start stop : Nat) : List α := (xs.take stop).drop start

/-- The list, cut at every step. -/
def slices (size : Nat) (xs : List α) : List (List α) :=
  (steps xs.length size).map fun start => slice xs start (start + size)

theorem slice_zero : slice xs 0 size = xs.take size := rfl

theorem slice_add (start : Nat) :
    slice xs (size + start) (size + start + size) = slice (xs.drop size) start (start + size) := by
  rw [slice, slice, List.take_drop, List.drop_drop, Nat.add_assoc]

theorem steps_zero (h : 0 < size) : steps 0 size = [] := by
  rw [steps, Nat.div_eq_of_lt (by omega)]
  rfl

/-- After the first start, the loop visits those of the rest, moved on by one step. -/
theorem steps_of_pos (h : 0 < size) (hstop : 0 < stop) :
    steps stop size = 0 :: (steps (stop - size) size).map (size + ·) := by
  have hcount : (stop + size - 1) / size = (stop - size + size - 1) / size + 1 := by
    rw [← Nat.add_div_right _ h]
    by_cases hle : size ≤ stop
    · congr 1
      omega
    · rw [Nat.div_eq_of_lt_le (k := 1) (by omega) (by omega),
        Nat.div_eq_of_lt_le (k := 1) (by omega) (by omega)]
  rw [steps, hcount, List.range'_succ, steps, List.map_add_range', Nat.zero_add, Nat.add_zero]

section

variable (h : 0 < size)
include h

theorem slices_nil : slices size ([] : List α) = [] := by
  rw [slices, List.length_nil, steps_zero h, List.map_nil]

/-- The first piece, and the pieces of the rest. -/
theorem slices_cons (hne : xs ≠ []) :
    slices size xs = xs.take size :: slices size (xs.drop size) := by
  rw [slices, steps_of_pos h (List.length_pos_iff.mpr hne), List.map_cons, Nat.zero_add, slice_zero,
    List.map_map, slices, List.length_drop]
  exact congrArg _ (List.map_congr_left fun start _ => slice_add start)

/-- What holds of no pieces, and of a first piece with those of the rest, holds of all pieces. -/
theorem slices_induction {P : List α → List (List α) → Prop} (nil : P [] [])
    (cons : ∀ xs, xs ≠ [] → P (xs.drop size) (slices size (xs.drop size)) →
      P xs (xs.take size :: slices size (xs.drop size))) (xs : List α) : P xs (slices size xs) := by
  induction hn : xs.length using Nat.strongRecOn generalizing xs with
  | ind n ih =>
    by_cases hne : xs = []
    · rw [hne, slices_nil h]
      exact nil
    · rw [slices_cons h hne]
      refine cons xs hne (ih _ ?_ _ rfl)
      have hpos : 0 < xs.length := List.length_pos_iff.mpr hne
      rw [List.length_drop]
      omega

/-- The pieces put together are the list. -/
theorem flatten_slices (xs : List α) : (slices size xs).flatten = xs := by
  refine slices_induction (P := fun xs pieces => pieces.flatten = xs) h rfl (fun xs _ ih => ?_) xs
  rw [List.flatten_cons, ih, List.take_append_drop]

theorem ne_nil_of_mem_slices {piece : List α} (hpiece : piece ∈ slices size xs) : piece ≠ [] := by
  refine slices_induction (P := fun _ pieces => ∀ piece ∈ pieces, piece ≠ []) h (by simp)
    (fun xs hne ih => ?_) xs
    piece hpiece
  intro piece hmem
  rcases List.mem_cons.mp hmem with rfl | hmem
  · rw [ne_eq, List.take_eq_nil_iff]
    exact fun hnil => hnil.elim (by omega) hne
  · exact ih piece hmem

theorem length_le_of_mem_slices {piece : List α} (hpiece : piece ∈ slices size xs) :
    piece.length ≤ size := by
  refine slices_induction (P := fun _ pieces => ∀ piece ∈ pieces, piece.length ≤ size) h (by simp)
    (fun xs _ ih => ?_)
    xs piece hpiece
  intro piece hmem
  rcases List.mem_cons.mp hmem with rfl | hmem
  · rw [List.length_take]
    omega
  · exact ih piece hmem

/-- Every piece but the last has the full size. -/
theorem length_of_mem_dropLast_slices {piece : List α}
    (hpiece : piece ∈ (slices size xs).dropLast) :
    piece.length = size := by
  refine slices_induction (P := fun _ pieces => ∀ piece ∈ pieces.dropLast, piece.length =
    size) h (by simp)
    (fun xs _ ih => ?_) xs piece hpiece
  intro piece hmem
  by_cases hrest : xs.drop size = []
  · rw [hrest, slices_nil h] at hmem
    cases hmem
  · have hcons := slices_cons h hrest
    rw [hcons, List.dropLast_cons_cons, ← hcons] at hmem
    rcases List.mem_cons.mp hmem with rfl | hmem
    · -- there is a rest, so the first piece is full
      have hlength : size < xs.length := by
        rw [List.drop_eq_nil_iff] at hrest
        omega
      rw [List.length_take]
      omega
    · exact ih piece hmem

end

end AssetStore.Lib
