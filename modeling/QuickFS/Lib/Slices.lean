import Mathlib.Data.List.TakeDrop

/-!
# Slices of a sequence

`slice xs offset length` is what a read of `length` elements at `offset` finds in `xs`: fewer of
them at the end of the sequence, none beyond it.  `IsSlice xs offset d` says that `d` stands in `xs`
at `offset`.  Slices that meet can be joined, and a slice of a slice is a slice.
-/

namespace Slices

variable {α : Type}

/-- The elements from `offset` on, at most `length` of them. -/
def slice (xs : List α) (offset length : ℕ) : List α := (xs.drop offset).take length

/-- The elements of `d` are those of `xs` from `offset` on. -/
def IsSlice (xs : List α) (offset : ℕ) (d : List α) : Prop := slice xs offset d.length = d

section Slice

variable {xs d e : List α} {offset length : ℕ}

theorem length_slice : (slice xs offset length).length = min length (xs.length - offset) := by
  rw [slice, List.length_take, List.length_drop]

/-- Only the elements there are count. -/
theorem slice_min : slice xs offset (min length (xs.length - offset)) = slice xs offset length := by
  rw [slice, slice, ← List.length_drop, ← List.take_eq_take_min]

theorem slice_add (a b : ℕ) :
    slice xs offset (a + b) = slice xs offset a ++ slice xs (offset + a) b := by
  rw [slice, List.take_add, slice, slice, List.drop_drop]

/-- A piece of a slice. -/
theorem slice_slice (a b : ℕ) :
    slice (slice xs offset length) a b = slice xs (offset + a) (min b (length - a)) := by
  rw [slice, slice, slice, List.drop_take, List.drop_drop, List.take_take]

theorem isSlice_slice : IsSlice xs offset (slice xs offset length) := by
  rw [IsSlice, length_slice, slice_min]

namespace IsSlice

/-- A read within the slice. -/
theorem slice_eq (h : IsSlice xs offset d) {a b : ℕ} (hab : a + b ≤ d.length) :
    slice d a b = slice xs (offset + a) b := by
  conv_lhs => rw [← h]
  rw [slice_slice, Nat.min_eq_left (by omega)]

theorem nil : IsSlice xs offset ([] : List α) := by
  rw [IsSlice, slice, List.length_nil, List.take_zero]

/-- Two slices that meet. -/
theorem append (hd : IsSlice xs offset d) (he : IsSlice xs (offset + d.length) e) :
    IsSlice xs offset (d ++ e) := by
  rw [IsSlice, List.length_append, slice_add, hd, he]

/-- A slice that is as long as what was asked for is what was asked for. -/
theorem eq_slice (h : IsSlice xs offset d) (hlen : d.length = min length (xs.length - offset)) :
    d = slice xs offset length := by
  rw [← slice_min, ← hlen]
  exact h.symm

/-- A slice, element by element. -/
theorem iff_getElem? : IsSlice xs offset d ↔ ∀ i x, d[i]? = some x → xs[offset + i]? = some x := by
  constructor
  · intro h i x hi
    rw [← h, slice, List.getElem?_take] at hi
    split at hi
    · rwa [List.getElem?_drop] at hi
    · cases hi
  · intro h
    refine List.ext_getElem? fun i => ?_
    rw [slice, List.getElem?_take, List.getElem?_drop]
    split
    · rename_i hi
      rw [List.getElem?_eq_getElem hi]
      exact h i _ (List.getElem?_eq_getElem hi)
    · rename_i hi
      exact (List.getElem?_eq_none (Nat.le_of_not_lt hi)).symm

end IsSlice

end Slice

end Slices
