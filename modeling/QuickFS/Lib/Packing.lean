import Mathlib.Algebra.BigOperators.Group.List.Basic
import Mathlib.Algebra.GroupWithZero.Nat

/-!
# Greedy packing

Things with weights are put into parcels, in order, and a parcel is closed when the next thing would
make it heavier than the budget allows.  Nothing is lost or put elsewhere by that (`flatten_pack`),
and if no single thing is too heavy then no parcel is (`pack_le`).
-/

namespace Packing

variable {α : Type} (weight : α → ℕ) (budget : ℕ)

/-- The parcels for the things in a list, when one has been begun that holds `parcel` and weighs
`total`. -/
def pack : List α → List α → ℕ → List (List α)
  | [], parcel, _ => if parcel.isEmpty then [] else [parcel]
  | a :: rest, parcel, total =>
    if ¬ parcel.isEmpty ∧ total + weight a > budget then parcel :: pack rest [a] (weight a)
    else pack rest (parcel ++ [a]) (total + weight a)

theorem flatten_pack (things parcel : List α) (total : ℕ) :
    (pack weight budget things parcel total).flatten = parcel ++ things := by
  induction things generalizing parcel total with
  | nil =>
    rw [pack]
    split
    · rename_i h
      rw [List.isEmpty_iff.1 h]
      rfl
    · simp
  | cons _ _ ih =>
    rw [pack]
    split
    · rw [List.flatten_cons, ih, List.singleton_append]
    · rw [ih, List.append_assoc, List.singleton_append]

/-- The weight of a parcel. -/
def total (parcel : List α) : ℕ := (parcel.map weight).sum

theorem pack_le {things : List α} (hthings : ∀ a ∈ things, weight a ≤ budget) {begun : List α}
    (hbegun : total weight begun ≤ budget) :
    ∀ parcel ∈ pack weight budget things begun (total weight begun), total weight parcel ≤ budget := by
  induction things generalizing begun with
  | nil =>
    rw [pack]
    split
    · simp
    · simpa using hbegun
  | cons a _ ih =>
    have hrest := fun b hb => hthings b (List.mem_cons_of_mem a hb)
    have ha := hthings a List.mem_cons_self
    rw [pack]
    split
    · have hsingle : total weight [a] = weight a := by simp [total]
      have hparcels := ih hrest (hsingle.trans_le ha)
      rw [hsingle] at hparcels
      intro parcel hparcel
      rcases List.mem_cons.1 hparcel with rfl | hparcel
      · exact hbegun
      · exact hparcels parcel hparcel
    · rename_i hfits
      have hadded : total weight (begun ++ [a]) = total weight begun + weight a := by simp [total]
      -- A parcel that takes one more thing has room for it, or was empty.
      have hle : total weight (begun ++ [a]) ≤ budget := by
        rw [hadded]
        by_cases hempty : begun.isEmpty
        · rw [List.isEmpty_iff.1 hempty]
          simpa [total] using ha
        · by_contra hover
          exact hfits ⟨hempty, by omega⟩
      have hparcels := ih hrest hle
      rwa [hadded] at hparcels

/-- A parcel holds at most as much as there is. -/
theorem length_le_of_mem {parcels : List (List α)} {parcel : List α} (h : parcel ∈ parcels) :
    parcel.length ≤ parcels.flatten.length := by
  induction parcels with
  | nil => cases h
  | cons _ _ ih =>
    rw [List.flatten_cons, List.length_append]
    rcases List.mem_cons.1 h with rfl | h
    · omega
    · have := ih h
      omega

end Packing
