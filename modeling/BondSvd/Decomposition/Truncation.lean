import BondSvd.Decomposition.Cutoff
import BondSvd.Tolerance

/-! Truncation of a bond: the significant values are capped in number, the tail is dropped
while its mass stays below a threshold, and what is left is brought back to unit norm. -/
namespace BondSvd
universe u
variable {α : Type u} [Scalar α]

/-- How many values have a square above `threshold`. -/
def significantCount (values : List α) (threshold : α) : Nat :=
  values.countP fun x => decide (threshold < Scalar.square x)

/-- Drops indices from `extent` downwards while the dropped mass stays below `threshold`.
Index zero is never dropped. -/
def tailStart (values : List α) (threshold : α) : (extent : Nat) → (dropped : α) → Nat
  | 0, _ => 0
  | 1, _ => 1
  | i + 2, dropped =>
    let more := dropped + Scalar.square (values.getD (i + 1) 0)
    if more < threshold then tailStart values threshold (i + 1) more else i + 2

theorem tailStart_le (values : List α) (threshold : α) (extent : Nat) (dropped : α) :
    tailStart values threshold extent dropped ≤ extent := by
  fun_induction tailStart values threshold extent dropped with
  | case1 => exact Nat.le_refl 0
  | case2 => exact Nat.le_refl 1
  | case3 _ _ _ _ ih => exact Nat.le_succ_of_le ih
  | case4 => exact Nat.le_refl _

theorem tailStart_pos (values : List α) (threshold : α) {extent : Nat} (present : 0 < extent)
    (dropped : α) : 0 < tailStart values threshold extent dropped := by
  fun_induction tailStart values threshold extent dropped with
  | case1 => exact present
  | case2 => exact Nat.one_pos
  | case3 _ _ _ _ ih => exact ih (Nat.succ_pos _)
  | case4 => exact Nat.succ_pos _

/-- The values divided by their norm, unless that is one within the drift or zero. -/
def renormalize (values : List α) : List α :=
  if Tolerance.drift < Scalar.abs (1 - mass values) ∧ 0 < mass values then
    let norm := Scalar.sqrt (mass values)
    values.map (· / norm)
  else values

namespace Decomposition

/-- How many values are significant; one is kept where none is. -/
def significantExtent (r : Decomposition α) : Nat :=
  max (significantCount r.values Tolerance.zero) (min r.values.length 1)

/-- How many values a bond of at most `maxExtent` keeps. -/
def keptExtent (r : Decomposition α) (maxExtent : Nat) (threshold : α) : Nat :=
  tailStart r.values threshold (min r.significantExtent maxExtent) 0

/-- The mass of the significant values that are not kept. -/
def removedMass (r : Decomposition α) (maxExtent : Nat) (threshold : α) : α :=
  mass ((r.values.take r.significantExtent).drop (r.keptExtent maxExtent threshold))

/-- The truncated decomposition, and the mass that was removed from it. -/
def truncate (r : Decomposition α) (maxExtent : Nat) (threshold : α) : Decomposition α × α :=
  let kept := r.take (r.keptExtent maxExtent threshold)
  ({ kept with values := renormalize kept.values }, r.removedMass maxExtent threshold)

theorem significantExtent_le (r : Decomposition α) : r.significantExtent ≤ r.values.length :=
  Nat.max_le.mpr ⟨List.countP_le_length, Nat.min_le_left ..⟩

theorem keptExtent_le (r : Decomposition α) (maxExtent : Nat) (threshold : α) :
    r.keptExtent maxExtent threshold ≤ min r.significantExtent maxExtent := tailStart_le ..

theorem values_truncate_length (r : Decomposition α) (maxExtent : Nat) (threshold : α) :
    (r.truncate maxExtent threshold).1.values.length = r.keptExtent maxExtent threshold := by
  have fits : r.keptExtent maxExtent threshold ≤ r.values.length :=
    Nat.le_trans (keptExtent_le r maxExtent threshold)
      (Nat.le_trans (Nat.min_le_left ..) r.significantExtent_le)
  have same (values : List α) : (renormalize values).length = values.length := by
    unfold renormalize
    split
    · exact List.length_map ..
    · rfl
  rw [truncate, same, take, List.length_take, Nat.min_eq_left fits]

end Decomposition
end BondSvd
