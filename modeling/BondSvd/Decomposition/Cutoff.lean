import BondSvd.Decomposition.Basic
import BondSvd.Policy

/-! Cutting off singular values by their size. The record of a cut gives the removed share
of the squared norm, from which the removed mass can be had back with the kept values. -/
namespace BondSvd
universe u

/-- The sum of the squares of singular values. -/
def mass {α : Type u} [Scalar α] (values : List α) : α := total (values.map Scalar.square)

/-- Values at or below `abs`, or at or below `rel` times the first, are cut off. Zero
switches either rule off. -/
structure Cutoff (α : Type u) where
  abs : α
  rel : α

namespace Cutoff
variable {α : Type u} [Scalar α]

def none : Cutoff α := ⟨0, 0⟩

def ofPolicy (policy : Policy α) : Cutoff α := ⟨policy.absCutoff, policy.relCutoff⟩

def isActive (c : Cutoff α) : Bool := decide (0 < c.abs) || decide (0 < c.rel)

/-- The larger of the two bounds, for a spectrum that begins with `first`. -/
def threshold (c : Cutoff α) (first : α) : α := Scalar.larger c.abs (c.rel * first)

/-- How many leading values survive: at least one where there is one. -/
def retained (c : Cutoff α) (values : List α) : Nat :=
  match values with
  | [] => 0
  | first :: _ =>
    if c.isActive then
      max (values.takeWhile fun x => decide (c.threshold first < x)).length 1
    else values.length

theorem retained_le (c : Cutoff α) (values : List α) : c.retained values ≤ values.length := by
  unfold retained
  split
  · exact Nat.le_refl 0
  · next first rest =>
    split
    · exact Nat.max_le.mpr ⟨(List.takeWhile_sublist _).length_le, Nat.succ_pos _⟩
    · exact Nat.le_refl _

theorem retained_pos (c : Cutoff α) {values : List α} (present : values ≠ []) :
    0 < c.retained values := by
  unfold retained
  split
  · exact absurd rfl present
  · split
    · exact Nat.le_max_right _ _
    · exact Nat.succ_pos _

end Cutoff

namespace TruncationRecord
variable {α : Type u} [Scalar α]

/-- The record of keeping the first `extent` values. -/
def ofSpectrum (values : List α) (extent : Nat) : TruncationRecord α :=
  let reduced := min extent values.length
  { fullExtent := values.length
    reducedExtent := reduced
    discardedWeight :=
      if 0 < mass values then mass (values.drop reduced) / mass values else 0 }

/-- The mass that was removed, given the values that were kept. Without kept mass the
weight does not tell it, and it counts as zero. -/
def discardedMass (record : TruncationRecord α) (kept : List α) : α :=
  if record.discardedWeight ≤ 0 ∨ 1 ≤ record.discardedWeight ∨ mass kept == 0 then 0
  else record.discardedWeight * mass kept / (1 - record.discardedWeight)

end TruncationRecord

namespace Decomposition
variable {α : Type u} [Scalar α]

/-- Removes what the cutoff does not retain, with the record of the cut. -/
def cut (r : Decomposition α) (c : Cutoff α) : Decomposition α × TruncationRecord α :=
  let kept := c.retained r.values
  let record := TruncationRecord.ofSpectrum r.values kept
  (if record.isTruncated then r.take kept else r, record)

end Decomposition
end BondSvd
