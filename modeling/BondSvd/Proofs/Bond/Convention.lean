import Mathlib
import BondSvd.Bond.Compressor
import BondSvd.Proofs.Bond.Leading

/-! The stored orientation of the right factor does not show. Turning a decomposition to the adjoint
convention commutes with every step that keeps a decomposition, and every step that reads one out
gives the same before and after the turn. -/
namespace BondSvd
universe u
variable {α : Type u} [Scalar α]

namespace Decomposition

/-- Turning to the adjoint convention stores what the right vectors show anyway. -/
theorem withConvention_adjoint (r : Decomposition α) :
    r.withConvention .adjoint = { r with right := r.rightAdjoint, convention := .adjoint } := by
  obtain ⟨left, values, right, convention, truncation⟩ := r
  cases convention <;> rfl

@[simp] theorem left_turned (r : Decomposition α) : (r.withConvention .adjoint).left = r.left := by
  rw [withConvention_adjoint]

@[simp] theorem values_turned (r : Decomposition α) : (r.withConvention .adjoint).values = r.values := by
  rw [withConvention_adjoint]

@[simp] theorem truncation_turned (r : Decomposition α) : (r.withConvention .adjoint).truncation = r.truncation := by
  rw [withConvention_adjoint]

@[simp] theorem rightAdjoint_turned (r : Decomposition α) :
    (r.withConvention .adjoint).rightAdjoint = r.rightAdjoint := by
  rw [withConvention_adjoint]
  rfl

private theorem rebuild_turned (r : Decomposition α) : (r.withConvention .adjoint).rebuild = r.rebuild := by
  simp only [rebuild, middle, left_turned, values_turned, rightAdjoint_turned]

private theorem validate_turned (r : Decomposition α) (A : DenseMatrix α) :
    (r.withConvention .adjoint).validate A = r.validate A := by
  simp only [validate, rebuild_turned]

/-- Whichever factor is stored, keeping triples keeps the leading rows of the right one. -/
theorem rightAdjoint_take (r : Decomposition α) (k : ℕ) : (r.take k).rightAdjoint = r.rightAdjoint.leadingRows k := by
  obtain ⟨left, values, right, convention, truncation⟩ := r
  cases convention
  · exact DenseMatrix.adjoint_leadingCols right k
  · rfl

private theorem take_turned (r : Decomposition α) (k : ℕ) :
    (r.withConvention .adjoint).take k = (r.take k).withConvention .adjoint := by
  rw [withConvention_adjoint, withConvention_adjoint, rightAdjoint_take]
  rfl

private theorem cut_turned (r : Decomposition α) (c : Cutoff α) :
    (r.withConvention .adjoint).cut c = ((r.cut c).1.withConvention .adjoint, (r.cut c).2) := by
  simp only [cut, values_turned, take_turned]
  split <;> rfl

private theorem truncate_turned (r : Decomposition α) (maxExtent : ℕ) (threshold : α) :
    (r.withConvention .adjoint).truncate maxExtent threshold =
      ((r.truncate maxExtent threshold).1.withConvention .adjoint, (r.truncate maxExtent threshold).2) := by
  have kept : (r.withConvention .adjoint).keptExtent maxExtent threshold = r.keptExtent maxExtent threshold := by
    simp only [keptExtent, significantExtent, values_turned]
  have removed : (r.withConvention .adjoint).removedMass maxExtent threshold = r.removedMass maxExtent threshold := by
    simp only [removedMass, significantExtent, kept, values_turned]
  rw [truncate, truncate, kept, removed, take_turned, withConvention_adjoint, withConvention_adjoint]
  rfl

theorem rightAdjoint_of_columns {r : Decomposition α} (columns : r.convention = .columns) :
    r.rightAdjoint = r.right.adjoint := by
  rw [rightAdjoint, columns]

private theorem convention_cut (r : Decomposition α) (c : Cutoff α) : (r.cut c).1.convention = r.convention := by
  unfold cut
  dsimp only
  split <;> rfl

end Decomposition

namespace Backend

/-- The second backend answers as the first does, in the adjoint convention. -/
def Turns (backend backend' : Backend α) : Prop :=
  ∀ policy A, backend'.run policy A = (backend.run policy A).andThen fun r => .ok (r.withConvention .adjoint)

/-- The backend with its answers turned to the adjoint convention. -/
def turned (backend : Backend α) : Backend α :=
  { backend with
    convention := .adjoint
    run := fun policy A => (backend.run policy A).andThen fun r => .ok (r.withConvention .adjoint) }

private theorem turns_turned (backend : Backend α) : backend.Turns backend.turned := fun _ _ => rfl

private theorem check_turned (policy : Policy α) (input : DenseMatrix α) (r : Decomposition α) :
    check policy input (r.withConvention .adjoint) = check policy input r := by
  have skips : skipsValidation (r.withConvention .adjoint) = skipsValidation r := by
    rw [Decomposition.withConvention_adjoint]
    rfl
  rw [check, check, skips, Decomposition.validate_turned]

private theorem applyCutoff_turned (policy : Policy α) (r : Decomposition α) :
    applyCutoff policy (r.withConvention .adjoint) = (applyCutoff policy r).withConvention .adjoint := by
  simp only [applyCutoff, Decomposition.truncation_turned, Decomposition.cut_turned]
  split
  · rw [Decomposition.withConvention_adjoint, Decomposition.withConvention_adjoint]
    rfl
  · rfl

private theorem finish_turned (policy : Policy α) (input : DenseMatrix α) (r : Decomposition α) :
    finish policy input (r.withConvention .adjoint) =
      (finish policy input r).bind fun kept => .ok (kept.withConvention .adjoint) := by
  rw [finish, finish, check_turned, applyCutoff_turned]
  cases check policy input r <;> rfl

theorem Turns.decompose {backend backend' : Backend α} (turns : backend.Turns backend') : ∀ policy A,
    backend'.decompose policy A =
      (backend.decompose policy A).andThen fun r => .ok (r.withConvention .adjoint) := by
  intro policy A
  calc backend'.decompose policy A
      = (backend.run policy A).andThen fun r => finish policy A (r.withConvention .adjoint) := by
        rw [Backend.decompose, turns, Recorded.andThen_andThen]
        rfl
    _ = (backend.run policy A).andThen fun r =>
          (finish policy A r).bind fun kept => .ok (kept.withConvention .adjoint) := by
        simp only [finish_turned]
    _ = (backend.decompose policy A).andThen fun r => .ok (r.withConvention .adjoint) := by
        rw [Backend.decompose, Recorded.andThen_andThen]

end Backend

namespace Compressor

private theorem splitFactors_turned (config : CompressionConfig α) (r : Decomposition α) :
    splitFactors config (r.withConvention .adjoint) = splitFactors config r := by
  simp only [splitFactors, Decomposition.truncate_turned, cutoffMass, rightBlocks, Decomposition.left_turned,
    Decomposition.values_turned, Decomposition.truncation_turned, Decomposition.rightAdjoint_turned]

/-- A bond does not tell in which convention its backend answered. -/
theorem split_turned {backend backend' : Backend α} (turns : backend.Turns backend') (config : CompressionConfig α)
    (policy : Policy α) (blocks : SiteBlocks α) :
    (Compressor.mk backend' config policy).split blocks = (Compressor.mk backend config policy).split blocks := by
  unfold split
  cases blocks.pack with
  | error fault => rfl
  | ok packed =>
    have turned (r : Decomposition α) : (Except.ok (r.withConvention .adjoint)).bind (splitFactors config) =
        splitFactors config r := splitFactors_turned config r
    dsimp only
    rw [turns.decompose, Recorded.andThen_andThen]
    simp only [turned]

end Compressor

/-- Turned to the adjoint convention, a decomposition rebuilds the same matrix and passes the same
comparisons. Any cutoff and truncation after it remove the same mass and leave the same, up to the
turn. The halves of the right factor are the same two blocks, and so are the bonds that are compressed
with backends in either convention. -/
theorem Decomposition.turn_invisible {r : Decomposition α} (columns : r.convention = .columns) :
    (r.withConvention .adjoint).rebuild = r.rebuild ∧
      (∀ A, (r.withConvention .adjoint).validate A = r.validate A) ∧
      (∀ c maxExtent threshold,
        let plain := (r.cut c).1.truncate maxExtent threshold
        let turned := ((r.withConvention .adjoint).cut c).1.truncate maxExtent threshold
        ((r.withConvention .adjoint).cut c).2 = (r.cut c).2 ∧ turned.2 = plain.2 ∧
          turned.1.left = plain.1.left ∧ turned.1.values = plain.1.values ∧
          turned.1.right = plain.1.right.adjoint) ∧
      (r.withConvention .adjoint).right.colHalves = r.right.adjoint.colHalves ∧
      ∀ backend backend' : Backend α, backend.Turns backend' → ∀ config policy blocks,
        (Compressor.mk backend' config policy).split blocks = (Compressor.mk backend config policy).split blocks := by
  refine ⟨rebuild_turned r, validate_turned r, fun c maxExtent threshold => ?_, ?_, fun backend backend' turns => ?_⟩
  · dsimp only
    rw [cut_turned]
    dsimp only
    rw [truncate_turned]
    have stored : ((r.cut c).1.truncate maxExtent threshold).1.convention = .columns :=
      (convention_cut r c).trans columns
    refine ⟨rfl, rfl, left_turned _, values_turned _, ?_⟩
    rw [withConvention_adjoint]
    exact rightAdjoint_of_columns stored
  · rw [withConvention_adjoint]
    exact congrArg DenseMatrix.colHalves (rightAdjoint_of_columns columns)
  · exact Compressor.split_turned turns

/-- Two values with left vectors along the axes and right vectors that cross them. -/
def crossed : Decomposition Float :=
  ⟨.identity 2, [2, 1], .ofFn 4 2 fun i j => ⟨0, if i + j = 3 then 1 else 0⟩, .columns, none⟩

theorem Decomposition.turn_invisible_crossed :
    crossed.convention = .columns ∧ (Backend.reference : Backend Float).Turns Backend.reference.turned ∧
      (crossed.withConvention .adjoint).rebuild = crossed.rebuild ∧
      (crossed.withConvention .adjoint).right.colHalves = crossed.right.adjoint.colHalves ∧
      ∀ config policy blocks, (Compressor.mk (Backend.reference : Backend Float).turned config policy).split blocks =
        (Compressor.mk Backend.reference config policy).split blocks := by
  have columns : crossed.convention = .columns := rfl
  obtain ⟨rebuilt, -, -, halves, bonds⟩ := turn_invisible columns
  have turns := Backend.turns_turned (Backend.reference : Backend Float)
  exact ⟨columns, turns, rebuilt, halves, bonds _ _ turns⟩

end BondSvd
