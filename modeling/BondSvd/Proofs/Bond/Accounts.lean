import Mathlib
import BondSvd.Proofs.Bond.Blocks
import BondSvd.Proofs.Bond.Convention
import BondSvd.Proofs.Spectrum.Cutoff
import BondSvd.Proofs.Spectrum.Truncation

/-! The books of a compressed bond. Value cutoff, significance, bond cap, threshold and
renormalization truncate one spectrum after another; whichever of them bites, the two sites
miss the blocks by the mass that is reported and by the mass that is too faint to report. -/
namespace BondSvd
universe u

private theorem almostEqual_self (x : ℝ) {slack : ℝ} (loose : 0 ≤ slack) : almostEqual x x slack = true := by
  simp [almostEqual, Scalar.abs_exact, loose]

private theorem DenseMatrix.firstMismatch_self (A : DenseMatrix ℝ) : A.firstMismatch A = none := by
  refine List.find?_eq_none.mpr fun pair _ => ?_
  simp [Cplx.almostEqual, almostEqual_self _ Tolerance.drift_pos.le]

private theorem DenseMatrix.leadingCols_leadingCols {α : Type u} [Scalar α] (A : DenseMatrix α) {k extent : ℕ} (below : k ≤ extent) :
    (A.leadingCols extent).leadingCols k = A.leadingCols k := by
  have cols : min k (min extent A.cols) = min k A.cols := by omega
  refine ext rfl cols fun i j row col => ?_
  replace row : i < A.rows := row
  replace col : j < min k (min extent A.cols) := col
  rw [entry_leadingCols (A.leadingCols extent) row col, entry_leadingCols A row (by omega),
    entry_leadingCols A row (by omega)]

private theorem DenseMatrix.leadingRows_leadingRows {α : Type u} [Scalar α] (A : DenseMatrix α) {k extent : ℕ} (below : k ≤ extent) :
    (A.leadingRows extent).leadingRows k = A.leadingRows k := by
  have rows : min k (min extent A.rows) = min k A.rows := by omega
  refine ext rows rfl fun i j row col => ?_
  replace row : i < min k (min extent A.rows) := row
  replace col : j < A.cols := col
  rw [entry_leadingRows (A.leadingRows extent) row col, entry_leadingRows A (by omega) col,
    entry_leadingRows A (by omega) col]

namespace Decomposition
variable {α : Type u} [Scalar α] {r : Decomposition ℝ} {A : DenseMatrix ℝ}

theorem IsSvd.check (svd : r.IsSvd A) (policy : Policy ℝ) : Backend.check policy A r = .ok () := by
  rw [Backend.check]
  split
  · rw [validate, svd.rebuild, if_pos rfl, DenseMatrix.firstMismatch_self]
  · rfl

/-- The first `extent` triples of a decomposition: what they are, and what was left out. -/
structure LeadsTo (r cut : Decomposition ℝ) (extent : ℕ) : Prop where
  values : cut.values = r.values.take extent
  left : ∀ k ≤ extent, cut.left.leadingCols k = r.left.leadingCols k
  rightAdjoint : ∀ k ≤ extent, cut.rightAdjoint.leadingRows k = r.rightAdjoint.leadingRows k

private theorem leadsTo_take (r : Decomposition ℝ) (extent : ℕ) : r.LeadsTo (r.take extent) extent where
  values := rfl
  left _ below := DenseMatrix.leadingCols_leadingCols r.left below
  rightAdjoint k below := by
    rw [rightAdjoint_take]
    exact DenseMatrix.leadingRows_leadingRows r.rightAdjoint below

private theorem leadsTo_self (r : Decomposition ℝ) : r.LeadsTo r r.values.length :=
  ⟨List.take_length.symm, fun _ _ => rfl, fun _ _ => rfl⟩

private theorem cut_leadsTo (r : Decomposition ℝ) (c : Cutoff ℝ) : r.LeadsTo (r.cut c).1 (c.retained r.values) := by
  rcases (c.retained_le r.values).lt_or_eq with fewer | all
  · rw [Decomposition.cut_of_fewer fewer]
    exact leadsTo_take r _
  · rw [Decomposition.cut_of_all all, all]
    exact leadsTo_self r

/-- A policy's cutoff keeps the leading triples and records the mass of the others. -/
theorem IsSvd.applyCutoff (svd : r.IsSvd A) (policy : Policy ℝ) (present : r.values ≠ []) :
    r.LeadsTo (Backend.applyCutoff policy r) ((Cutoff.ofPolicy policy).retained r.values) ∧
      Compressor.cutoffMass (Backend.applyCutoff policy r) =
        mass (r.values.drop ((Cutoff.ofPolicy policy).retained r.values)) := by
  set c := Cutoff.ofPolicy policy with rule
  have kept := c.retained_pos present
  rw [Backend.applyCutoff, svd.complete, ← rule]
  by_cases active : c.isActive = true
  · have leads := cut_leadsTo r c
    rw [active]
    refine ⟨⟨leads.values, leads.left, leads.rightAdjoint⟩, ?_⟩
    have record : Compressor.cutoffMass { (r.cut c).1 with truncation := some (r.cut c).2 } =
        (r.cut c).2.discardedMass (r.cut c).1.values := rfl
    refine record.trans ?_
    rw [leads.values]
    exact TruncationRecord.discardedMass_ofSpectrum svd.descending kept
  · have all := c.retained_of_inactive active r.values
    rw [Bool.eq_false_of_not_eq_true active, all]
    refine ⟨leadsTo_self r, ?_⟩
    have silent : Compressor.cutoffMass r = 0 := by rw [Compressor.cutoffMass, svd.complete]
    rw [List.drop_length, mass_nil]
    exact silent

/-- A bond's truncation keeps the leading triples, renormalized. -/
theorem LeadsTo.keeps {cut : Decomposition ℝ} {extent maxExtent : ℕ} {threshold : ℝ}
    (leads : r.LeadsTo cut extent) (below : cut.keptExtent maxExtent threshold ≤ extent) :
    r.Keeps (cut.truncate maxExtent threshold).1 (cut.keptExtent maxExtent threshold)
      (renormFactor (r.values.take (cut.keptExtent maxExtent threshold))) where
  left := leads.left _ below
  rightAdjoint := (rightAdjoint_take cut _).trans (leads.rightAdjoint _ below)
  values := by
    have kept : cut.values.take (cut.keptExtent maxExtent threshold) =
        r.values.take (cut.keptExtent maxExtent threshold) := by
      rw [leads.values, List.take_take, min_eq_left below]
    rw [← kept]
    exact renormalize_eq _

end Decomposition

/-- What a compressed bond owes to the blocks and to the spectrum of their packed matrix, of
which the first `extent` values survive the cutoff. -/
structure BondSplit.Accounted (split : BondSplit ℝ) (blocks : SiteBlocks ℝ) (p q : ℕ) (spectrum : List ℝ)
    (extent limit : ℕ) : Prop where
  dimension_pos : 1 ≤ split.dimension
  dimension_le : split.dimension ≤ limit
  leftShape : split.left.1.shape = (p, split.dimension) ∧ split.left.2.shape = (p, split.dimension)
  rightShape : split.right.1.shape = (split.dimension, q) ∧ split.right.2.shape = (split.dimension, q)
  leftIsometry : (split.left.1.adjoint.mul split.left.1).add (split.left.2.adjoint.mul split.left.2) =
    .identity split.dimension
  rightIsometry : (split.right.1.mul split.right.1.adjoint).add (split.right.2.mul split.right.2.adjoint) =
    .identity split.dimension
  coefficients : split.coefficients =
    (spectrum.take split.dimension).map (· / renormFactor (spectrum.take split.dimension))
  descending : isDescending split.coefficients = true
  normalized : (∀ x ∈ spectrum.take split.dimension, x = 0) ∨ |1 - mass split.coefficients| ≤ Tolerance.drift
  residual : blocks.squaredDistance (split.products (renormFactor (spectrum.take split.dimension))) =
    split.discarded + faintMass (spectrum.take extent) split.dimension
  faint_nonneg : 0 ≤ faintMass (spectrum.take extent) split.dimension
  faint_le : faintMass (spectrum.take extent) split.dimension ≤ (min (2 * p) (2 * q) : ℕ) * Tolerance.zero

namespace Compressor
variable {c : Compressor ℝ} {blocks : SiteBlocks ℝ} {p q : ℕ} {r : Decomposition ℝ}

private theorem splitFactors_eq {config : CompressionConfig ℝ} {cut : Decomposition ℝ}
    {left right : DenseMatrix ℝ × DenseMatrix ℝ}
    (rows : (cut.truncate config.maxBondDimension.toNat config.truncationThreshold).1.left.rowHalves = .ok left)
    (cols : (cut.truncate config.maxBondDimension.toNat config.truncationThreshold).1.rightAdjoint.colHalves =
      .ok right) :
    splitFactors config cut =
      .ok ⟨left, (cut.truncate config.maxBondDimension.toNat config.truncationThreshold).1.values, right,
        cutoffMass cut + cut.removedMass config.maxBondDimension.toNat config.truncationThreshold⟩ := by
  simp only [splitFactors, rightBlocks, rows, cols]
  rfl

/-- Halves of the leading triples account for the blocks, when the mass of all other values is
either reported or faint. -/
theorem accounted_of_keeps {packed : DenseMatrix ℝ} {whole : Decomposition ℝ} {split : BondSplit ℝ}
    {k extent limit : ℕ} (quarters : blocks.QuartersOf packed p q) (svd : r.IsSvd packed) (present : 0 < k)
    (capped : k ≤ limit) (inside : k ≤ r.values.length)
    (keeps : r.Keeps whole k (renormFactor (r.values.take k))) (left : whole.left.RowHalves split.left p)
    (right : whole.rightAdjoint.ColHalves split.right q) (values : split.coefficients = whole.values)
    (books : split.discarded + faintMass (r.values.take extent) k = mass (r.values.drop k)) :
    split.Accounted blocks p q r.values extent limit := by
  have extents := svd.extent
  rw [DenseMatrix.rows_of_shape quarters.shape, DenseMatrix.cols_of_shape quarters.shape] at extents
  have leftUnitary : r.left.Unitary (p + p) := DenseMatrix.rows_of_shape quarters.shape ▸ svd.left
  have rightUnitary : r.rightAdjoint.Unitary (q + q) := DenseMatrix.cols_of_shape quarters.shape ▸ svd.rightAdjoint
  have positive := renormFactor_pos (r.values.take k)
  have dimension : split.dimension = k := by
    rw [BondSplit.dimension, values, keeps.values, List.length_map, List.length_take_of_le inside]
  subst dimension
  have leftRows := keeps.rows_left.trans (DenseMatrix.rows_of_shape leftUnitary.shape)
  have rightCols := keeps.cols_rightAdjoint.trans (DenseMatrix.cols_of_shape rightUnitary.shape)
  have leftCols : whole.left.cols = split.dimension := by
    rw [keeps.left]
    exact min_eq_left (by rw [DenseMatrix.cols_of_shape leftUnitary.shape]; omega)
  have rightRows : whole.rightAdjoint.rows = split.dimension := by
    rw [keeps.rightAdjoint]
    exact min_eq_left (by rw [DenseMatrix.rows_of_shape rightUnitary.shape]; omega)
  have coefficients := values.trans keeps.values
  have sorted : isDescending (r.values.take split.dimension) = true :=
    isDescending_sublist (List.take_sublist _ _) svd.descending
  constructor
  case leftShape => exact ⟨leftCols ▸ left.upperShape, leftCols ▸ left.lowerShape⟩
  case rightShape => exact ⟨rightRows ▸ right.leftShape, rightRows ▸ right.rightShape⟩
  case leftIsometry =>
    rw [left.add_adjoint_mul leftRows, keeps.left]
    exact DenseMatrix.leadingCols_isometry leftUnitary (by omega)
  case rightIsometry =>
    rw [right.add_mul_adjoint rightCols, keeps.rightAdjoint]
    exact DenseMatrix.leadingRows_isometry rightUnitary (by omega)
  case coefficients => exact coefficients
  case residual =>
    rw [books, ← svd.squaredDistance_keeps keeps positive inside]
    exact (quarters.squaredDistance (BondSplit.products_quartersOf _ left leftRows right rightCols values)).symm
  case normalized =>
    rw [coefficients, ← renormalize_eq]
    exact mass_renormalize _
  case descending =>
    rw [coefficients]
    exact isDescending_map_div positive sorted
  case faint_nonneg => exact faintMass_nonneg _ _
  case faint_le =>
    have few : (r.values.take extent).length ≤ min (2 * p) (2 * q) :=
      (List.length_take_le' ..).trans (by omega)
    exact (faintMass_le _ _).trans (mul_le_mul_of_nonneg_right (Nat.cast_le.mpr few) Tolerance.zero_pos.le)
  case dimension_pos => exact present
  case dimension_le => exact capped

/-- Truncating what a cutoff left, and cutting its factors in halves, accounts for the blocks. -/
theorem splitFactors_accounted {config : CompressionConfig ℝ} {packed : DenseMatrix ℝ} {cut : Decomposition ℝ}
    {extent : ℕ} (quarters : blocks.QuartersOf packed p q) (room : 0 < config.maxBondDimension.toNat)
    (svd : r.IsSvd packed) (leads : r.LeadsTo cut extent)
    (removed : cutoffMass cut = mass (r.values.drop extent)) (kept : 0 < extent)
    (inside : extent ≤ r.values.length) :
    ∃ split, splitFactors config cut = .ok split ∧
      split.Accounted blocks p q r.values extent config.maxBondDimension.toNat := by
  have length : cut.values.length = extent := by rw [leads.values, List.length_take_of_le inside]
  have descending : isDescending cut.values = true := by
    rw [leads.values]
    exact isDescending_sublist (List.take_sublist _ _) svd.descending
  have present : 0 < cut.values.length := kept.trans_eq length.symm
  have capped := cut.keptExtent_le config.maxBondDimension.toNat config.truncationThreshold
  have significant := cut.significantExtent_le
  have below : cut.keptExtent config.maxBondDimension.toNat config.truncationThreshold ≤ extent := by omega
  have keeps := leads.keeps below
  obtain ⟨left, rowHalves, leftHalves⟩ := DenseMatrix.rowHalves_of_even
    (keeps.rows_left.trans ((DenseMatrix.rows_of_shape svd.left.shape).trans (DenseMatrix.rows_of_shape quarters.shape)))
  obtain ⟨right, colHalves, rightHalves⟩ := DenseMatrix.colHalves_of_even (keeps.cols_rightAdjoint.trans
    ((DenseMatrix.cols_of_shape svd.rightAdjoint.shape).trans (DenseMatrix.cols_of_shape quarters.shape)))
  refine ⟨_, splitFactors_eq rowHalves colHalves, ?_⟩
  have some := Decomposition.keptExtent_pos present room config.truncationThreshold
  have books := Decomposition.removedMass_add_faintMass descending present room config.truncationThreshold
  refine accounted_of_keeps quarters svd some (by omega) (below.trans inside) keeps leftHalves rightHalves rfl ?_
  -- What the cutoff removed lies behind what the truncation removed from the rest.
  set k := cut.keptExtent config.maxBondDimension.toNat config.truncationThreshold
  have behind : r.values.drop extent = (r.values.drop k).drop (extent - k) := by
    rw [List.drop_drop, Nat.add_sub_cancel' below]
  rw [leads.values, List.drop_take] at books
  calc cutoffMass cut + cut.removedMass config.maxBondDimension.toNat config.truncationThreshold +
        faintMass (r.values.take extent) k
      = mass (r.values.drop extent) + mass ((r.values.drop k).take (extent - k)) := by
        rw [removed, add_assoc, books]
    _ = mass (r.values.drop k) := by rw [behind, add_comm, mass_take_add_mass_drop]

/-- Two bond indices that are not coupled to each other. -/
noncomputable def sampleBond : SiteBlocks ℝ where
  upperLeft := .ofFn 1 1 fun _ _ => .ofScalar 4.0
  upperRight := .ofFn 1 1 fun _ _ => 0
  lowerLeft := .ofFn 1 1 fun _ _ => 0
  lowerRight := .ofFn 1 1 fun _ _ => .ofScalar 3.0

noncomputable def sampleSvd : Decomposition ℝ := ⟨.identity 2, [4.0, 3.0], .identity 2, .columns, none⟩

/-- Keeps one of the two values. -/
noncomputable def sampleCompressor : Compressor ℝ :=
  ⟨⟨"sample", .columns, fun _ _ => .pure sampleSvd⟩, { maxBondDimension := 1 }, {}⟩

private theorem sampleBond_uniform : sampleBond.Uniform 1 1 := ⟨rfl, rfl, rfl, rfl⟩

private theorem identity_unitary (n : ℕ) : (DenseMatrix.identity n : DenseMatrix ℝ).Unitary n :=
  DenseMatrix.unitary_iff.mpr ⟨rfl, DenseMatrix.toMatrix_identity (n := n) ▸ one_mem _⟩

private theorem sampleSvd_rebuild : sampleSvd.rebuild = .diagonal [4.0, 3.0] 2 2 := by
  have left : sampleSvd.left.toMatrix 2 2 = 1 := DenseMatrix.toMatrix_identity
  have right : (DenseMatrix.identity 2 : DenseMatrix ℝ).adjoint.toMatrix 2 2 = 1 := by
    rw [DenseMatrix.toMatrix_adjoint (m := 2) (n := 2) rfl, DenseMatrix.toMatrix_identity, Matrix.conjTranspose_one]
  have product : sampleSvd.rebuild.toMatrix 2 2 =
      sampleSvd.left.toMatrix 2 2 * (DenseMatrix.diagonal [4.0, 3.0] 2 2).toMatrix 2 2 *
        (DenseMatrix.identity 2 : DenseMatrix ℝ).adjoint.toMatrix 2 2 := Decomposition.toMatrix_rebuild sampleSvd rfl rfl
  rw [left, right, Matrix.one_mul, Matrix.mul_one] at product
  exact DenseMatrix.toMatrix_inj rfl rfl product

private theorem sampleBond_packed {packed : DenseMatrix ℝ} (packs : sampleBond.pack = .ok packed) :
    packed = .diagonal [4.0, 3.0] 2 2 := by
  obtain ⟨P, packs', quarters⟩ := SiteBlocks.pack_of_uniform sampleBond_uniform
  obtain rfl : P = packed := Except.ok.inj (packs'.symm.trans packs)
  refine DenseMatrix.ext (DenseMatrix.rows_of_shape quarters.shape) (DenseMatrix.cols_of_shape quarters.shape) ?_
  have upperLeft := (quarters.upperLeft 0 one_pos 0 one_pos).symm.trans (DenseMatrix.entry_ofFn _ one_pos one_pos)
  have upperRight := (quarters.upperRight 0 one_pos 0 one_pos).symm.trans (DenseMatrix.entry_ofFn _ one_pos one_pos)
  have lowerLeft := (quarters.lowerLeft 0 one_pos 0 one_pos).symm.trans (DenseMatrix.entry_ofFn _ one_pos one_pos)
  have lowerRight := (quarters.lowerRight 0 one_pos 0 one_pos).symm.trans (DenseMatrix.entry_ofFn _ one_pos one_pos)
  intro i j row col
  rw [DenseMatrix.rows_of_shape quarters.shape] at row
  rw [DenseMatrix.cols_of_shape quarters.shape] at col
  rw [DenseMatrix.entry_diagonal _ row col]
  interval_cases i <;> interval_cases j <;> simp_all

private theorem sampleSvd_isSvd {packed : DenseMatrix ℝ} (packs : sampleBond.pack = .ok packed) :
    sampleSvd.IsSvd packed := by
  obtain rfl := sampleBond_packed packs
  refine ⟨identity_unitary 2, identity_unitary 2, rfl, isDescending_iff.mpr ?_, sampleSvd_rebuild, rfl⟩
  constructor
  · norm_num [sampleSvd]
  · norm_num [sampleSvd]

/-- A valid compressor whose backend answers with an exact decomposition splits every bond, and
keeps exact books of what the truncation costs. -/
theorem split_accounted (uniform : blocks.Uniform p q) (rows : 0 < p) (cols : 0 < q)
    (valid : c.config.validate = .ok ())
    (answer : ∀ packed, blocks.pack = .ok packed →
      (c.backend.run c.policy packed).result = .ok r ∧ r.IsSvd packed) :
    ∃ split, (c.split blocks).result = .ok split ∧
      split.Accounted blocks p q r.values ((Cutoff.ofPolicy c.policy).retained r.values)
        c.config.maxBondDimension.toNat := by
  obtain ⟨packed, packs, quarters⟩ := SiteBlocks.pack_of_uniform uniform
  obtain ⟨answered, svd⟩ := answer packed packs
  have extent : r.values.length = min (p + p) (q + q) := by
    rw [svd.extent, DenseMatrix.rows_of_shape quarters.shape, DenseMatrix.cols_of_shape quarters.shape]
  have present : r.values ≠ [] := List.ne_nil_of_length_pos (by omega)
  have room : 0 < c.config.maxBondDimension.toNat := by
    refine Nat.pos_of_ne_zero fun none => ?_
    have zero : c.config.maxBondDimension = 0 := UInt64.toNat_inj.mp none
    rw [CompressionConfig.validate, if_pos zero] at valid
    cases valid
  obtain ⟨leads, removed⟩ := svd.applyCutoff c.policy present
  obtain ⟨split, halved, accounted⟩ := splitFactors_accounted quarters room svd leads removed
    (Cutoff.retained_pos _ present) (Cutoff.retained_le _ r.values)
  refine ⟨split, ?_, accounted⟩
  have finished : Backend.finish c.policy packed r = .ok (Backend.applyCutoff c.policy r) := by
    rw [Backend.finish, svd.check]
    rfl
  rw [Compressor.split, packs]
  dsimp only
  rw [Recorded.result_andThen, Backend.decompose, Recorded.result_andThen, answered]
  change (Backend.finish c.policy packed r).bind (splitFactors c.config) = _
  rw [finished]
  exact halved

theorem split_accounted_sampleBond :
    ∃ split, (sampleCompressor.split sampleBond).result = .ok split ∧
      split.Accounted sampleBond 1 1 [4, 3] 2 1 := by
  have values : sampleSvd.values = [4, 3] := by norm_num [sampleSvd]
  have valid : sampleCompressor.config.validate = .ok () := by
    simp [CompressionConfig.validate, sampleCompressor]
  have extent : (Cutoff.ofPolicy sampleCompressor.policy).retained sampleSvd.values = 2 :=
    Cutoff.retained_of_inactive _ (by simp [Cutoff.isActive, Cutoff.ofPolicy, sampleCompressor]) _
  have accounted := split_accounted sampleBond_uniform one_pos one_pos valid
    fun packed packs => ⟨rfl, sampleSvd_isSvd packs⟩
  rwa [extent, values] at accounted

end Compressor
end BondSvd
