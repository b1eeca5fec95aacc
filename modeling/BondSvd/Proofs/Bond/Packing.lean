import Mathlib
import BondSvd.Proofs.Bond.Blocks

/-! Which packed blocks come back. The packer asks that the blocks of a row are equally high and that
both rows are equally wide, and the halves know no other boundary than the middle. They agree on
blocks of one shape only. -/
namespace BondSvd
universe u
variable {α : Type u} [Scalar α]

/-- The left and the right halves of the upper and of the lower half. -/
def DenseMatrix.quarters (A : DenseMatrix α) : Except (Error α) (SiteBlocks α) := do
  let (upper, lower) ← A.rowHalves
  let (upperLeft, upperRight) ← upper.colHalves
  let (lowerLeft, lowerRight) ← lower.colHalves
  return ⟨upperLeft, upperRight, lowerLeft, lowerRight⟩

namespace SiteBlocks
variable {blocks blocks' : SiteBlocks α} {P P' : DenseMatrix α} {p q : ℕ}

/-- What the packer asks of the extents. -/
structure Fits (blocks : SiteBlocks α) : Prop where
  upper : blocks.upperLeft.rows = blocks.upperRight.rows
  lower : blocks.lowerLeft.rows = blocks.lowerRight.rows
  width : blocks.upperLeft.cols + blocks.upperRight.cols = blocks.lowerLeft.cols + blocks.lowerRight.cols

/-- Blocks that do not fit are refused for their shapes, and all others are packed. -/
theorem pack_cases (blocks : SiteBlocks α) :
    (blocks.Fits ∧ ∃ P, blocks.pack = .ok P ∧
      P.shape = (blocks.upperLeft.rows + blocks.lowerLeft.rows, blocks.upperLeft.cols + blocks.upperRight.cols)) ∨
    ¬blocks.Fits ∧ ∃ mismatch, blocks.pack = .error (.shapeMismatch mismatch) := by
  unfold pack DenseMatrix.join
  by_cases upper : blocks.upperLeft.rows = blocks.upperRight.rows
  · rw [if_pos upper]
    by_cases lower : blocks.lowerLeft.rows = blocks.lowerRight.rows
    · rw [if_pos lower]
      dsimp only
      unfold DenseMatrix.stack
      by_cases width : blocks.upperLeft.cols + blocks.upperRight.cols = blocks.lowerLeft.cols + blocks.lowerRight.cols
      · exact .inl ⟨⟨upper, lower, width⟩, _, if_pos width, rfl⟩
      · exact .inr ⟨fun fits => width fits.width, _, if_neg width⟩
    · rw [if_neg lower]
      exact .inr ⟨fun fits => lower fits.lower, _, rfl⟩
  · rw [if_neg upper]
    exact .inr ⟨fun fits => upper fits.upper, _, rfl⟩

theorem quarters_of_even (rows : P.rows = p + p) (cols : P.cols = q + q) :
    ∃ blocks, P.quarters = .ok blocks ∧ blocks.QuartersOf P p q := by
  obtain ⟨⟨upper, lower⟩, halved, cut⟩ := DenseMatrix.rowHalves_of_even rows
  obtain ⟨upperRows, upperCols⟩ := Prod.mk.inj cut.upperShape
  obtain ⟨lowerRows, lowerCols⟩ := Prod.mk.inj cut.lowerShape
  obtain ⟨above, halvedAbove, cutAbove⟩ := DenseMatrix.colHalves_of_even (upperCols.trans cols)
  obtain ⟨below, halvedBelow, cutBelow⟩ := DenseMatrix.colHalves_of_even (lowerCols.trans cols)
  refine ⟨⟨above.1, above.2, below.1, below.2⟩, ?_, DenseMatrix.shape_eq rows cols, ⟨?_, ?_, ?_, ?_⟩, ?_, ?_, ?_, ?_⟩
  · rw [DenseMatrix.quarters, halved]
    simp only [bind, Except.bind, halvedAbove, halvedBelow]
    rfl
  · rw [cutAbove.leftShape, upperRows]
  · rw [cutAbove.rightShape, upperRows]
  · rw [cutBelow.leftShape, lowerRows]
  · rw [cutBelow.rightShape, lowerRows]
  · intro i row j col
    rw [cutAbove.left i (by omega) j col, cut.upper i row j (by omega)]
  · intro i row j col
    rw [cutAbove.right i (by omega) j col, cut.upper i row (q + j) (by omega)]
  · intro i row j col
    rw [cutBelow.left i (by omega) j col, cut.lower i row j (by omega)]
  · intro i row j col
    rw [cutBelow.right i (by omega) j col, cut.lower i row (q + j) (by omega)]

private theorem even_of_quarters (quartered : P.quarters = .ok blocks) : Even P.rows ∧ Even P.cols := by
  rw [Nat.even_iff, Nat.even_iff]
  by_cases rows : P.rows % 2 = 0
  · refine ⟨rows, ?_⟩
    by_contra cols
    obtain ⟨⟨upper, lower⟩, halved, cut⟩ := DenseMatrix.rowHalves_of_even (A := P) (p := P.rows / 2) (by omega)
    have wide : upper.cols = P.cols := congrArg Prod.snd cut.upperShape
    have refused : upper.colHalves = .error _ := if_neg (by rw [wide]; exact cols)
    rw [DenseMatrix.quarters, halved] at quartered
    simp only [bind, Except.bind, refused] at quartered
    cases quartered
  · have refused : P.rowHalves = .error _ := if_neg rows
    rw [DenseMatrix.quarters, refused] at quartered
    cases quartered

private theorem QuartersOf.blocks_unique (quarters : blocks.QuartersOf P p q) (quarters' : blocks'.QuartersOf P p q) :
    blocks = blocks' := by
  have same {A B : DenseMatrix α} (left : A.shape = (p, q)) (right : B.shape = (p, q))
      (entries : ∀ i < p, ∀ j < q, A.entry i j = B.entry i j) : A = B := by
    obtain ⟨rows, cols⟩ := Prod.mk.inj left
    obtain ⟨rows', cols'⟩ := Prod.mk.inj right
    exact DenseMatrix.ext (rows.trans rows'.symm) (cols.trans cols'.symm) fun i j row col =>
      entries i (rows ▸ row) j (cols ▸ col)
  have upperLeft := same quarters.uniform.upperLeft quarters'.uniform.upperLeft fun i row j col =>
    (quarters.upperLeft i row j col).trans (quarters'.upperLeft i row j col).symm
  have upperRight := same quarters.uniform.upperRight quarters'.uniform.upperRight fun i row j col =>
    (quarters.upperRight i row j col).trans (quarters'.upperRight i row j col).symm
  have lowerLeft := same quarters.uniform.lowerLeft quarters'.uniform.lowerLeft fun i row j col =>
    (quarters.lowerLeft i row j col).trans (quarters'.lowerLeft i row j col).symm
  have lowerRight := same quarters.uniform.lowerRight quarters'.uniform.lowerRight fun i row j col =>
    (quarters.lowerRight i row j col).trans (quarters'.lowerRight i row j col).symm
  obtain ⟨a, b, c, d⟩ := blocks
  obtain ⟨a', b', c', d'⟩ := blocks'
  exact SiteBlocks.mk.injEq .. ▸ ⟨upperLeft, upperRight, lowerLeft, lowerRight⟩

private theorem QuartersOf.matrix_unique (quarters : blocks.QuartersOf P p q) (quarters' : blocks.QuartersOf P' p q) :
    P = P' := by
  obtain ⟨rows, cols⟩ := Prod.mk.inj quarters.shape
  obtain ⟨rows', cols'⟩ := Prod.mk.inj quarters'.shape
  refine DenseMatrix.ext (rows.trans rows'.symm) (cols.trans cols'.symm) fun i j row col => ?_
  rw [rows] at row
  rw [cols] at col
  rcases Nat.lt_or_ge i p with above | below
  · rcases Nat.lt_or_ge j q with left | right
    · rw [← quarters.upperLeft i above j left, quarters'.upperLeft i above j left]
    · obtain ⟨j, rfl⟩ := Nat.exists_eq_add_of_le right
      rw [← quarters.upperRight i above j (by omega), quarters'.upperRight i above j (by omega)]
  · obtain ⟨i, rfl⟩ := Nat.exists_eq_add_of_le below
    rcases Nat.lt_or_ge j q with left | right
    · rw [← quarters.lowerLeft i (by omega) j left, quarters'.lowerLeft i (by omega) j left]
    · obtain ⟨j, rfl⟩ := Nat.exists_eq_add_of_le right
      rw [← quarters.lowerRight i (by omega) j (by omega), quarters'.lowerRight i (by omega) j (by omega)]

/-- Cutting a matrix twice computes its quarters. -/
theorem quarters_eq_ok_iff : P.quarters = .ok blocks ↔ ∃ p q, blocks.QuartersOf P p q := by
  constructor
  · intro quartered
    obtain ⟨⟨p, rows⟩, q, cols⟩ := even_of_quarters quartered
    obtain ⟨found, cut, quarters⟩ := quarters_of_even rows cols
    rw [cut] at quartered
    cases quartered
    exact ⟨p, q, quarters⟩
  · rintro ⟨p, q, quarters⟩
    obtain ⟨rows, cols⟩ := Prod.mk.inj quarters.shape
    obtain ⟨found, cut, quarters'⟩ := quarters_of_even rows cols
    rw [cut, quarters.blocks_unique quarters']

private theorem pack_of_quarters (quartered : P.quarters = .ok blocks) : blocks.pack = .ok P := by
  obtain ⟨p, q, quarters⟩ := quarters_eq_ok_iff.mp quartered
  obtain ⟨P', packed, quarters'⟩ := pack_of_uniform quarters.uniform
  rw [packed, quarters.matrix_unique quarters']

private theorem quarters_of_pack (packed : blocks.pack = .ok P) : P.quarters = .ok blocks ↔ ∃ p q, blocks.Uniform p q := by
  constructor
  · intro quartered
    obtain ⟨p, q, quarters⟩ := quarters_eq_ok_iff.mp quartered
    exact ⟨p, q, quarters.uniform⟩
  · rintro ⟨p, q, uniform⟩
    obtain ⟨P', packed', quarters⟩ := pack_of_uniform uniform
    rw [packed] at packed'
    cases packed'
    exact quarters_eq_ok_iff.mpr ⟨p, q, quarters⟩

/-- Blocks are packed if the two of each row are equally high and both rows are equally wide, and are
refused for their shapes otherwise. They come back from the quarters of the packed matrix exactly if
all four have one shape. The packed matrix has quarters, which pack to it again, if both of its extents
are even. -/
theorem pack_recovered_iff (blocks : SiteBlocks α) :
    ((∃ P, blocks.pack = .ok P) ↔ blocks.Fits) ∧
      (¬blocks.Fits → ∃ mismatch, blocks.pack = .error (.shapeMismatch mismatch)) ∧
      ∀ P, blocks.pack = .ok P →
        (P.quarters = .ok blocks ↔ ∃ p q, blocks.Uniform p q) ∧
          ((∃ found, P.quarters = .ok found) ↔
            Even (blocks.upperLeft.rows + blocks.lowerLeft.rows) ∧
              Even (blocks.upperLeft.cols + blocks.upperRight.cols)) ∧
          ∀ found, P.quarters = .ok found → found.pack = .ok P := by
  obtain ⟨fits, P, packed, shape⟩ | ⟨ragged, mismatch, refused⟩ := pack_cases blocks
  · refine ⟨iff_of_true ⟨P, packed⟩ fits, fun ragged => absurd fits ragged, fun P' packed' => ?_⟩
    rw [packed] at packed'
    cases packed'
    obtain ⟨rows, cols⟩ := Prod.mk.inj shape
    refine ⟨quarters_of_pack packed, ?_, fun found quartered => pack_of_quarters quartered⟩
    rw [← rows, ← cols]
    refine ⟨fun ⟨found, quartered⟩ => even_of_quarters quartered, fun ⟨⟨p, rows⟩, q, cols⟩ => ?_⟩
    obtain ⟨found, quartered, -⟩ := quarters_of_even rows cols
    exact ⟨found, quartered⟩
  · refine ⟨iff_of_false (fun ⟨P, packed⟩ => ?_) ragged, fun _ => ⟨mismatch, refused⟩, fun P packed => ?_⟩
    all_goals
      rw [refused] at packed
      cases packed

/-- Four single entries. -/
def singles : SiteBlocks Float where
  upperLeft := .ofFn 1 1 fun _ _ => ⟨1, 0⟩
  upperRight := .ofFn 1 1 fun _ _ => ⟨2, 0⟩
  lowerLeft := .ofFn 1 1 fun _ _ => ⟨3, 0⟩
  lowerRight := .ofFn 1 1 fun _ _ => ⟨4, 0⟩

theorem pack_recovered_iff_singles : ∃ P, singles.pack = .ok P ∧ P.quarters = .ok singles := by
  have fits : singles.Fits := ⟨by decide, by decide, by decide⟩
  obtain ⟨accepted, -, recovered⟩ := pack_recovered_iff singles
  obtain ⟨P, packed⟩ := accepted.mpr fits
  exact ⟨P, packed, (recovered P packed).1.mpr ⟨1, 1, rfl, rfl, rfl, rfl⟩⟩

/-- Two rows of four entries in all, which are divided at different places. -/
def ragged : SiteBlocks Float where
  upperLeft := .ofFn 1 1 fun _ _ => ⟨1, 0⟩
  upperRight := .ofFn 1 3 fun _ j => ⟨if j = 0 then 2 else if j = 1 then 3 else 4, 0⟩
  lowerLeft := .ofFn 1 2 fun _ j => ⟨if j = 0 then 5 else 6, 0⟩
  lowerRight := .ofFn 1 2 fun _ j => ⟨if j = 0 then 7 else 8, 0⟩

/-- The first block comes back with an entry of the second. -/
theorem pack_ragged :
    ∃ P found, ragged.pack = .ok P ∧ P.quarters = .ok found ∧ ragged.upperLeft.shape = (1, 1) ∧
      found.upperLeft.shape = (1, 2) ∧ P.quarters ≠ .ok ragged := by
  have fits : ragged.Fits := ⟨by decide, by decide, by decide⟩
  obtain ⟨-, P, packed, shape⟩ | ⟨refused, -⟩ := pack_cases ragged
  · obtain ⟨rows, cols⟩ := Prod.mk.inj shape
    obtain ⟨found, quartered, quarters⟩ := quarters_of_even (P := P) (p := 1) (q := 2) rows cols
    refine ⟨P, found, packed, quartered, rfl, quarters.uniform.upperLeft, fun same => ?_⟩
    rw [quartered] at same
    have width := congrArg Prod.snd (Except.ok.inj same ▸ quarters.uniform.upperLeft : ragged.upperLeft.shape = (1, 2))
    exact absurd width (by decide)
  · exact absurd fits refused

end SiteBlocks
end BondSvd
