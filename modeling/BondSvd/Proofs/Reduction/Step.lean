import BondSvd.Bidiagonal.Reduction

namespace BondSvd.Reduction
universe u
variable {α : Type u} [Scalar α] {rule : NormFloor α} {m n k : Nat} {r r' : Reduction α}

/-- A reduction of a matrix of `m` rows and `n` columns. -/
structure Sized (m n : Nat) (r : Reduction α) : Prop where
  rows : r.reflectors.rows = m
  cols : r.reflectors.cols = n
  diagSize : r.diag.size = n
  superSize : r.superDiag.size = n

/-- The entry that the reflection of column `k` along `w` makes of the one in row `i`, column `j`. -/
def columnImage (r : Reduction α) (w : Nat → Cplx α) (k i j : Nat) : Cplx α :=
  let length := Scalar.sqrt (r.columnTailNormSq k)
  r.reflectors.entry i j -
    r.reflectors.columnWeight w (length * (length + (r.reflectors.entry k k).modulus)) k j * w i

/-- The same for the reflection of row `k`. -/
def rowImage (r : Reduction α) (w : Nat → Cplx α) (k i j : Nat) : Cplx α :=
  let length := Scalar.sqrt (r.rowTailNormSq k)
  r.reflectors.entry i j -
    r.reflectors.rowWeight w (length * (length + (r.reflectors.entry k (k + 1)).modulus)) (k + 1) i * w j

/-- A column part that reflected column `k`. -/
structure KeptColumn (k : Nat) (r r' : Reduction α) : Prop where
  pivot : r'.reflectors.entry k k =
    (phase (r.reflectors.entry k k) (r.reflectors.entry k k).modulus).scale
      (Scalar.sqrt (r.columnTailNormSq k) + (r.reflectors.entry k k).modulus)
  column : ∀ i, i ≠ k → r'.reflectors.entry i k = r.reflectors.entry i k
  block : ∀ i j, k ≤ i → k < j → i < r.reflectors.rows → j < r.reflectors.cols →
    r'.reflectors.entry i j =
      if i = k then turn (r'.reflectors.entry k k) * r.columnImage (fun l => r'.reflectors.entry l k) k i j
      else r.columnImage (fun l => r'.reflectors.entry l k) k i j
  outside : ∀ i j, ¬(k ≤ i ∧ k ≤ j) → r'.reflectors.entry i j = r.reflectors.entry i j
  diag : ∀ j, r'.diag.getD j 0 = if k = j then Scalar.sqrt (r.columnTailNormSq k) else r.diag.getD j 0
  superDiag : r'.superDiag = r.superDiag

/-- A row part that reflected row `k`. -/
structure KeptRow (k : Nat) (r r' : Reduction α) : Prop where
  pivot : r'.reflectors.entry k (k + 1) =
    (phase (r.reflectors.entry k (k + 1)) (r.reflectors.entry k (k + 1)).modulus).scale
      (Scalar.sqrt (r.rowTailNormSq k) + (r.reflectors.entry k (k + 1)).modulus)
  row : ∀ j, j ≠ k + 1 → r'.reflectors.entry k j = r.reflectors.entry k j
  block : ∀ i j, k < i → k < j → i < r.reflectors.rows → j < r.reflectors.cols →
    r'.reflectors.entry i j =
      if j = k + 1 then
        r.rowImage (fun l => r'.reflectors.entry k l) k i j * turn (r'.reflectors.entry k (k + 1))
      else r.rowImage (fun l => r'.reflectors.entry k l) k i j
  outside : ∀ i j, ¬(k ≤ i ∧ k < j) → r'.reflectors.entry i j = r.reflectors.entry i j
  superDiag : ∀ j, r'.superDiag.getD j 0 =
    if k + 1 = j then Scalar.sqrt (r.rowTailNormSq k) else r.superDiag.getD j 0
  diag : r'.diag = r.diag

/-- A column part either flushes the norm and changes nothing, or reflects the column. -/
theorem columnPart_cases (sized : r.Sized m n) (tall : n ≤ m) (inside : k < n)
    (done : r.columnPart rule k = some r') :
    rule.judge (r.columnTailNormSq k) = .flush ∧ r' = r ∨
      rule.judge (r.columnTailNormSq k) = .keep ∧ r'.Sized m n ∧ KeptColumn k r r' := by
  have row : k < r.reflectors.rows := by rw [sized.rows]; omega
  have col : k < r.reflectors.cols := by rw [sized.cols]; omega
  unfold columnPart at done
  split at done
  · cases done
  · next verdict =>
    cases done
    exact .inl ⟨verdict, rfl⟩
  · next verdict =>
    refine .inr ⟨verdict, ?_⟩
    simp only [Option.some.injEq] at done
    generalize pivot : (phase (r.reflectors.entry k k) (r.reflectors.entry k k).modulus).scale
      (Scalar.sqrt (r.columnTailNormSq k) + (r.reflectors.entry k k).modulus) = w at done
    have entry (i j : Nat) : (r.reflectors.set k k w).entry i j =
        if i = k ∧ j = k then w else r.reflectors.entry i j := DenseMatrix.entry_set _ row col w i j
    have rows : (r.reflectors.set k k w).rows = r.reflectors.rows := DenseMatrix.rows_set ..
    have cols : (r.reflectors.set k k w).cols = r.reflectors.cols := DenseMatrix.cols_set ..
    generalize r.reflectors.set k k w = A at done entry rows cols
    generalize reflected : A.reflectLeft (fun i => A.entry i k) (Scalar.sqrt (r.columnTailNormSq k) *
      (Scalar.sqrt (r.columnTailNormSq k) + (r.reflectors.entry k k).modulus)) k (k + 1) = B at done
    have rowsB : B.rows = r.reflectors.rows := by rw [← rows, ← reflected]; rfl
    have colsB : B.cols = r.reflectors.cols := by rw [← cols, ← reflected]; rfl
    have corner : B.entry k k = A.entry k k := by
      rw [← reflected]
      exact DenseMatrix.entry_reflectLeft_of_not _ _ _ (by omega)
    have outside (i j : Nat) (out : ¬(k ≤ i ∧ k < j)) : r'.reflectors.entry i j = A.entry i j := by
      rw [← done, ← DenseMatrix.entry_reflectLeft_of_not A _ _ out, reflected]
      exact DenseMatrix.entry_scaleRow_of_not _ _ (by omega)
    have before (i : Nat) : r'.reflectors.entry i k = A.entry i k := outside i k (by omega)
    refine ⟨?_, ?_⟩
    · rw [← done]
      exact ⟨rowsB.trans sized.rows, colsB.trans sized.cols, by simpa using sized.diagSize, sized.superSize⟩
    · refine ⟨?_, ?_, ?_, ?_, ?_, ?_⟩
      · rw [before, entry, if_pos ⟨rfl, rfl⟩, pivot]
      · intro i off
        rw [before, entry, if_neg fun same => off same.1]
      · intro i j low after inRows inCols
        have image : B.entry i j = r.columnImage (fun l => r'.reflectors.entry l k) k i j := by
          rw [← reflected, DenseMatrix.entry_reflectLeft _ _ _ _ _ (rows.symm ▸ inRows) (cols.symm ▸ inCols),
            if_pos ⟨low, after⟩, entry i j, if_neg (by omega), columnImage, DenseMatrix.columnWeight,
            DenseMatrix.columnWeight, rows, before i]
          congr 3
          refine sumFrom_congr fun l _ _ => ?_
          rw [before, entry l j, if_neg (by omega)]
        rw [← image, before, ← corner, ← done]
        dsimp only
        rw [DenseMatrix.entry_scaleRow _ _ _ _ (rowsB.symm ▸ inRows) (colsB.symm ▸ inCols)]
        by_cases here : i = k
        · rw [if_pos ⟨here, after⟩, if_pos here]
        · rw [if_neg fun both => here both.1, if_neg here]
      · intro i j out
        rw [outside i j (by omega), entry, if_neg (by omega)]
      · intro j
        rw [← done]
        exact getD_setIfInBounds r.diag (sized.diagSize.symm ▸ inside) _ 0 j
      · rw [← done]

theorem columnPart_of_keep (sized : r.Sized m n) (tall : n ≤ m) (inside : k < n)
    (verdict : rule.judge (r.columnTailNormSq k) = .keep) :
    ∃ r', r.columnPart rule k = some r' ∧ r'.Sized m n ∧ KeptColumn k r r' := by
  obtain ⟨r', part⟩ : ∃ r', r.columnPart rule k = some r' := by
    rw [columnPart, verdict]
    exact ⟨_, rfl⟩
  refine ⟨r', part, ?_⟩
  obtain ⟨flushed, -⟩ | ⟨-, sized', kept⟩ := columnPart_cases sized tall inside part
  · rw [verdict] at flushed
    cases flushed
  · exact ⟨sized', kept⟩

theorem rowPart_cases (sized : r.Sized m n) (tall : n ≤ m) (inside : k + 1 < n)
    (done : r.rowPart rule k = some r') :
    rule.judge (r.rowTailNormSq k) = .flush ∧ r' = r ∨
      rule.judge (r.rowTailNormSq k) = .keep ∧ r'.Sized m n ∧ KeptRow k r r' := by
  have row : k < r.reflectors.rows := by rw [sized.rows]; omega
  have col : k + 1 < r.reflectors.cols := by rw [sized.cols]; omega
  unfold rowPart at done
  split at done
  · cases done
  · next verdict =>
    cases done
    exact .inl ⟨verdict, rfl⟩
  · next verdict =>
    refine .inr ⟨verdict, ?_⟩
    simp only [Option.some.injEq] at done
    generalize pivot : (phase (r.reflectors.entry k (k + 1)) (r.reflectors.entry k (k + 1)).modulus).scale
      (Scalar.sqrt (r.rowTailNormSq k) + (r.reflectors.entry k (k + 1)).modulus) = w at done
    have entry (i j : Nat) : (r.reflectors.set k (k + 1) w).entry i j =
        if i = k ∧ j = k + 1 then w else r.reflectors.entry i j := DenseMatrix.entry_set _ row col w i j
    have rows : (r.reflectors.set k (k + 1) w).rows = r.reflectors.rows := DenseMatrix.rows_set ..
    have cols : (r.reflectors.set k (k + 1) w).cols = r.reflectors.cols := DenseMatrix.cols_set ..
    generalize r.reflectors.set k (k + 1) w = A at done entry rows cols
    generalize reflected : A.reflectRight (fun j => A.entry k j) (Scalar.sqrt (r.rowTailNormSq k) *
      (Scalar.sqrt (r.rowTailNormSq k) + (r.reflectors.entry k (k + 1)).modulus)) (k + 1) (k + 1) = B at done
    have rowsB : B.rows = r.reflectors.rows := by rw [← rows, ← reflected]; rfl
    have colsB : B.cols = r.reflectors.cols := by rw [← cols, ← reflected]; rfl
    have corner : B.entry k (k + 1) = A.entry k (k + 1) := by
      rw [← reflected]
      exact DenseMatrix.entry_reflectRight_of_not _ _ _ (by omega)
    have outside (i j : Nat) (out : ¬(k < i ∧ k < j)) : r'.reflectors.entry i j = A.entry i j := by
      rw [← done, ← DenseMatrix.entry_reflectRight_of_not A _ _ out, reflected]
      exact DenseMatrix.entry_scaleColumn_of_not _ _ (by omega)
    have before (j : Nat) : r'.reflectors.entry k j = A.entry k j := outside k j (by omega)
    refine ⟨?_, ?_⟩
    · rw [← done]
      exact ⟨rowsB.trans sized.rows, colsB.trans sized.cols, sized.diagSize, by simpa using sized.superSize⟩
    · refine ⟨?_, ?_, ?_, ?_, ?_, ?_⟩
      · rw [before, entry, if_pos ⟨rfl, rfl⟩, pivot]
      · intro j off
        rw [before, entry, if_neg fun same => off same.2]
      · intro i j below after inRows inCols
        have image : B.entry i j = r.rowImage (fun l => r'.reflectors.entry k l) k i j := by
          rw [← reflected, DenseMatrix.entry_reflectRight _ _ _ _ _ (rows.symm ▸ inRows) (cols.symm ▸ inCols),
            if_pos ⟨below, after⟩, entry i j, if_neg (by omega), rowImage, DenseMatrix.rowWeight,
            DenseMatrix.rowWeight, cols, before j]
          congr 3
          refine sumFrom_congr fun l _ _ => ?_
          rw [before, entry i l, if_neg (by omega)]
        rw [← image, before, ← corner, ← done]
        dsimp only
        rw [DenseMatrix.entry_scaleColumn _ _ _ _ (rowsB.symm ▸ inRows) (colsB.symm ▸ inCols)]
        by_cases here : j = k + 1
        · rw [if_pos ⟨below, here⟩, if_pos here]
        · rw [if_neg fun both => here both.2, if_neg here]
      · intro i j out
        rw [outside i j (by omega), entry, if_neg (by omega)]
      · intro j
        rw [← done]
        exact getD_setIfInBounds r.superDiag (sized.superSize.symm ▸ inside) _ 0 j
      · rw [← done]

theorem rowPart_of_keep (sized : r.Sized m n) (tall : n ≤ m) (inside : k + 1 < n)
    (verdict : rule.judge (r.rowTailNormSq k) = .keep) :
    ∃ r', r.rowPart rule k = some r' ∧ r'.Sized m n ∧ KeptRow k r r' := by
  obtain ⟨r', part⟩ : ∃ r', r.rowPart rule k = some r' := by
    rw [rowPart, verdict]
    exact ⟨_, rfl⟩
  refine ⟨r', part, ?_⟩
  obtain ⟨flushed, -⟩ | ⟨-, sized', kept⟩ := rowPart_cases sized tall inside part
  · rw [verdict] at flushed
    cases flushed
  · exact ⟨sized', kept⟩

end BondSvd.Reduction
