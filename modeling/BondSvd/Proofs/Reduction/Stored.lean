import Mathlib
import BondSvd.Proofs.Reduction.Replay

namespace BondSvd
universe u

section Stored
variable {α : Type u} [Scalar α]

/-- A reflection from the left reads its vector only in the rows that it reflects. -/
theorem DenseMatrix.reflectLeft_congr {w w' : Nat → Cplx α} {top : Nat} {A : DenseMatrix α}
    (same : ∀ i, top ≤ i → i < A.rows → w' i = w i) (divisor : α) (first : Nat) :
    A.reflectLeft w' divisor top first = A.reflectLeft w divisor top first := by
  refine DenseMatrix.ext rfl rfl fun i j row col => ?_
  have weight : A.columnWeight w' divisor top j = A.columnWeight w divisor top j := by
    rw [columnWeight, columnWeight]
    refine congrArg (Cplx.unscale · divisor) (sumFrom_congr fun l low high => ?_)
    rw [same l low (by omega)]
  rw [A.entry_reflectLeft w' divisor top first row col, A.entry_reflectLeft w divisor top first row col, weight]
  split
  · next inside => rw [same i inside.1 row]
  · rfl

namespace Reduction
variable {rule : NormFloor α} {A U V : DenseMatrix α} {m n k more : Nat} {r r' : Reduction α}

/-- The reflector of column `k` is the same: its entries in the rows from `k` to `m`, and its length. -/
structure SameLeft (m k : Nat) (r r' : Reduction α) : Prop where
  entry : ∀ i, k ≤ i → i < m → r'.reflectors.entry i k = r.reflectors.entry i k
  length : r'.diag.getD k 0 = r.diag.getD k 0

/-- The reflector of row `k` is the same: its entries in the columns from `k + 1` to `n`, and its length. -/
structure SameRight (n k : Nat) (r r' : Reduction α) : Prop where
  entry : ∀ j, k < j → j < n → r'.reflectors.entry k j = r.reflectors.entry k j
  length : r'.superDiag.getD (k + 1) 0 = r.superDiag.getD (k + 1) 0

/-- The left replay of step `k` reads nothing but the reflector of column `k`. -/
theorem SameLeft.applyLeft_eq (same : SameLeft m k r r') (inside : k < m) (rows : U.rows = m) :
    r'.applyLeft k U = r.applyLeft k U := by
  have pivot := same.entry k (Nat.le_refl k) inside
  unfold applyLeft
  dsimp only
  rw [same.length, pivot]
  split
  · rfl
  · refine DenseMatrix.reflectLeft_congr (fun i low high => ?_) _ 0
    exact same.entry i low (Nat.lt_of_lt_of_eq high rows)

theorem SameRight.applyRight_eq (same : SameRight n k r r') (inside : k + 1 < n) (rows : V.rows = n) :
    r'.applyRight k V = r.applyRight k V := by
  have pivot := same.entry (k + 1) (Nat.lt_succ_self k) inside
  unfold applyRight
  dsimp only
  rw [same.length, pivot]
  split
  · rfl
  · refine DenseMatrix.reflectLeft_congr (fun j low high => congrArg Cplx.conj ?_) _ 0
    exact same.entry j low (Nat.lt_of_lt_of_eq high rows)

theorem SameLeft.columnTailNormSq_eq (same : SameLeft m k r r') (rows : r.reflectors.rows = m)
    (rows' : r'.reflectors.rows = m) : r'.columnTailNormSq k = r.columnTailNormSq k := by
  rw [columnTailNormSq, columnTailNormSq, rows, rows']
  refine sumFrom_congr fun i low high => ?_
  rw [same.entry i low (by omega)]

theorem SameRight.rowTailNormSq_eq (same : SameRight n k r r') (cols : r.reflectors.cols = n)
    (cols' : r'.reflectors.cols = n) : r'.rowTailNormSq k = r.rowTailNormSq k := by
  rw [rowTailNormSq, rowTailNormSq, cols, cols']
  refine sumFrom_congr fun j low high => ?_
  rw [same.entry j low (by omega)]

/-- What the steps from `k` on keep: all that is stored for earlier steps. -/
structure KeptBefore (k : Nat) (r r' : Reduction α) : Prop where
  entry : ∀ i j, ¬(k ≤ i ∧ k ≤ j) → r'.reflectors.entry i j = r.reflectors.entry i j
  diag : ∀ j, j < k → r'.diag.getD j 0 = r.diag.getD j 0
  superDiag : ∀ j, j ≤ k → r'.superDiag.getD j 0 = r.superDiag.getD j 0

theorem KeptBefore.step {r'' : Reduction α} (kept : KeptBefore k r r') {l : Nat} (later : k ≤ l)
    (preserved : Preserved l r' r'') : KeptBefore k r r'' where
  entry i j out := by rw [preserved.entry i j (by omega), kept.entry i j out]
  diag j before := by rw [preserved.diag j (by omega), kept.diag j before]
  superDiag j before := by rw [preserved.superDiag j (by omega), kept.superDiag j before]

/-- A run passes through each of its columns, and the rest of it keeps what is stored by then. -/
theorem upTo_keptBefore (shape : A.shape = (m, n)) (tall : n ≤ m) (inside : k + more ≤ n)
    (done : upTo rule A (k + more) = some r) : ∃ before, upTo rule A k = some before ∧ KeptBefore k before r := by
  induction more generalizing r with
  | zero => exact ⟨r, done, fun _ _ _ => rfl, fun _ _ => rfl, fun _ _ => rfl⟩
  | succ more ih =>
    obtain ⟨last, reached, stepped⟩ := Option.bind_eq_some_iff.mp done
    have earlier : k + more ≤ n := Nat.le_of_succ_le inside
    obtain ⟨before, started, kept⟩ := ih earlier reached
    have preserved := step_preserved (upTo_sized shape tall earlier reached) tall inside stepped
    exact ⟨before, started, kept.step (Nat.le_add_right k more) preserved⟩

theorem bidiagonalize_step (tall : A.cols ≤ A.rows) (done : A.bidiagonalize rule = some r) (inside : k < A.cols) :
    ∃ before column, upTo rule A k = some before ∧ before.columnPart rule k = some column ∧
      SameLeft A.rows k column r ∧
      (k + 1 < A.cols → ∃ row, column.rowPart rule k = some row ∧ SameRight A.cols k row r) := by
  obtain ⟨more, rest⟩ : ∃ more, A.cols = k + 1 + more := Nat.exists_eq_add_of_le inside
  rw [DenseMatrix.bidiagonalize, rest] at done
  obtain ⟨after, reached, kept⟩ := upTo_keptBefore rfl tall rest.ge done
  obtain ⟨before, started, stepped⟩ := Option.bind_eq_some_iff.mp reached
  obtain ⟨column, columns, parts⟩ := step_parts stepped
  have sized := columnPart_sized (upTo_sized rfl tall inside.le started) tall inside columns
  refine ⟨before, column, started, columns, ?_, fun next => ?_⟩
  · obtain ⟨next, rows⟩ | ⟨-, rfl⟩ := parts
    · obtain ⟨entry, diag, -⟩ := rowPart_preserved sized tall (sized.cols ▸ next) rows
      refine ⟨fun i low _ => ?_, ?_⟩
      · rw [kept.entry i k (by omega), entry i k (by omega)]
      · rw [kept.diag k (Nat.lt_succ_self k), diag]
    · exact ⟨fun i _ _ => kept.entry i k (by omega), kept.diag k (Nat.lt_succ_self k)⟩
  · obtain ⟨-, rows⟩ | ⟨last, -⟩ := parts
    · exact ⟨after, rows, fun j _ _ => kept.entry k j (by omega), kept.superDiag (k + 1) (Nat.le_refl _)⟩
    · exact absurd (sized.cols.symm ▸ next) last

end Reduction
end Stored

namespace Reduction
variable {rule : NormFloor ℝ} {A : DenseMatrix ℝ} {r r' : Reduction ℝ} {m n k : ℕ}

/-- The pivot of a stored column times its length is half the squared length of the vector. -/
theorem KeptColumn.half (kept : KeptColumn k r r') (sized : r.Sized m n) (sized' : r'.Sized m n) (inside : k < m)
    (positive : 0 < r.columnTailNormSq k) :
    (r'.reflectors.entry k k).modulus * r'.diag.getD k 0 = r'.columnTailNormSq k / 2 := by
  rw [columnTailNormSq_exact sized', (kept.reflects sized inside positive).half, Cplx.modulus_exact, columnVector,
    mul_div_cancel_left₀ _ two_ne_zero]

theorem KeptRow.half (kept : KeptRow k r r') (sized : r.Sized m n) (sized' : r'.Sized m n) (inside : k + 1 < n)
    (positive : 0 < r.rowTailNormSq k) :
    (r'.reflectors.entry k (k + 1)).modulus * r'.superDiag.getD (k + 1) 0 = r'.rowTailNormSq k / 2 := by
  rw [rowTailNormSq_exact sized', (kept.reflects sized inside positive).half, Cplx.modulus_exact, rowVector, norm_star,
    mul_div_cancel_left₀ _ two_ne_zero]

private theorem pivot_mul_diag (nonneg : 0 ≤ rule.floor) (tall : A.cols ≤ A.rows)
    (done : A.bidiagonalize rule = some r) (positive : 0 < r.diag.getD k 0) :
    (r.reflectors.entry k k).modulus * r.diag.getD k 0 = r.columnTailNormSq k / 2 := by
  have inside : k < A.cols := by
    by_contra beyond
    exact positive.ne' ((upTo_pending rfl tall le_rfl done).1 k (not_lt.mp beyond))
  obtain ⟨before, column, started, columns, same, -⟩ := bidiagonalize_step tall done inside
  have sized := upTo_sized rfl tall inside.le started
  have sized' := columnPart_sized sized tall inside columns
  have last := upTo_sized rfl tall le_rfl done
  rw [same.length] at positive
  rw [same.entry k le_rfl (inside.trans_le tall), same.length, same.columnTailNormSq_eq sized'.rows last.rows]
  obtain ⟨-, rfl⟩ | ⟨verdict, -, kept⟩ := columnPart_cases sized tall inside columns
  · exact absurd ((upTo_pending rfl tall inside.le started).1 k le_rfl) positive.ne'
  · exact kept.half sized sized' (inside.trans_le tall) (nonneg.trans_lt ((rule.judge_eq_keep_iff _).mp verdict))

private theorem pivot_mul_superDiag (nonneg : 0 ≤ rule.floor) (tall : A.cols ≤ A.rows)
    (done : A.bidiagonalize rule = some r) (positive : 0 < r.superDiag.getD (k + 1) 0) :
    (r.reflectors.entry k (k + 1)).modulus * r.superDiag.getD (k + 1) 0 = r.rowTailNormSq k / 2 := by
  have last := upTo_sized rfl tall le_rfl done
  have next : k + 1 < A.cols := by
    by_contra beyond
    refine positive.ne' ?_
    rw [Array.getD_eq_getD_getElem?, Array.getElem?_eq_none (last.superSize.trans_le (not_lt.mp beyond)),
      Option.getD_none]
  have inside : k < A.cols := Nat.lt_of_succ_lt next
  obtain ⟨before, column, started, columns, -, rest⟩ := bidiagonalize_step tall done inside
  obtain ⟨row, rows, same⟩ := rest next
  have early := upTo_sized rfl tall inside.le started
  have sized := columnPart_sized early tall inside columns
  rw [same.length] at positive
  rw [same.entry (k + 1) (Nat.lt_succ_self k) next, same.length]
  obtain ⟨-, rfl⟩ | ⟨verdict, sized', kept⟩ := rowPart_cases sized tall next rows
  · have pending := (upTo_pending rfl tall inside.le started).2 (k + 1) (Nat.lt_succ_self k)
    rw [columnPart_superDiag early tall inside columns] at positive
    exact absurd pending positive.ne'
  · rw [same.rowTailNormSq_eq sized'.cols last.cols]
    exact kept.half sized sized' next (nonneg.trans_lt ((rule.judge_eq_keep_iff _).mp verdict))

end Reduction

/-- Stored reflectors survive a reduction in place, for any numbers: each reflector that a step formed is found
in the end as it was after that step, and is all that the replay of the step reads. In exact arithmetic the
pivot of each reflector times the length stored beside it is half the squared length of the vector. -/
theorem Reduction.reflectors_survive :
    (∀ {α : Type u} [Scalar α] {rule : NormFloor α} {A : DenseMatrix α} {r : Reduction α},
      A.cols ≤ A.rows → A.bidiagonalize rule = some r → ∀ k, k < A.cols →
        (∃ before column, upTo rule A k = some before ∧ before.columnPart rule k = some column ∧
          SameLeft A.rows k column r ∧
          (k + 1 < A.cols → ∃ row, column.rowPart rule k = some row ∧ SameRight A.cols k row r)) ∧
        (∀ r' U, U.rows = A.rows → SameLeft A.rows k r r' → r'.applyLeft k U = r.applyLeft k U) ∧
        (k + 1 < A.cols → ∀ r' V, V.rows = A.cols → SameRight A.cols k r r' →
          r'.applyRight k V = r.applyRight k V)) ∧
    ∀ {rule : NormFloor ℝ} {A : DenseMatrix ℝ} {r : Reduction ℝ}, 0 ≤ rule.floor →
      A.cols ≤ A.rows → A.bidiagonalize rule = some r → ∀ k,
        (0 < r.diag.getD k 0 → (r.reflectors.entry k k).modulus * r.diag.getD k 0 = r.columnTailNormSq k / 2) ∧
        (0 < r.superDiag.getD (k + 1) 0 →
          (r.reflectors.entry k (k + 1)).modulus * r.superDiag.getD (k + 1) 0 = r.rowTailNormSq k / 2) := by
  refine ⟨fun tall done k inside => ⟨bidiagonalize_step tall done inside, fun r' U rows same => ?_,
    fun next r' V rows same => same.applyRight_eq next rows⟩, fun nonneg tall done k => ?_⟩
  · exact same.applyLeft_eq (Nat.lt_of_lt_of_le inside tall) rows
  · exact ⟨pivot_mul_diag nonneg tall done, pivot_mul_superDiag nonneg tall done⟩

/-- A column of length five keeps its reflector while the norms after it are floored. -/
theorem Reduction.reflectors_survive_faintBeside :
    (0 : ℝ) ≤ 1.5e-34 ∧ faintBeside.cols ≤ faintBeside.rows ∧
      ∃ column r, (start faintBeside).columnPart ⟨1.5e-34, none⟩ 0 = some column ∧
        faintBeside.bidiagonalize ⟨1.5e-34, none⟩ = some r ∧ SameLeft 2 0 column r ∧ r.diag.getD 0 0 = 5 ∧
        (r.reflectors.entry 0 0).modulus * 5 = r.columnTailNormSq 0 / 2 := by
  have floor : (0 : ℝ) ≤ 1.5e-34 := by norm_num
  obtain ⟨r, done, -⟩ := faintBeside_bidiagonalize
  obtain ⟨⟨before, column, started, columns, same, -⟩, -⟩ := reflectors_survive.1 le_rfl done 0 Nat.two_pos
  cases started
  have verdict : NormFloor.judge ⟨1.5e-34, none⟩ ((start faintBeside).columnTailNormSq 0) = .keep := by
    rw [NormFloor.judge_eq_keep_iff, faintBeside_column]
    norm_num
  obtain ⟨column', columns', -, kept⟩ := columnPart_of_keep (start_sized rfl) le_rfl Nat.two_pos verdict
  obtain rfl : column = column' := Option.some.inj (columns.symm.trans columns')
  have five : r.diag.getD 0 0 = 5 := by
    have square : (25 : ℝ) = 5 ^ 2 := by norm_num
    rw [same.length, kept.length, faintBeside_column, square, Real.sqrt_sq (by norm_num)]
  have half := (reflectors_survive.{0}.2 floor le_rfl done 0).1 (five ▸ by norm_num)
  rw [five] at half
  exact ⟨floor, le_rfl, column, r, columns, done, same, five, half⟩

end BondSvd
