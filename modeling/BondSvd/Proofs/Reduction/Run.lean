import BondSvd.Proofs.Reduction.Step

namespace BondSvd

universe u
variable {α : Type u} [Scalar α]

/-- A squared norm that a reduction judges, with the pivot that a reflection would have. -/
structure Judgement (α : Type u) where
  normSq : α
  pivot : Cplx α

/-- The pivot is so small that its direction is not taken, and yet it is not zero. -/
def Judgement.Faint (judgement : Judgement α) : Prop :=
  0 < judgement.pivot.modulus ∧ judgement.pivot.modulus ≤ Tolerance.zero

namespace Reduction
variable {rule : NormFloor α} {A : DenseMatrix α} {m n k : Nat} {r r' r'' : Reduction α}

/-- What the row part of step `k` judges; the last column has none. -/
def rowJudgements (r : Reduction α) (k : Nat) : List (Judgement α) :=
  if k + 1 < r.reflectors.cols then [⟨r.rowTailNormSq k, r.reflectors.entry k (k + 1)⟩] else []

/-- What step `k` judges, as far as it gets. -/
def stepJudgements (rule : NormFloor α) (k : Nat) (r : Reduction α) : List (Judgement α) :=
  ⟨r.columnTailNormSq k, r.reflectors.entry k k⟩ ::
    match r.columnPart rule k with
    | none => []
    | some r' => r'.rowJudgements k

/-- What the first `count` steps judge, in their order. -/
def judgements (rule : NormFloor α) (A : DenseMatrix α) : (count : Nat) → List (Judgement α)
  | 0 => []
  | k + 1 => judgements rule A k ++ match upTo rule A k with
    | none => []
    | some r => r.stepJudgements rule k

/-- The squared norms that were flushed. -/
def floored (rule : NormFloor α) (judged : List (Judgement α)) : List α :=
  (judged.filter fun judgement => rule.judge judgement.normSq = .flush).map Judgement.normSq

theorem floored_append (rule : NormFloor α) (first second : List (Judgement α)) :
    floored rule (first ++ second) = floored rule first ++ floored rule second := by
  simp [floored]

theorem floored_flushed {judgement : Judgement α} (verdict : rule.judge judgement.normSq = .flush) :
    floored rule [judgement] = [judgement.normSq] := by
  simp [floored, verdict]

theorem floored_kept {judgement : Judgement α} (verdict : rule.judge judgement.normSq = .keep) :
    floored rule [judgement] = [] := by
  simp [floored, verdict]

theorem stepJudgements_of_columnPart (columns : r.columnPart rule k = some r') :
    r.stepJudgements rule k = ⟨r.columnTailNormSq k, r.reflectors.entry k k⟩ :: r'.rowJudgements k := by
  rw [stepJudgements, columns]

theorem judgements_succ (reached : upTo rule A k = some r) :
    judgements rule A (k + 1) = judgements rule A k ++ r.stepJudgements rule k := by
  rw [judgements, reached]

theorem start_sized (shape : A.shape = (m, n)) : (start A).Sized m n :=
  ⟨congrArg Prod.fst shape, congrArg Prod.snd shape, by
    rw [start, Array.size_replicate]
    exact congrArg Prod.snd shape, by
    rw [start, Array.size_replicate]
    exact congrArg Prod.snd shape⟩

/-- What step `k` may have changed: the block from row and column `k`, and its own diagonals. -/
structure Preserved (k : Nat) (r r' : Reduction α) : Prop where
  entry : ∀ i j, ¬(k ≤ i ∧ k ≤ j) → r'.reflectors.entry i j = r.reflectors.entry i j
  diag : ∀ j, j ≠ k → r'.diag.getD j 0 = r.diag.getD j 0
  superDiag : ∀ j, j ≠ k + 1 → r'.superDiag.getD j 0 = r.superDiag.getD j 0

theorem columnPart_sized (sized : r.Sized m n) (tall : n ≤ m) (inside : k < n)
    (done : r.columnPart rule k = some r') : r'.Sized m n := by
  obtain ⟨-, rfl⟩ | ⟨-, sized', -⟩ := columnPart_cases sized tall inside done
  · exact sized
  · exact sized'

theorem step_parts (done : r.step rule k = some r'') :
    ∃ r', r.columnPart rule k = some r' ∧
      (k + 1 < r'.reflectors.cols ∧ r'.rowPart rule k = some r'' ∨
        ¬k + 1 < r'.reflectors.cols ∧ r'' = r') := by
  obtain ⟨r', columns, rows⟩ := Option.bind_eq_some_iff.mp done
  refine ⟨r', columns, ?_⟩
  split at rows
  · next more => exact .inl ⟨more, rows⟩
  · next last => exact .inr ⟨last, (Option.some.inj rows).symm⟩

private theorem step_sized (sized : r.Sized m n) (tall : n ≤ m) (inside : k < n) (done : r.step rule k = some r'') :
    r''.Sized m n := by
  obtain ⟨r', columns, ⟨more, rows⟩ | ⟨-, rfl⟩⟩ := step_parts done
  · have sized' := columnPart_sized sized tall inside columns
    obtain ⟨-, rfl⟩ | ⟨-, sized'', -⟩ := rowPart_cases sized' tall (sized'.cols ▸ more) rows
    · exact sized'
    · exact sized''
  · exact columnPart_sized sized tall inside columns

private theorem columnPart_preserved (sized : r.Sized m n) (tall : n ≤ m) (inside : k < n)
    (done : r.columnPart rule k = some r') : Preserved k r r' := by
  obtain ⟨-, rfl⟩ | ⟨-, -, kept⟩ := columnPart_cases sized tall inside done
  · exact ⟨fun _ _ _ => rfl, fun _ _ => rfl, fun _ _ => rfl⟩
  · refine ⟨kept.outside, fun j off => ?_, fun j _ => by rw [kept.superDiag]⟩
    rw [kept.diag, if_neg off.symm]

theorem columnPart_superDiag (sized : r.Sized m n) (tall : n ≤ m) (inside : k < n)
    (done : r.columnPart rule k = some r') : r'.superDiag = r.superDiag := by
  obtain ⟨-, rfl⟩ | ⟨-, -, kept⟩ := columnPart_cases sized tall inside done
  · rfl
  · exact kept.superDiag

theorem rowPart_preserved (sized : r.Sized m n) (tall : n ≤ m) (inside : k + 1 < n)
    (done : r.rowPart rule k = some r') :
    (∀ i j, ¬(k ≤ i ∧ k < j) → r'.reflectors.entry i j = r.reflectors.entry i j) ∧ r'.diag = r.diag ∧
      ∀ j, j ≠ k + 1 → r'.superDiag.getD j 0 = r.superDiag.getD j 0 := by
  obtain ⟨-, rfl⟩ | ⟨-, -, kept⟩ := rowPart_cases sized tall inside done
  · exact ⟨fun _ _ _ => rfl, rfl, fun _ _ => rfl⟩
  · refine ⟨kept.outside, kept.diag, fun j off => ?_⟩
    rw [kept.superDiag, if_neg off.symm]

theorem step_preserved (sized : r.Sized m n) (tall : n ≤ m) (inside : k < n) (done : r.step rule k = some r'') :
    Preserved k r r'' := by
  obtain ⟨r', columns, ⟨more, rows⟩ | ⟨-, rfl⟩⟩ := step_parts done
  · have sized' := columnPart_sized sized tall inside columns
    have first := columnPart_preserved sized tall inside columns
    obtain ⟨entry, diag, superDiag⟩ := rowPart_preserved sized' tall (sized'.cols ▸ more) rows
    refine ⟨fun i j out => ?_, fun j off => ?_, fun j off => ?_⟩
    · rw [entry i j (by omega), first.entry i j out]
    · rw [diag, first.diag j off]
    · rw [superDiag j off, first.superDiag j off]
  · exact columnPart_preserved sized tall inside columns

theorem upTo_sized (shape : A.shape = (m, n)) (tall : n ≤ m) (inside : k ≤ n) (done : upTo rule A k = some r) :
    r.Sized m n := by
  induction k generalizing r with
  | zero =>
    cases done
    exact start_sized shape
  | succ k ih =>
    obtain ⟨before, reached, stepped⟩ := Option.bind_eq_some_iff.mp done
    exact step_sized (ih (Nat.le_of_lt inside) reached) tall inside stepped

theorem upTo_pending (shape : A.shape = (m, n)) (tall : n ≤ m) (inside : k ≤ n) (done : upTo rule A k = some r) :
    (∀ j, k ≤ j → r.diag.getD j 0 = 0) ∧ ∀ j, k < j → r.superDiag.getD j 0 = 0 := by
  induction k generalizing r with
  | zero =>
    cases done
    exact ⟨fun j _ => (start_getD A j).1, fun j _ => (start_getD A j).2⟩
  | succ k ih =>
    obtain ⟨before, reached, stepped⟩ := Option.bind_eq_some_iff.mp done
    obtain ⟨diag, superDiag⟩ := ih (Nat.le_of_lt inside) reached
    have kept := step_preserved (upTo_sized shape tall (Nat.le_of_lt inside) reached) tall inside stepped
    refine ⟨fun j later => ?_, fun j later => ?_⟩
    · rw [kept.diag j (by omega), diag j (by omega)]
    · rw [kept.superDiag j (by omega), superDiag j (by omega)]

/-- Every column has its part and every column but the last its row part. -/
theorem length_judgements_le (shape : A.shape = (m, n)) (tall : n ≤ m) (inside : k ≤ n)
    (done : upTo rule A k = some r) :
    (judgements rule A k).length ≤ 2 * k - if k < n then 0 else 1 := by
  induction k generalizing r with
  | zero => exact Nat.zero_le _
  | succ k ih =>
    obtain ⟨before, reached, stepped⟩ := Option.bind_eq_some_iff.mp done
    obtain ⟨middle, columns, -⟩ := step_parts stepped
    have sized := upTo_sized shape tall (Nat.le_of_lt inside) reached
    have earlier := ih (Nat.le_of_lt inside) reached
    rw [if_pos (Nat.lt_of_succ_le inside)] at earlier
    have rows : (middle.rowJudgements k).length = if k + 1 < n then 1 else 0 := by
      rw [rowJudgements, (columnPart_sized sized tall inside columns).cols]
      split <;> rfl
    rw [judgements_succ reached, stepJudgements_of_columnPart columns, List.length_append, List.length_cons, rows]
    split <;> omega

end Reduction
end BondSvd
