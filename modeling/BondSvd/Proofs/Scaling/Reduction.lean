import Mathlib
import BondSvd.Proofs.Scaling.Matrix
import BondSvd.Proofs.Scaling.Outcomes

namespace BondSvd
variable {c : ℝ} {rule : NormFloor ℝ} {x : Cplx ℝ} {modulus : ℝ}

theorem getD_multiple (values : Array ℝ) (c : ℝ) (k : ℕ) : (values.map (· * c)).getD k 0 = values.getD k 0 * c := by
  simp only [Array.getD_eq_getD_getElem?, Array.getElem?_map]
  cases values[k]? <;> simp

/-- The same floor, and the limit for norms that are `c` times as long. -/
noncomputable def NormFloor.multiple (rule : NormFloor ℝ) (c : ℝ) : NormFloor ℝ := { rule with limit := rule.limit.map (c ^ 2 * ·) }

noncomputable def Judgement.multiple (judgement : Judgement ℝ) (c : ℝ) : Judgement ℝ :=
  ⟨c ^ 2 * judgement.normSq, judgement.pivot.scale c⟩

/-- The tests on a norm and its pivot come out the same for the multiple. -/
structure Judgement.Alike (floor c : ℝ) (judgement : Judgement ℝ) : Prop where
  kept : floor < judgement.normSq ↔ floor < c ^ 2 * judgement.normSq
  pivot : floor < judgement.normSq →
    (judgement.pivot.modulus ≤ Tolerance.zero ↔ judgement.pivot.modulus * c ≤ Tolerance.zero)

theorem Judgement.forces (positive : 0 < c) (floor : ℝ) (judgement : Judgement ℝ) :
    Forces (judgement.outcomes floor) ((judgement.multiple c).outcomes floor) (judgement.Alike floor c) := by
  unfold outcomes multiple
  dsimp only
  rw [Cplx.modulus_scale positive]
  refine .test fun kept => ?_
  rw [decide_eq_decide] at kept
  by_cases large : floor < judgement.normSq
  · rw [if_pos large, if_pos (kept.mp large)]
    refine .test fun pivot => .nothing ⟨kept, fun _ => ?_⟩
    exact decide_eq_decide.mp pivot
  · rw [if_neg large, if_neg (mt kept.mpr large)]
    exact .nothing ⟨kept, fun present => absurd present large⟩

/-- A norm that is kept or not alike is refused or flushed alike. -/
theorem NormFloor.judge_multiple (positive : 0 < c) {normSq : ℝ} (kept : rule.floor < normSq ↔ rule.floor < c ^ 2 * normSq) :
    (rule.multiple c).judge (c ^ 2 * normSq) = rule.judge normSq := by
  unfold judge multiple
  dsimp only
  by_cases large : rule.floor < normSq
  · rw [if_pos large, if_pos (kept.mp large)]
  · rw [if_neg large, if_neg (mt kept.mpr large)]
    cases rule.limit with
    | none => rfl
    | some limit => simp only [Option.map_some, mul_lt_mul_iff_right₀ (pow_pos positive 2)]

private theorem phase_multiple (positive : 0 < c) (same : modulus ≤ Tolerance.zero ↔ modulus * c ≤ Tolerance.zero) :
    phase (x.scale c) (modulus * c) = phase x modulus := by
  unfold phase
  by_cases faint : modulus ≤ Tolerance.zero
  · rw [if_pos faint, if_pos (same.mp faint)]
  · rw [if_neg faint, if_neg (mt same.mpr faint), Cplx.unscale_scale positive]

namespace Reduction
variable {r r' : Reduction ℝ} {k : ℕ} {A : DenseMatrix ℝ}

theorem turn_multiple (positive : 0 < c) (x : Cplx ℝ) : turn (x.scale c) = turn x := by
  have opposite : -(x.scale c).conj = (-x.conj).scale c := Cplx.toComplex_inj (by simp)
  rw [turn, turn, opposite, Cplx.modulus_scale positive, Cplx.unscale_scale positive]

noncomputable def multiple (r : Reduction ℝ) (c : ℝ) : Reduction ℝ :=
  ⟨r.reflectors.scale c, r.diag.map (· * c), r.superDiag.map (· * c)⟩

theorem columnTailNormSq_multiple (r : Reduction ℝ) (c : ℝ) (k : ℕ) :
    (r.multiple c).columnTailNormSq k = c ^ 2 * r.columnTailNormSq k := by
  have rows : (r.multiple c).reflectors.rows = r.reflectors.rows := rfl
  rw [columnTailNormSq, columnTailNormSq, rows, sumFrom_exact, sumFrom_exact, Finset.mul_sum]
  exact Finset.sum_congr rfl fun i _ => DenseMatrix.normSq_entry_scale r.reflectors c _ k

theorem rowTailNormSq_multiple (r : Reduction ℝ) (c : ℝ) (k : ℕ) :
    (r.multiple c).rowTailNormSq k = c ^ 2 * r.rowTailNormSq k := by
  have cols : (r.multiple c).reflectors.cols = r.reflectors.cols := rfl
  rw [rowTailNormSq, rowTailNormSq, cols, sumFrom_exact, sumFrom_exact, Finset.mul_sum]
  exact Finset.sum_congr rfl fun j _ => DenseMatrix.normSq_entry_scale r.reflectors c k _

/-- The matrix after a reflection of column `k` along `w`, whose divisor is `divisor`. -/
noncomputable def reflectColumn (A : DenseMatrix ℝ) (k : ℕ) (w : Cplx ℝ) (divisor : ℝ) : DenseMatrix ℝ :=
  let A := A.set k k w
  let B := A.reflectLeft (fun i => A.entry i k) divisor k (k + 1)
  B.scaleRow k (k + 1) (turn (B.entry k k))

/-- The same for row `k`. -/
noncomputable def reflectRow (A : DenseMatrix ℝ) (k : ℕ) (w : Cplx ℝ) (divisor : ℝ) : DenseMatrix ℝ :=
  let A := A.set k (k + 1) w
  let B := A.reflectRight (fun j => A.entry k j) divisor (k + 1) (k + 1)
  B.scaleColumn (k + 1) (k + 1) (turn (B.entry k (k + 1)))

private theorem reflectColumn_multiple (positive : 0 < c) (A : DenseMatrix ℝ) (k : ℕ) (w : Cplx ℝ) (divisor : ℝ) :
    reflectColumn (A.scale c) k (w.scale c) (c ^ 2 * divisor) = (reflectColumn A k w divisor).scale c := by
  unfold reflectColumn
  simp only [← DenseMatrix.set_multiple, DenseMatrix.entry_multiple, DenseMatrix.reflectLeft_multiple positive,
    turn_multiple positive, DenseMatrix.scaleRow_multiple]

private theorem reflectRow_multiple (positive : 0 < c) (A : DenseMatrix ℝ) (k : ℕ) (w : Cplx ℝ) (divisor : ℝ) :
    reflectRow (A.scale c) k (w.scale c) (c ^ 2 * divisor) = (reflectRow A k w divisor).scale c := by
  unfold reflectRow
  simp only [← DenseMatrix.set_multiple, DenseMatrix.entry_multiple, DenseMatrix.reflectRight_multiple positive,
    turn_multiple positive, DenseMatrix.scaleColumn_multiple]

private theorem columnPart_keep (verdict : rule.judge (r.columnTailNormSq k) = .keep) :
    r.columnPart rule k = some { r with
      reflectors := reflectColumn r.reflectors k
        ((phase (r.reflectors.entry k k) (r.reflectors.entry k k).modulus).scale
          (Scalar.sqrt (r.columnTailNormSq k) + (r.reflectors.entry k k).modulus))
        (Scalar.sqrt (r.columnTailNormSq k) *
          (Scalar.sqrt (r.columnTailNormSq k) + (r.reflectors.entry k k).modulus))
      diag := r.diag.setIfInBounds k (Scalar.sqrt (r.columnTailNormSq k)) } := by
  rw [columnPart, verdict]
  rfl

private theorem rowPart_keep (verdict : rule.judge (r.rowTailNormSq k) = .keep) :
    r.rowPart rule k = some { r with
      reflectors := reflectRow r.reflectors k
        ((phase (r.reflectors.entry k (k + 1)) (r.reflectors.entry k (k + 1)).modulus).scale
          (Scalar.sqrt (r.rowTailNormSq k) + (r.reflectors.entry k (k + 1)).modulus))
        (Scalar.sqrt (r.rowTailNormSq k) *
          (Scalar.sqrt (r.rowTailNormSq k) + (r.reflectors.entry k (k + 1)).modulus))
      superDiag := r.superDiag.setIfInBounds (k + 1) (Scalar.sqrt (r.rowTailNormSq k)) } := by
  rw [rowPart, verdict]
  rfl

private theorem columnPart_flush (verdict : rule.judge (r.columnTailNormSq k) = .flush) : r.columnPart rule k = some r := by
  rw [columnPart, verdict]

private theorem columnPart_refuse (verdict : rule.judge (r.columnTailNormSq k) = .refuse) : r.columnPart rule k = none := by
  rw [columnPart, verdict]

private theorem rowPart_flush (verdict : rule.judge (r.rowTailNormSq k) = .flush) : r.rowPart rule k = some r := by
  rw [rowPart, verdict]

private theorem rowPart_refuse (verdict : rule.judge (r.rowTailNormSq k) = .refuse) : r.rowPart rule k = none := by
  rw [rowPart, verdict]

/-- The vector of a reflection and its divisor, for the multiple of a pivot and its tail. -/
theorem reflector_multiple (positive : 0 < c) (pivot : Cplx ℝ) (length : ℝ)
    (same : pivot.modulus ≤ Tolerance.zero ↔ pivot.modulus * c ≤ Tolerance.zero) :
    (phase (pivot.scale c) (pivot.scale c).modulus).scale (length * c + (pivot.scale c).modulus) =
        ((phase pivot pivot.modulus).scale (length + pivot.modulus)).scale c ∧
      length * c * (length * c + (pivot.scale c).modulus) = c ^ 2 * (length * (length + pivot.modulus)) := by
  rw [Cplx.modulus_scale positive, phase_multiple positive same, Cplx.scale_scale, ← add_mul]
  exact ⟨rfl, by ring⟩

private theorem columnPart_multiple (positive : 0 < c)
    (alike : Judgement.Alike rule.floor c ⟨r.columnTailNormSq k, r.reflectors.entry k k⟩) :
    (r.multiple c).columnPart (rule.multiple c) k = (r.columnPart rule k).map (·.multiple c) := by
  have judged : (rule.multiple c).judge ((r.multiple c).columnTailNormSq k) = rule.judge (r.columnTailNormSq k) := by
    rw [columnTailNormSq_multiple, NormFloor.judge_multiple positive alike.kept]
  cases verdict : rule.judge (r.columnTailNormSq k) with
  | refuse => rw [columnPart_refuse verdict, columnPart_refuse (judged.trans verdict), Option.map_none]
  | flush => rw [columnPart_flush verdict, columnPart_flush (judged.trans verdict), Option.map_some]
  | keep =>
    have pivot := alike.pivot ((rule.judge_eq_keep_iff _).mp verdict)
    have entry : (r.multiple c).reflectors.entry k k = (r.reflectors.entry k k).scale c :=
      DenseMatrix.entry_multiple r.reflectors c k k
    obtain ⟨vector, divisor⟩ := reflector_multiple positive _ (Scalar.sqrt (r.columnTailNormSq k)) pivot
    rw [columnPart_keep verdict, columnPart_keep (judged.trans verdict), Option.map_some, columnTailNormSq_multiple,
      Scalar.sqrt_multiple positive, entry, vector, divisor]
    simp only [multiple, reflectColumn_multiple positive, Array.map_setIfInBounds]

private theorem rowPart_multiple (positive : 0 < c)
    (alike : Judgement.Alike rule.floor c ⟨r.rowTailNormSq k, r.reflectors.entry k (k + 1)⟩) :
    (r.multiple c).rowPart (rule.multiple c) k = (r.rowPart rule k).map (·.multiple c) := by
  have judged : (rule.multiple c).judge ((r.multiple c).rowTailNormSq k) = rule.judge (r.rowTailNormSq k) := by
    rw [rowTailNormSq_multiple, NormFloor.judge_multiple positive alike.kept]
  cases verdict : rule.judge (r.rowTailNormSq k) with
  | refuse => rw [rowPart_refuse verdict, rowPart_refuse (judged.trans verdict), Option.map_none]
  | flush => rw [rowPart_flush verdict, rowPart_flush (judged.trans verdict), Option.map_some]
  | keep =>
    have pivot := alike.pivot ((rule.judge_eq_keep_iff _).mp verdict)
    have entry : (r.multiple c).reflectors.entry k (k + 1) = (r.reflectors.entry k (k + 1)).scale c :=
      DenseMatrix.entry_multiple r.reflectors c k (k + 1)
    obtain ⟨vector, divisor⟩ := reflector_multiple positive _ (Scalar.sqrt (r.rowTailNormSq k)) pivot
    rw [rowPart_keep verdict, rowPart_keep (judged.trans verdict), Option.map_some, rowTailNormSq_multiple,
      Scalar.sqrt_multiple positive, entry, vector, divisor]
    simp only [multiple, reflectRow_multiple positive, Array.map_setIfInBounds]

private theorem step_forces (positive : 0 < c) (rule : NormFloor ℝ) (k : ℕ) (r : Reduction ℝ) :
    Forces ((r.stepJudgements rule k).flatMap (Judgement.outcomes rule.floor))
      (((r.multiple c).stepJudgements (rule.multiple c) k).flatMap (Judgement.outcomes rule.floor))
      ((r.multiple c).step (rule.multiple c) k = (r.step rule k).map (·.multiple c)) := by
  have column := Judgement.forces positive rule.floor ⟨r.columnTailNormSq k, r.reflectors.entry k k⟩
  rw [Judgement.multiple, ← columnTailNormSq_multiple, ← DenseMatrix.entry_multiple] at column
  rw [stepJudgements, stepJudgements, List.flatMap_cons, List.flatMap_cons]
  refine column.append fun alike => ?_
  rw [step, step, columnPart_multiple positive alike]
  cases r.columnPart rule k with
  | none => exact .nothing rfl
  | some r' =>
    have cols : (r'.multiple c).reflectors.cols = r'.reflectors.cols := rfl
    simp only [Option.map_some, Option.bind_some, rowJudgements, cols]
    split
    · have row := Judgement.forces positive rule.floor ⟨r'.rowTailNormSq k, r'.reflectors.entry k (k + 1)⟩
      rw [Judgement.multiple, ← rowTailNormSq_multiple, ← DenseMatrix.entry_multiple] at row
      rw [List.flatMap_singleton, List.flatMap_singleton]
      exact row.mono fun alike => rowPart_multiple positive alike
    · exact .nothing rfl

private theorem start_multiple (A : DenseMatrix ℝ) (c : ℝ) : start (A.scale c) = (start A).multiple c := by
  have cols : (A.scale c).cols = A.cols := rfl
  simp only [start, multiple, cols, Array.map_replicate, zero_mul]

theorem upTo_forces (positive : 0 < c) (rule : NormFloor ℝ) (A : DenseMatrix ℝ) (count : ℕ) :
    Forces (outcomes rule A count) (outcomes (rule.multiple c) (A.scale c) count)
      (upTo (rule.multiple c) (A.scale c) count = (upTo rule A count).map (·.multiple c)) := by
  induction count with
  | zero => exact .nothing (congrArg some (start_multiple A c))
  | succ k ih =>
    unfold outcomes at ih ⊢
    rw [judgements, judgements, List.flatMap_append, List.flatMap_append]
    refine ih.append fun reached => ?_
    rw [upTo_succ, upTo_succ, reached]
    cases upTo rule A k with
    | none => exact .nothing rfl
    | some r => exact step_forces positive rule k r

section Replay

/-- The reflections of the multiple are replayed alike where the same ones were made. -/
theorem applyLeft_multiple (positive : 0 < c)
    (same : r.diag.getD k 0 ≤ Tolerance.zero ↔ r.diag.getD k 0 * c ≤ Tolerance.zero) (U : DenseMatrix ℝ) :
    (r.multiple c).applyLeft k U = r.applyLeft k U := by
  have diag : (r.multiple c).diag.getD k 0 = r.diag.getD k 0 * c := getD_multiple r.diag c k
  have entry (i j : ℕ) : (r.multiple c).reflectors.entry i j = (r.reflectors.entry i j).scale c :=
    DenseMatrix.entry_multiple r.reflectors c i j
  have opposite (x : Cplx ℝ) : -x.scale c = (-x).scale c := Cplx.toComplex_inj (by simp)
  have divisor (modulus length : ℝ) : modulus * c * (length * c) = c ^ 2 * (modulus * length) := by ring
  unfold applyLeft
  simp only [diag, entry, Cplx.modulus_scale positive, opposite, Cplx.unscale_scale positive, divisor, ← same]
  split
  · rfl
  · exact DenseMatrix.reflectLeft_of_multiple positive _ k 0

private theorem applyRight_multiple (positive : 0 < c)
    (same : r.superDiag.getD (k + 1) 0 ≤ Tolerance.zero ↔ r.superDiag.getD (k + 1) 0 * c ≤ Tolerance.zero)
    (V : DenseMatrix ℝ) : (r.multiple c).applyRight k V = r.applyRight k V := by
  have superDiag : (r.multiple c).superDiag.getD (k + 1) 0 = r.superDiag.getD (k + 1) 0 * c :=
    getD_multiple r.superDiag c (k + 1)
  have entry (i j : ℕ) : (r.multiple c).reflectors.entry i j = (r.reflectors.entry i j).scale c :=
    DenseMatrix.entry_multiple r.reflectors c i j
  have conj (x : Cplx ℝ) : (x.scale c).conj = x.conj.scale c := Cplx.toComplex_inj (by simp)
  have divisor (modulus length : ℝ) : modulus * c * (length * c) = c ^ 2 * (modulus * length) := by ring
  unfold applyRight
  simp only [superDiag, entry, Cplx.modulus_scale positive, turn_multiple positive, conj, divisor, ← same]
  split
  · rfl
  · exact DenseMatrix.reflectLeft_of_multiple positive _ (k + 1) 0

private theorem backwards_congr {f g : ℕ → DenseMatrix ℝ → DenseMatrix ℝ} {count : ℕ} (same : ∀ k < count, ∀ A, f k A = g k A)
    (A : DenseMatrix ℝ) : backwards f count A = backwards g count A := by
  induction count generalizing A with
  | zero => rfl
  | succ k ih =>
    rw [backwards, backwards, same k (Nat.lt_succ_self k)]
    exact ih (fun j before => same j (Nat.lt_succ_of_lt before)) _

theorem replay_forces (positive : 0 < c) (r : Reduction ℝ) :
    Forces r.replayOutcomes (r.multiple c).replayOutcomes
      ((∀ U, (r.multiple c).accumulateLeft U = r.accumulateLeft U) ∧
        ∀ V, (r.multiple c).accumulateRight V = r.accumulateRight V) := by
  have cols : (r.multiple c).reflectors.cols = r.reflectors.cols := rfl
  unfold replayOutcomes
  rw [cols]
  refine (Forces.each _ _ _).append fun left => (Forces.each _ _ _).mono fun right => ?_
  refine ⟨fun U => backwards_congr (fun k before U => ?_) U, fun V => backwards_congr (fun k before V => ?_) V⟩
  · have same := decide_eq_decide.mp (left k before)
    rw [multiple, getD_multiple] at same
    exact applyLeft_multiple positive same U
  · have same := decide_eq_decide.mp (right k before)
    rw [multiple, getD_multiple] at same
    exact applyRight_multiple positive same V

end Replay

end Reduction
end BondSvd
