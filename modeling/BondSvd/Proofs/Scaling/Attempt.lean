import Mathlib
import BondSvd.Proofs.Reach
import BondSvd.Proofs.Scaling.Iteration

/-! Attempts at multiples of a matrix, in exact arithmetic. Where the absolute tests come out the same, a
multiple is decomposed by the same factors and the multiples of the values, or breaks down in the same way.
That is why dividing the values by the power of the rescaling factor gives those of the input. -/
namespace BondSvd
variable {c : ℝ}

namespace SingularTriples
variable {values : Array ℝ} {t : SingularTriples ℝ} {k : ℕ}

noncomputable def multiple (t : SingularTriples ℝ) (c : ℝ) : SingularTriples ℝ :=
  { t with values := t.values.map (· * c) }

private theorem champion_multiple (positive : 0 < c) (values : Array ℝ) (best : ℕ × ℝ) (i : ℕ) :
    champion (values.map (· * c)) (best.1, best.2 * c) i =
      ((champion values best i).1, (champion values best i).2 * c) := by
  unfold champion
  simp only [getD_multiple, mul_lt_mul_iff_left₀ positive]
  split <;> rfl

/-- The scan starts below all values that are at least zero, so the first one replaces its start. -/
theorem largestFrom_multiple (positive : 0 < c) (nonneg : Nonneg values) (inside : k < values.size) :
    largestFrom (values.map (· * c)) k = ((largestFrom values k).1, (largestFrom values k).2 * c) := by
  have value : 0 ≤ values.getD k 0 := nonneg k inside
  have below : (-1 : ℝ) < values.getD k 0 := by linarith
  have below' : (-1 : ℝ) < values.getD k 0 * c := by nlinarith
  have scan (indices : List ℕ) (best : ℕ × ℝ) :
      indices.foldl (champion (values.map (· * c))) (best.1, best.2 * c) =
        ((indices.foldl (champion values) best).1, (indices.foldl (champion values) best).2 * c) := by
    induction indices generalizing best with
    | nil => rfl
    | cons i rest ih => rw [List.foldl_cons, List.foldl_cons, champion_multiple positive, ih]
  obtain ⟨more, rest⟩ := Nat.exists_eq_succ_of_ne_zero (Nat.sub_ne_zero_of_lt inside)
  have first : champion values (k, -1) k = (k, values.getD k 0) := if_pos below
  have first' : champion (values.map (· * c)) (k, -1) k = (k, values.getD k 0 * c) := by
    rw [champion, getD_multiple, if_pos below']
  rw [largestFrom, largestFrom, Array.size_map, rest, List.range'_succ, List.foldl_cons, List.foldl_cons, first, first']
  exact scan _ (k, values.getD k 0)

private theorem place_multiple (positive : 0 < c) (nonneg : Nonneg t.values) (inside : k < t.values.size) :
    (t.multiple c).place k = (t.place k).multiple c := by
  have found : largestFrom (t.multiple c).values k = ((largestFrom t.values k).1, (largestFrom t.values k).2 * c) :=
    largestFrom_multiple positive nonneg inside
  rw [place_eq, place_eq, found]
  dsimp only
  split
  · rfl
  · simp only [exchange, multiple, getD_multiple, Array.map_setIfInBounds]

private theorem sorted_multiple (positive : 0 < c) (nonneg : Nonneg t.values) : (t.multiple c).sorted = t.sorted.multiple c := by
  have each (count : ℕ) (fits : count ≤ t.values.size) :
      (List.range count).foldl place (t.multiple c) = ((List.range count).foldl place t).multiple c ∧
        Nonneg ((List.range count).foldl place t).values ∧
        ((List.range count).foldl place t).values.size = t.values.size := by
    induction count with
    | zero => exact ⟨rfl, nonneg, rfl⟩
    | succ k ih =>
      obtain ⟨same, nonneg', size⟩ := ih (Nat.le_of_succ_le fits)
      have inside := Nat.lt_of_lt_of_eq fits size.symm
      simp only [List.range_succ, List.foldl_append, List.foldl_cons, List.foldl_nil]
      rw [same, place_multiple positive nonneg' inside]
      exact ⟨rfl, nonneg_place nonneg' inside, (size_place _ k).trans size⟩
  have size : (t.multiple c).values.size = t.values.size := Array.size_map
  rw [sorted, sorted, size]
  exact (each t.values.size le_rfl).1

end SingularTriples

namespace Decomposition

/-- The same factors, and `c` times the values. -/
noncomputable def multiple (r : Decomposition ℝ) (c : ℝ) : Decomposition ℝ :=
  { r with values := r.values.map (c * ·) }

end Decomposition

namespace Reference
variable {policy : Policy ℝ} {rule : FloorRule} {A : DenseMatrix ℝ} {r : Reduction ℝ}

private theorem normFloor_multiple (policy : Policy ℝ) (rule : FloorRule) (A : DenseMatrix ℝ) (c : ℝ) :
    normFloor policy rule (A.scale c) = (normFloor policy rule A).multiple c := by
  cases rule with
  | flush => rfl
  | refuse => simp only [normFloor, NormFloor.multiple, DenseMatrix.maxColumnNormSq_scale, Option.map_some, mul_assoc]

private theorem negligible_multiple (positive : 0 < c) (policy : Policy ℝ) (r : Reduction ℝ) :
    negligible policy (r.multiple c) = negligible policy r * c := by
  have size : (r.multiple c).diag.size = r.diag.size := Array.size_map
  have entry (k : ℕ) : (r.multiple c).diag.getD k 0 + (r.multiple c).superDiag.getD k 0 =
      c * (r.diag.getD k 0 + r.superDiag.getD k 0) := by
    rw [Reduction.multiple, getD_multiple, getD_multiple]
    ring
  have largest := Scalar.foldl_larger_mul (List.range r.diag.size)
    (fun k => r.diag.getD k 0 + r.superDiag.getD k 0) 0 positive.le
  rw [mul_zero] at largest
  simp only [negligible, size, entry, largest]
  ring

private theorem iteration_multiple (A : DenseMatrix ℝ) (r : Reduction ℝ) (c : ℝ) :
    iteration (A.scale c) (r.multiple c) = (iteration A r).multiple c := rfl

/-- Sorting and replaying give the same factors and the multiples of the values. -/
theorem assemble_multiple (positive : 0 < c) {st : Iteration ℝ} (nonneg : SingularTriples.Nonneg st.diag)
    (left : ∀ U, (r.multiple c).accumulateLeft U = r.accumulateLeft U)
    (right : ∀ V, (r.multiple c).accumulateRight V = r.accumulateRight V) :
    assemble (r.multiple c) (st.multiple c) = (assemble r st).multiple c := by
  have sorted := SingularTriples.sorted_multiple (t := ⟨st.diag, st.left, st.right⟩) positive nonneg
  have triples : (⟨(st.multiple c).diag, (st.multiple c).left, (st.multiple c).right⟩ : SingularTriples ℝ) =
      (⟨st.diag, st.left, st.right⟩ : SingularTriples ℝ).multiple c := rfl
  unfold assemble
  rw [triples, sorted]
  simp only [SingularTriples.multiple, left, right]

private theorem tall_forces (positive : 0 < c) (policy : Policy ℝ) (rule : FloorRule) (tall : A.cols ≤ A.rows) :
    Forces (tallOutcomes policy rule A) (tallOutcomes policy rule (A.scale c))
      (Reference.tall policy rule (A.scale c) = (Reference.tall policy rule A).map (·.multiple c)) := by
  have shape : A.shape = (A.rows, A.cols) := rfl
  have cols : (A.scale c).cols = A.cols := rfl
  unfold tallOutcomes Reference.tall DenseMatrix.bidiagonalize
  rw [normFloor_multiple, cols]
  refine (Reduction.upTo_forces positive (normFloor policy rule A) A A.cols).append fun reduced => ?_
  rw [reduced]
  cases found : Reduction.upTo (normFloor policy rule A) A A.cols with
  | none => exact .nothing rfl
  | some r =>
    have size : (r.multiple c).diag.size = r.diag.size := Array.size_map
    have size' : (iteration A r).diag.size = r.diag.size := rfl
    dsimp only [Option.map_some]
    rw [iteration_multiple, negligible_multiple positive, size]
    unfold Iteration.diagonalize
    refine (Iteration.settleAll_forces positive (negligible policy r) policy.maxSweeps.toNat _ _).append
      fun settled => ?_
    have sizeM : ((iteration A r).multiple c).diag.size = r.diag.size := Array.size_map
    rw [sizeM, size', settled]
    cases done : Iteration.settleAll (negligible policy r) policy.maxSweeps.toNat r.diag.size (iteration A r) with
    | error breakdown => exact .nothing rfl
    | ok st =>
      have finite (values : Array ℝ) : values.all Scalar.isFinite = true := by
        rw [Array.all_eq_true_iff_forall_mem]
        exact fun _ _ => rfl
      have run : Run policy rule A r st := ⟨found, done, finite _⟩
      obtain ⟨-, -, -, nonneg⟩ := run.settled_nonneg shape tall
      dsimp only [Except.map]
      rw [if_pos (finite _), if_pos (finite _), if_pos (finite _), if_pos (finite _)]
      refine (Reduction.replay_forces positive r).mono fun replayed => ?_
      rw [assemble_multiple positive nonneg replayed.1 replayed.2]

private theorem oriented_multiple (A : DenseMatrix ℝ) (t : SingularTriples ℝ) (c : ℝ) :
    oriented (A.scale c) (t.multiple c) = (oriented A t).multiple c := by
  have values : (t.multiple c).values.toList = t.values.toList.map (c * ·) := by
    simp [SingularTriples.multiple, mul_comm]
  have rows : (A.scale c).rows = A.rows := rfl
  have cols : (A.scale c).cols = A.cols := rfl
  rw [oriented, oriented, rows, cols, values, Decomposition.multiple]
  split <;> rfl

/-- An attempt at a multiple that comes out alike in all absolute tests is the multiple of the attempt. -/
theorem attempt_multiple (positive : 0 < c) (same : outcomes policy rule A <+: outcomes policy rule (A.scale c)) :
    attempt policy rule (A.scale c) = (attempt policy rule A).map (·.multiple c) := by
  unfold outcomes at same
  rw [tallForm_scale] at same
  obtain ⟨-, decomposed⟩ := (tall_forces positive policy rule (tallForm_extents A).2.2).of_leading same
  rw [attempt_eq_tall, attempt_eq_tall, tallForm_scale, decomposed]
  cases Reference.tall policy rule (tallForm A) with
  | error breakdown => rfl
  | ok t => exact congrArg Except.ok (oriented_multiple A t c)

/-- Compensated for the rescalings that brought it there, the multiple of a value is what it was. -/
theorem compensate_multiple {found : Decomposition ℝ} {x : ℝ} {tries : ℕ}
    (rescaled : c = x * policy.rescaleFactor ^ tries) (positive : 0 < c) (few : tries < 2 ^ 31) :
    compensate policy tries (found.multiple c) = found.multiple x := by
  have power : policy.rescaleFactor ^ tries ≠ 0 := by
    rintro vanishes
    rw [rescaled, vanishes, mul_zero] at positive
    exact lt_irrefl 0 positive
  rw [compensate, compensation_exact policy few, Decomposition.multiple, Decomposition.multiple, List.map_map, rescaled]
  have each (value : ℝ) : x * policy.rescaleFactor ^ tries * value / policy.rescaleFactor ^ tries = x * value := by
    rw [mul_right_comm, mul_div_cancel_right₀ _ power]
  simp only [Function.comp_def, each]

/-- Multiplying by a positive number commutes with the decomposition, as long as the absolute tests come out
the same: the multiple breaks down where the input does, and otherwise has the same factors and the multiples
of the values. So where such a multiple is the first rescaled copy that is decomposed, its values divided by
the rescaling are those of the matrix that was rescaled, and exactly so while the number of rescalings fits
the signed 32-bit exponent that compensates for them. -/
theorem attempt_commutes (positive : 0 < c)
    (same : outcomes policy .refuse A <+: outcomes policy .refuse (A.scale c)) :
    (Fails policy (A.scale c) ↔ Fails policy A) ∧
    (∀ found, attempt policy .refuse A = .ok found →
      attempt policy .refuse (A.scale c) = .ok { found with values := found.values.map (c * ·) }) ∧
    ∀ x tries found, c = x * policy.rescaleFactor ^ tries → tries ≤ policy.maxRetries.toNat →
      belowReach policy (A.scale x) = false →
      (∀ j < tries, Fails policy (A.scale (x * policy.rescaleFactor ^ j))) →
      attempt policy .refuse A = .ok found →
      decompose policy (A.scale x) =
          .ok { found with values := found.values.map fun value => c * value / compensation policy tries } ∧
        (tries < 2 ^ 31 →
          decompose policy (A.scale x) = .ok { found with values := found.values.map (x * ·) }) := by
  have commutes := attempt_multiple positive same
  refine ⟨?_, fun found done => ?_, fun x tries found rescaling within reachable earlier done => ?_⟩
  · rw [Fails, Fails, commutes]
    cases attempt policy .refuse A <;> simp [Except.map]
  · rw [commutes, done]
    rfl
  · have copy (j : ℕ) : rescaled policy (A.scale x) j = A.scale (x * policy.rescaleFactor ^ j) := by
      rw [rescaled_exact, DenseMatrix.scale_scale]
    have last : attempt policy .refuse (rescaled policy (A.scale x) tries) = .ok (found.multiple c) := by
      rw [copy, ← rescaling, commutes, done]
      rfl
    have decomposed := decompose_eq_ok reachable within (fun j before => by rw [copy]; exact earlier j before) last
    have compensated : (if tries = 0 then found.multiple c else compensate policy tries (found.multiple c)) =
        compensate policy tries (found.multiple c) := by
      split
      · next first =>
        have unscaled : compensation policy 0 = 1 := Scalar.powInt_zero _
        rw [first, compensate, unscaled]
        simp
      · rfl
    rw [decomposed, compensated]
    refine ⟨?_, fun few => ?_⟩
    · simp only [compensate, Decomposition.multiple, List.map_map, Function.comp_def]
    · rw [compensate_multiple rescaling positive few]
      rfl

section EvenBlock
variable {a : ℝ}

/-- The rotations of the only sweep. The second one has nothing to turn, so it is looked at for degeneracy. -/
theorem sweepOutcomes_even {st : Iteration ℝ} (even : st.Even a) (positive : 0 < a) (visible : Tolerance.zero < a)
    (small : Scalar.hypot a a < Tolerance.sign) :
    Iteration.sweepOutcomes 0 1 st = [false, false, true, true, false] := by
  obtain ⟨some, above, turned⟩ := Iteration.even_rotation positive
  have long : ¬Scalar.hypot a a ≤ Tolerance.zero := not_le.mpr (visible.trans_le above)
  have length : Scalar.abs (Scalar.hypot a a) = Scalar.hypot a a := by rw [Scalar.abs_exact, abs_of_pos some]
  have nothing : Scalar.abs (0 : ℝ) < Tolerance.sign := by
    rw [Scalar.abs_exact, abs_zero]
    exact Tolerance.sign_pos
  have stepped := even.chaseStep positive visible
  unfold Iteration.sweepOutcomes
  rw [even.shift positive, even.first, Nat.sub_zero, Iteration.chaseOutcomes, stepped]
  unfold Iteration.chaseStepOutcomes
  dsimp only
  rw [even.coupling, even.second]
  simp only [one_mul, mul_one, zero_mul, turned, Iteration.hypot_zero_left positive, Iteration.degenerateOutcomes,
    length, long, nothing, small, decide_false, decide_true, and_false, if_true, if_false]
  rfl

private theorem settleAllOutcomes_even {st : Iteration ℝ} {tolerance : ℝ} (even : st.Even a) (positive : 0 < a)
    (visible : Tolerance.zero < a) (nonneg : 0 ≤ tolerance) (below : tolerance < a) (sweeps : ℕ) :
    Iteration.settleAllOutcomes tolerance (sweeps + 1) 2 st = Iteration.sweepOutcomes 0 1 st := by
  obtain ⟨st', swept, isolated, alone, settled, -⟩ := even.settle positive visible nonneg below sweeps
  have quiet : Iteration.settleOutcomes tolerance 1 sweeps st' = [] := by
    cases sweeps with
    | zero => rfl
    | succ sweeps =>
      rw [Iteration.settleOutcomes_succ, alone]
      exact if_pos rfl
  have first : Iteration.settleOutcomes tolerance 0 (sweeps + 1) st' = [] := by
    rw [Iteration.settleOutcomes_succ]
    exact if_pos (Nat.le_zero.mp (Iteration.isolate_start_le tolerance st' 0))
  have none : Iteration.settleAllOutcomes tolerance (sweeps + 1) 0 (st'.makeNonNegative 0) = [] := rfl
  rw [Iteration.settleAllOutcomes_succ, settled, Iteration.settleOutcomes_succ, isolated]
  dsimp only
  rw [if_neg zero_ne_one, swept]
  dsimp only
  rw [quiet, Iteration.settleAllOutcomes_succ, first, Iteration.settle_first]
  dsimp only
  rw [none, List.append_nil, List.append_nil, List.append_nil]

/-- Both entries are kept, the second column is not, one sweep follows, and three reflections are looked for. -/
theorem outcomes_evenBlock (positive : 0 < a) (above : 1.5e-34 < a ^ 2) (small : Scalar.hypot a a < Tolerance.sign) :
    outcomes {} .refuse (flatBlock a a) =
      [true, false, true, false, false] ++ [false, false, true, true, false] ++ [true, false, false] := by
  have visible := visible_of_above positive above
  have faint : ¬a ≤ Tolerance.zero := not_le.mpr visible
  obtain ⟨r, p, reduced, sized, even, ⟨nonneg, below⟩, length, judged⟩ := evenBlock_reduction positive above
  obtain ⟨st, -, -, -, -, settled⟩ := even.settle positive visible nonneg below 99
  have cols : (flatBlock a a).cols = 2 := rfl
  have corner : (⟨a, 0⟩ : Cplx ℝ).modulus = a := by
    have real : (⟨a, 0⟩ : Cplx ℝ).toComplex = a := rfl
    rw [Cplx.modulus_exact, real, Complex.norm_real, Real.norm_of_nonneg positive.le]
  have beside : p.modulus = a := by rw [Cplx.modulus_exact, length]
  have empty : ¬(1.5e-34 : ℝ) < 0 := by norm_num
  have judgements : Reduction.outcomes (normFloor {} .refuse (flatBlock a a)) (flatBlock a a) 2 =
      [true, false, true, false, false] := by
    have floor : (normFloor {} .refuse (flatBlock a a)).floor = 1.5e-34 := rfl
    rw [Reduction.outcomes, judged, floor]
    simp only [List.flatMap_cons, List.flatMap_nil, Judgement.outcomes, corner, beside, above, faint, empty, decide_true,
      decide_false, if_true, if_false]
    rfl
  have sweeps := settleAllOutcomes_even even positive visible nonneg below 99
  have replayed : r.replayOutcomes = [true, false, false] := by
    have diag : r.diag.getD 1 0 = 0 ∧ r.diag.getD 0 0 = a ∧ r.superDiag.getD 1 0 = a :=
      ⟨even.second, even.first, even.coupling⟩
    have tests : r.replayOutcomes = [decide (r.diag.getD 1 0 ≤ Tolerance.zero), decide (r.diag.getD 0 0 ≤ Tolerance.zero),
        decide (r.superDiag.getD 1 0 ≤ Tolerance.zero)] := by
      rw [Reduction.replayOutcomes, sized.cols]
      rfl
    rw [tests, diag.1, diag.2.1, diag.2.2, decide_eq_false faint, decide_eq_true Tolerance.zero_pos.le]
  have finite : st.diag.all Scalar.isFinite = true := Array.all_eq_true.mpr fun _ _ => rfl
  have limit : ({} : Policy ℝ).maxSweeps.toNat = 99 + 1 := rfl
  rw [outcomes, tallForm_flatBlock, tallOutcomes, cols, judgements, reduced]
  dsimp only
  rw [limit, sized.diagSize, sweeps, settled]
  dsimp only
  rw [if_pos finite, sweepOutcomes_even even positive visible small, replayed, List.append_assoc]

private theorem hypot_lt_sign (positive : 0 < a) (small : 2 * a < Tolerance.sign) : Scalar.hypot a a < Tolerance.sign := by
  have length := Scalar.hypot_mul_self a a
  nlinarith [Real.sqrt_nonneg (a * a + a * a), Tolerance.sign_pos]

/-- A tiny block needs one rescaling, and gets the factors of a larger one and its values at the scale it
came in. -/
theorem attempt_commutes_tinyBlock :
    (0 : ℝ) < 1e-1 ∧ outcomes {} .refuse (flatBlock 1e-15 1e-15) <+: outcomes {} .refuse ((flatBlock 1e-15 1e-15).scale 1e-1) ∧
      ∃ found, attempt {} .refuse (flatBlock 1e-15 1e-15) = .ok found ∧
        attempt {} .refuse ((flatBlock 1e-15 1e-15).scale 1e-1) =
          .ok { found with values := found.values.map (1e-1 * ·) } ∧
        decompose {} tinyBlock = .ok { found with values := found.values.map (1e-3 * ·) } := by
  have positive : (0 : ℝ) < 1e-1 := by norm_num
  have sign : (Tolerance.sign : ℝ) = 1e-13 := rfl
  have same : outcomes {} .refuse (flatBlock 1e-15 1e-15) <+: outcomes {} .refuse ((flatBlock 1e-15 1e-15).scale 1e-1) := by
    rw [scale_flatBlock,
      outcomes_evenBlock (by norm_num) (by norm_num) (hypot_lt_sign (by norm_num) (by rw [sign]; norm_num)),
      outcomes_evenBlock (by norm_num) (by norm_num) (hypot_lt_sign (by norm_num) (by rw [sign]; norm_num))]
  have tiny : (flatBlock 1e-15 1e-15).scale 1e-3 = tinyBlock := by
    rw [scale_flatBlock, tinyBlock]
    norm_num
  obtain ⟨found, done⟩ := evenBlock_attempt (c := 1e-15) (by norm_num) (by norm_num)
  obtain ⟨-, multiple, retried⟩ := attempt_commutes positive same
  have earlier (j : ℕ) (before : j < 1) :
      Fails {} ((flatBlock 1e-15 1e-15).scale (1e-3 * ({} : Policy ℝ).rescaleFactor ^ j)) := by
    rw [Nat.lt_one_iff.mp before, pow_zero, mul_one, tiny]
    exact tinyBlock_retried.1
  have factor : (1e-1 : ℝ) = 1e-3 * ({} : Policy ℝ).rescaleFactor ^ 1 := by norm_num
  have decomposed := (retried 1e-3 1 found factor (by decide) (by rw [tiny]; exact tinyBlock_reachable) earlier done).2
    (by norm_num)
  exact ⟨positive, same, found, done, multiple found done, tiny ▸ decomposed⟩

end EvenBlock

end Reference
end BondSvd
