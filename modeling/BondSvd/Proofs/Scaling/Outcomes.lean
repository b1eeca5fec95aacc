import BondSvd.Proofs.Iteration.Rounds
import BondSvd.Proofs.Run

/-! The outcomes of the comparisons with absolute constants that an attempt makes, in their order. These
are all that keeps an attempt on a multiple of a matrix from being the same attempt: everything else is
compared with what grows along. -/
namespace BondSvd
universe u
variable {α : Type u} [Scalar α]

/-- Whether a judged norm is above the floor, and for a kept one whether its pivot is too small to have
a direction. -/
def Judgement.outcomes (floor : α) (judgement : Judgement α) : List Bool :=
  decide (floor < judgement.normSq) ::
    if floor < judgement.normSq then [decide (judgement.pivot.modulus ≤ Tolerance.zero)] else []

namespace Reduction

/-- The outcomes of the first `count` steps. -/
def outcomes (rule : NormFloor α) (A : DenseMatrix α) (count : Nat) : List Bool :=
  (judgements rule A count).flatMap (Judgement.outcomes rule.floor)

/-- The outcomes of the replay: which reflections were never made. -/
def replayOutcomes (r : Reduction α) : List Bool :=
  (List.range r.reflectors.cols).reverse.map (fun k => decide (r.diag.getD k 0 ≤ Tolerance.zero)) ++
    (List.range (r.reflectors.cols - 1)).reverse.map fun k => decide (r.superDiag.getD (k + 1) 0 ≤ Tolerance.zero)

end Reduction

namespace Iteration

/-- Whether the terms of a rotation are so small that it may be degenerate. The magnified sum is looked at
only where both are. -/
def degenerateOutcomes (f h x cos g sin : α) : List Bool :=
  decide (Scalar.abs f ≤ Tolerance.zero) :: decide (Scalar.abs h < Tolerance.sign) ::
    if Scalar.abs h < Tolerance.sign then
      decide (Scalar.abs f < Tolerance.sign) ::
        if Scalar.abs f < Tolerance.sign ∧ Scalar.abs f ≤ Tolerance.zero then
          [(DoubleWord.rotationSum x cos g sin Tolerance.magnifier).isNegligible Tolerance.zero]
        else []
    else []

/-- The outcomes of one step: its first rotation has a length, and what its second one is like. -/
def chaseStepOutcomes (i : Nat) (b : Bulge α) (st : Iteration α) : List Bool :=
  let h := b.sin * st.e i
  let g := st.e i * b.cos
  let w := Scalar.hypot h b.f
  decide (w ≤ Tolerance.zero) ::
    if w ≤ Tolerance.zero then []
    else
      let f := b.x * (b.f / w) + g * (h / w)
      let h' := st.d i * (h / w)
      degenerateOutcomes f h' b.x (b.f / w) g (h / w) ++ [decide (Scalar.hypot h' f ≤ Tolerance.zero)]

def chaseOutcomes : (count i : Nat) → Bulge α → Iteration α → List Bool
  | 0, _, _, _ => []
  | count + 1, i, b, st =>
    chaseStepOutcomes i b st ++ match chaseStep i b st with
      | .error _ => []
      | .ok (b, st) => chaseOutcomes count (i + 1) b st

def sweepOutcomes (l k : Nat) (st : Iteration α) : List Bool :=
  chaseOutcomes (k - l) (l + 1) ⟨st.shift l k, st.d l, 1, 1⟩ st

/-- Isolating a block makes no comparison with an absolute constant, so the outcomes of a round are those of its
sweep. -/
def Round.outcomes (tolerance : α) (round : Round α) : List Bool :=
  if (round.split tolerance).start = round.index then []
  else sweepOutcomes (round.split tolerance).start round.index (round.isolated tolerance)

/-- Only as many rounds sweep as the budget allows. -/
def settleOutcomes (tolerance : α) (k sweeps : Nat) (st : Iteration α) : List Bool :=
  ((settleRounds tolerance k sweeps st).take sweeps).flatMap (Round.outcomes tolerance)

def settleAllOutcomes (tolerance : α) (maxSweeps count : Nat) (st : Iteration α) : List Bool :=
  overValues tolerance maxSweeps (fun k => settleOutcomes tolerance k maxSweeps) count st

theorem settleOutcomes_succ (tolerance : α) (k sweeps : Nat) (st : Iteration α) :
    settleOutcomes tolerance k (sweeps + 1) st =
      if (st.isolate tolerance k).1 = k then []
      else sweepOutcomes (st.isolate tolerance k).1 k (st.isolate tolerance k).2 ++
        match sweep (st.isolate tolerance k).1 k (st.isolate tolerance k).2 with
        | .error _ => []
        | .ok st => settleOutcomes tolerance k sweeps st := by
  have start : (Round.split tolerance ⟨k, st⟩).start = (st.isolate tolerance k).1 := (isolate_start tolerance k st).symm
  have isolated : Round.isolated tolerance ⟨k, st⟩ = (st.isolate tolerance k).2 := rfl
  unfold settleOutcomes
  rw [settleRounds, List.take_succ_cons, List.flatMap_cons, Round.outcomes, Round.swept, start, isolated]
  dsimp only
  split
  · rw [List.take_nil]
    rfl
  · cases sweep (st.isolate tolerance k).1 k (st.isolate tolerance k).2 with
    | error breakdown =>
      dsimp only [Except.toOption]
      rw [List.take_nil]
      rfl
    | ok after => rfl

theorem settleAllOutcomes_succ (tolerance : α) (maxSweeps k : Nat) (st : Iteration α) :
    settleAllOutcomes tolerance maxSweeps (k + 1) st =
      settleOutcomes tolerance k maxSweeps st ++
        match settle tolerance k maxSweeps st with
        | .error _ => []
        | .ok st => settleAllOutcomes tolerance maxSweeps k st := rfl

end Iteration

namespace Reference

/-- The outcomes of an attempt at a matrix that is not wide, as far as it gets. -/
def tallOutcomes (policy : Policy α) (rule : FloorRule) (A : DenseMatrix α) : List Bool :=
  Reduction.outcomes (normFloor policy rule A) A A.cols ++
    match A.bidiagonalize (normFloor policy rule A) with
    | none => []
    | some r =>
      Iteration.settleAllOutcomes (negligible policy r) policy.maxSweeps.toNat r.diag.size (iteration A r) ++
        match (iteration A r).diagonalize (negligible policy r) policy.maxSweeps.toNat with
        | .error _ => []
        | .ok st => if st.diag.all Scalar.isFinite then r.replayOutcomes else []

/-- The outcomes of an attempt, which runs on the tall orientation. -/
def outcomes (policy : Policy α) (rule : FloorRule) (A : DenseMatrix α) : List Bool :=
  tallOutcomes policy rule (tallForm A)

end Reference

/-- A run with the outcomes `made`, wherever it goes on, fixes `P` of a second run that has the same
outcomes as far as the first one gets. -/
def Forces (made made' : List Bool) (P : Prop) : Prop :=
  ∀ rest rest', made ++ rest <+: made' ++ rest' → made = made' ∧ P

namespace Forces
variable {made made' later later' : List Bool} {b b' : Bool} {P Q : Prop}

theorem nothing (holds : P) : Forces [] [] P := fun _ _ _ => ⟨rfl, holds⟩

theorem mono (forces : Forces made made' Q) (weaker : Q → P) : Forces made made' P := by
  intro rest rest' same
  obtain ⟨equal, holds⟩ := forces rest rest' same
  exact ⟨equal, weaker holds⟩

/-- The first outcomes are the same, so what follows may rely on that. -/
theorem test (rest : b = b' → Forces made made' P) : Forces (b :: made) (b' :: made') P := by
  intro more more' same
  rw [List.cons_append, List.cons_append, List.cons_prefix_cons] at same
  obtain ⟨rfl, same⟩ := same
  obtain ⟨rfl, holds⟩ := rest rfl more more' same
  exact ⟨rfl, holds⟩

/-- What the first part of a run fixes can be used for the second one. -/
theorem append (first : Forces made made' Q) (second : Q → Forces later later' P) :
    Forces (made ++ later) (made' ++ later') P := by
  intro rest rest' same
  rw [List.append_assoc, List.append_assoc] at same
  obtain ⟨rfl, holds⟩ := first _ _ same
  rw [List.prefix_append_right_inj] at same
  obtain ⟨rfl, conclusion⟩ := second holds rest rest' same
  exact ⟨rfl, conclusion⟩

theorem each (tests tests' : Nat → Bool) (count : Nat) :
    Forces ((List.range count).reverse.map tests) ((List.range count).reverse.map tests')
      (∀ k < count, tests k = tests' k) := by
  induction count with
  | zero => exact .nothing fun k before => absurd before (Nat.not_lt_zero k)
  | succ count ih =>
    rw [List.range_succ, List.reverse_append, List.reverse_singleton, List.singleton_append, List.map_cons,
      List.map_cons]
    refine .test fun last => ih.mono fun earlier k before => ?_
    rcases Nat.lt_or_eq_of_le (Nat.le_of_lt_succ before) with below | rfl
    · exact earlier k below
    · exact last

theorem of_leading (forces : Forces made made' P) (same : made <+: made') : made = made' ∧ P := by
  refine forces [] [] ?_
  rwa [List.append_nil, List.append_nil]

end Forces
end BondSvd
