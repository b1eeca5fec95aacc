import Mathlib
import BondSvd.Proofs.Finite.Laws
import BondSvd.Proofs.Iteration.Rounds

namespace BondSvd.Iteration
universe u
variable {α : Type u} [Scalar α] {st st' st'' : Iteration α} {tolerance : α} {k : Nat}

/-- All values so far are finite. -/
def FiniteValues (st : Iteration α) : Prop := ∀ j, Scalar.isFinite (st.d j) = true

/-- All values are finite, with the carried one in place of value `p`. -/
def Carried (p : Nat) (b : Bulge α) (st : Iteration α) : Prop :=
  Scalar.isFinite b.x = true ∧ ∀ j, j ≠ p → Scalar.isFinite (st.d j) = true

/-- The values stay in their places, and one that is not finite is not lost. -/
structure Exposes (st st' : Iteration α) : Prop where
  size : st'.diag.size = st.diag.size
  finite : st'.FiniteValues → st.FiniteValues

theorem Exposes.trans (first : Exposes st st') (second : Exposes st' st'') : Exposes st st'' :=
  ⟨second.size.trans first.size, fun finite => first.finite (second.finite finite)⟩

theorem Exposes.of_diag_eq (same : st'.diag = st.diag) : Exposes st st' := by
  refine ⟨congrArg Array.size same, fun finite j => ?_⟩
  rw [d, ← same]
  exact finite j

theorem Exposes.setD {x : α} (bound : k < st.diag.size)
    (mixed : Scalar.isFinite x = true → Scalar.isFinite (st.d k) = true) : Exposes st (st.setD k x) := by
  refine ⟨Array.size_setIfInBounds, fun finite j => ?_⟩
  have value := finite j
  rw [d_setD st bound] at value
  split at value
  · next here =>
    rw [← here]
    exact mixed value
  · exact value

/-- The second rotation of a step has the length of both its terms. -/
theorem length_closeRotation {f h : α} {tiny : Bool} {w cos sin : α}
    (done : closeRotation f h tiny = .ok (w, cos, sin)) : w = Scalar.hypot h f := by
  unfold closeRotation at done
  dsimp only at done
  split at done
  · cases done
    rfl
  · split at done
    · cases done
    · cases done
      rfl

/-- A later state of a run shows in its values and its factors what is not finite in an earlier one. -/
structure Shows (st st' : Iteration α) : Prop where
  values : st'.FiniteValues → st.FiniteValues
  left : st'.left.FiniteReal → st.left.FiniteReal
  right : st'.right.FiniteReal → st.right.FiniteReal

theorem Shows.trans (first : Shows st st') (second : Shows st' st'') : Shows st st'' where
  values finite := first.values (second.values finite)
  left finite := first.left (second.left finite)
  right finite := first.right (second.right finite)

/-- The couplings below `count` are finite. -/
def FiniteCouplings (count : Nat) (st : Iteration α) : Prop :=
  ∀ j, 0 < j → j < count → Scalar.isFinite (st.e j) = true

/-- What the first quotient of a shift is divided by. -/
def cornerDivisor (k : Nat) (st : Iteration α) : α := 2.0 * st.e k * st.d (k - 1)

/-- What the second one is divided by: the first one, moved away from zero. -/
def cornerTangent (k : Nat) (st : Iteration α) : α :=
  let y := st.d (k - 1)
  let f := ((y - st.d k) * (y + st.d k) + (st.e (k - 1) - st.e k) * (st.e (k - 1) + st.e k)) / st.cornerDivisor k
  f + if f < -Tolerance.sign then -Scalar.hypot f 1 else Scalar.hypot f 1

/-- The quotients of a shift: by these two, and by the first value of the block. -/
theorem shift_eq (l k : Nat) (st : Iteration α) :
    st.shift l k =
      ((st.d l - st.d k) * (st.d l + st.d k) + (st.d (k - 1) / st.cornerTangent k - st.e k) * st.e k) / st.d l := rfl

namespace Round

/-- What a round that sweeps divides by on the way to its first rotation, and the length of that. The lengths
of the later ones are among the values and couplings that it leaves. -/
def divisors (tolerance : α) (round : Round α) : List α :=
  if (round.split tolerance).start = round.index then []
  else
    [(round.isolated tolerance).cornerDivisor round.index, (round.isolated tolerance).cornerTangent round.index,
      Scalar.hypot ((round.bulge tolerance).sin * (round.isolated tolerance).e ((round.split tolerance).start + 1))
        (round.bulge tolerance).f]

/-- A round that begins with nothing infinite and nothing undefined, and divides by nothing of that kind. -/
structure Clean (tolerance : α) (round : Round α) : Prop where
  values : round.state.FiniteValues
  couplings : round.state.FiniteCouplings (round.index + 1)
  left : round.state.left.FiniteReal
  right : round.state.right.FiniteReal
  divisors : ∀ x ∈ round.divisors tolerance, Scalar.isFinite x = true

end Round

/-- The scan stops at the first value, or at a coupling that is negligible or calls for cancellation. -/
theorem split_start_cases (tolerance : α) (st : Iteration α) (k : Nat) :
    (st.split tolerance k).start = 0 ∨ (st.split tolerance k).cancels = true ∨
      Scalar.abs (st.e (st.split tolerance k).start) ≤ tolerance := by
  induction k with
  | zero => exact .inl rfl
  | succ l ih =>
    rw [split]
    split
    · next negligible => exact .inr (.inr negligible)
    · split
      · exact .inr (.inl rfl)
      · exact ih

/-- The first rotation of a chase leaves its length as the coupling before it. -/
theorem e_chase_first {p count : Nat} {b b' : Bulge α} (bound : p < st.superDiag.size)
    (done : chase (count + 1) (p + 1) b st = .ok (b', st')) :
    st'.e p = Scalar.hypot (b.sin * st.e (p + 1)) b.f := by
  unfold chase at done
  split at done
  · cases done
  · next moved middle stepped =>
    rw [(chase_writes (Nat.le_refl (p + 1)) (Nat.le_refl _) done).e_eq (.inl (Nat.lt_succ_self p))]
    unfold chaseStep at stepped
    dsimp only at stepped
    split at stepped
    · cases stepped
    · split at stepped
      · cases stepped
      · cases stepped
        exact (e_setE st bound _ p).trans (if_pos rfl)

variable [Propagating α]

/-- Every rotation of two columns shows what they held. -/
theorem Writes.finiteReal {low high : Nat} (writes : Writes low high st st') :
    (st'.left.FiniteReal → st.left.FiniteReal) ∧ (st'.right.FiniteReal → st.right.FiniteReal) := by
  induction writes with
  | refl => exact ⟨id, id⟩
  | setD earlier after before x ih => exact ih
  | setE earlier after before x ih => exact ih
  | count earlier degenerate ih => exact ih
  | rotateLeft earlier first second cos sin ih => exact ⟨fun finite => ih.1 finite.of_rotateColumns, ih.2⟩
  | rotateRight earlier first second cos sin ih => exact ⟨ih.1, fun finite => ih.2 finite.of_rotateColumns⟩
  | negate earlier before lead ih => exact ⟨ih.1, fun finite => ih.2 finite.of_negateColumn⟩

private theorem cancel_exposes {pivot count i : Nat} (inside : i + count ≤ st.diag.size) (cos sin : α) :
    Exposes st (st.cancel tolerance pivot count i cos sin) := by
  induction count generalizing st i cos sin with
  | zero => exact .of_diag_eq rfl
  | succ count ih =>
    unfold cancel
    dsimp only
    split
    · exact .of_diag_eq rfl
    · have coupled : Exposes st (st.setE i (st.e i * cos)) := .of_diag_eq rfl
      have bound : i < (st.setE i (st.e i * cos)).diag.size := Nat.lt_of_lt_of_le (by omega) inside
      have mixed := Exposes.setD bound fun finite => (Propagating.hypot (x := sin * st.e i) finite).2
      refine (coupled.trans mixed).trans (Exposes.trans ?_ (ih ?_ _ _))
      · exact .of_diag_eq rfl
      · change _ ≤ (st.diag.setIfInBounds _ _).size
        rw [Array.size_setIfInBounds]
        omega

private theorem isolate_exposes (inside : k < st.diag.size) : Exposes st (st.isolate tolerance k).2 := by
  unfold isolate
  dsimp only
  split
  · have start := split_start_le tolerance st k
    exact cancel_exposes (by omega) _ _
  · exact .of_diag_eq rfl

/-- One rotation leaves the carried value behind and takes up the next one. -/
theorem chaseStep_carried {p : Nat} {b b' : Bulge α} (inside : p < st.diag.size)
    (done : chaseStep (p + 1) b st = .ok (b', st')) :
    st'.diag.size = st.diag.size ∧ (Carried (p + 1) b' st' → Carried p b st) := by
  unfold chaseStep at done
  dsimp only at done
  split at done
  · cases done
  · split at done
    · cases done
    · next w cos sin closed =>
      cases done
      refine ⟨Array.size_setIfInBounds, fun carried => ?_⟩
      have values (j : Nat) (off : j ≠ p + 1) :
          Scalar.isFinite (if p = j then w else st.d j) = true := by
        rw [← d_setD st inside w j]
        exact carried.2 j off
      refine ⟨?_, fun j off => ?_⟩
      -- Value `p` is overwritten by a length whose second term holds the carried value.
      · have length := values p (by omega)
        rw [if_pos rfl, length_closeRotation closed] at length
        exact (Propagating.mul (Propagating.add (Propagating.hypot length).2).1).1
      -- Value `p + 1` is what the new carried value was made of; the others stay.
      · by_cases next : j = p + 1
        · rw [next]
          exact (Propagating.mul (Propagating.mul (Propagating.sub carried.1).1).2).1
        · have value := values j next
          rwa [if_neg (Ne.symm off)] at value

private theorem chase_carried {p count : Nat} {b b' : Bulge α} (inside : p + count ≤ st.diag.size)
    (done : chase count (p + 1) b st = .ok (b', st')) :
    st'.diag.size = st.diag.size ∧ (Carried (p + count) b' st' → Carried p b st) := by
  induction count generalizing st b p with
  | zero =>
    cases done
    exact ⟨rfl, id⟩
  | succ count ih =>
    unfold chase at done
    split at done
    · cases done
    · next moved middle stepped =>
      obtain ⟨size, back⟩ := chaseStep_carried (by omega) stepped
      obtain ⟨size', back'⟩ := ih (by omega) done
      refine ⟨size'.trans size, fun carried => back (back' ?_)⟩
      rwa [Nat.add_right_comm]

private theorem sweep_exposes {l : Nat} (block : l ≤ k) (inside : k < st.diag.size)
    (done : sweep l k st = .ok st') : Exposes st st' := by
  unfold sweep at done
  split at done
  · cases done
  · next b middle chased =>
    cases done
    obtain ⟨size, back⟩ := chase_carried (by omega) chased
    refine ⟨Array.size_setIfInBounds.trans size, fun finite => ?_⟩
    have bound : k < ((middle.setE l 0).setE k b.f).diag.size := size.symm ▸ inside
    have values (j : Nat) : Scalar.isFinite (if k = j then b.x else middle.d j) = true := by
      rw [← d_setE middle l 0, ← d_setE _ k b.f, ← d_setD _ bound]
      exact finite j
    have carried : Carried (l + (k - l)) b middle := by
      refine ⟨?_, fun j off => ?_⟩
      · have last := values k
        rwa [if_pos rfl] at last
      · have value := values j
        rwa [if_neg (by omega)] at value
    obtain ⟨first, others⟩ := back carried
    intro j
    by_cases here : j = l
    · rw [here]
      exact first
    · exact others j here

private theorem makeNonNegative_exposes (inside : k < st.diag.size) : Exposes st (st.makeNonNegative k) := by
  unfold makeNonNegative
  split
  · exact (Exposes.setD inside Propagating.neg).trans (.of_diag_eq rfl)
  · exact .of_diag_eq rfl

theorem Round.Next.shows {round : Round α} {next : Iteration α} (handed : round.Next tolerance next)
    (inside : round.index < round.state.diag.size) : Shows round.state next := by
  have isolated : Exposes round.state (round.isolated tolerance) := isolate_exposes inside
  have inside' := isolated.size.symm ▸ inside
  have values : Exposes (round.isolated tolerance) next := by
    cases handed with
    | swept done => exact sweep_exposes (round.start_le tolerance) inside' (Round.swept_eq_some done).2
    | settled single => exact makeNonNegative_exposes inside'
  have factors := handed.meets.writes.finiteReal
  exact ⟨fun finite => isolated.finite (values.finite finite), factors.1, factors.2⟩

/-- What a run ends with shows what each of its rounds began with. -/
theorem rounds_show {maxSweeps count : Nat} (inside : count ≤ st.diag.size)
    (done : settleAll tolerance maxSweeps count st = .ok st') :
    ∀ round ∈ st.rounds tolerance maxSweeps count, Shows round.state st' := by
  have each (round : Round α) (member : round ∈ rounds tolerance maxSweeps count st) :
      round.index < round.state.diag.size := by
    obtain ⟨index, size⟩ := rounds_inside member
    omega
  have chain : (rounds tolerance maxSweeps count st).IsChain fun earlier later => Shows earlier.state later.state :=
    (rounds_chain tolerance maxSweeps count st).imp_of_mem_imp fun earlier _ member _ follows =>
      follows.handed.shows (each earlier member)
  -- Backwards from the last round, which hands on the end of the run.
  refine chain.backwards_induction (fun round => Shows round.state st') _ (fun _ _ shows rest => shows.trans rest)
    fun present => ?_
  have last := rounds_last done (List.getLast?_eq_some_getLast present)
  exact last.shows (each _ (List.getLast_mem present))

/-- A coupling is only multiplied by a cancellation. -/
theorem finite_e_of_cancel {pivot count i : Nat} {cos sin : α} {j : Nat}
    (finite : Scalar.isFinite ((st.cancel tolerance pivot count i cos sin).e j) = true) :
    Scalar.isFinite (st.e j) = true := by
  induction count generalizing st i cos sin with
  | zero => exact finite
  | succ count ih =>
    have scaled : Scalar.isFinite ((st.setE i (st.e i * cos)).e j) = true := by
      unfold cancel at finite
      dsimp only at finite
      split at finite
      · exact finite
      · have rest := ih finite
        exact rest
    by_cases here : i = j
    · subst here
      by_cases bound : i < st.superDiag.size
      · rw [e_setE st bound, if_pos rfl] at scaled
        exact (Propagating.mul scaled).1
      · rw [e, Array.getD_eq_getD_getElem?, Array.getElem?_eq_none (Nat.not_lt.mp bound)]
        exact Propagating.zero
    · rw [e, ← getD_setIfInBounds_of_ne st.superDiag here (st.e i * cos) 0]
      exact scaled

/-- The coupling that is cancelled first is negligible, or is left in the length of the first rotation. -/
theorem finite_e_of_cancel_first {pivot count i : Nat} {cos sin : α} (inside : i + (count + 1) ≤ st.diag.size)
    (bounded : Scalar.isFinite tolerance = true)
    (finite : (st.cancel tolerance pivot (count + 1) i cos sin).FiniteValues) : Scalar.isFinite (st.e i) = true := by
  unfold cancel at finite
  dsimp only at finite
  split at finite
  · next small => exact (Propagating.mul (Propagating.bounded small bounded)).2
  · have bound : i < (st.setE i (st.e i * cos)).diag.size := Nat.lt_of_lt_of_le (by omega) inside
    have length := (cancel_exposes (by
      change _ ≤ (st.diag.setIfInBounds _ _).size
      rw [Array.size_setIfInBounds]
      omega) _ _).finite finite i
    change Scalar.isFinite (((st.setE i (st.e i * cos)).setD i (Scalar.hypot (sin * st.e i) (st.d i))).d i) = true
      at length
    rw [d_setD _ bound, if_pos rfl] at length
    exact (Propagating.mul (Propagating.hypot length).1).2

/-- The coupling before a block is negligible or cancelled. -/
theorem finite_e_start (inside : k < st.diag.size) (bounded : Scalar.isFinite tolerance = true)
    (finite : (st.isolate tolerance k).2.FiniteValues) (after : 0 < (st.split tolerance k).start) :
    Scalar.isFinite (st.e (st.split tolerance k).start) = true := by
  have block := split_start_le tolerance st k
  rcases split_start_cases tolerance st k with none | cancels | small
  · omega
  · have count : k + 1 - (st.split tolerance k).start = k - (st.split tolerance k).start + 1 := by omega
    rw [isolate_of_cancels cancels, count] at finite
    exact finite_e_of_cancel_first (by omega) bounded finite
  · exact Propagating.bounded small bounded

theorem finite_e_of_isolate {j : Nat} (finite : Scalar.isFinite ((st.isolate tolerance k).2.e j) = true) :
    Scalar.isFinite (st.e j) = true := by
  unfold isolate at finite
  dsimp only at finite
  split at finite
  · exact finite_e_of_cancel finite
  · exact finite

/-- Each rotation of a chase leaves a length in which the next coupling is, and takes up that coupling. -/
theorem chase_couplings {p count : Nat} {b b' : Bulge α} (done : chase count (p + 1) b st = .ok (b', st'))
    (lengths : ∀ j, p ≤ j → j < p + count → j < st.superDiag.size → Scalar.isFinite (st'.e j) = true) :
    ∀ j, p < j → j ≤ p + count → Scalar.isFinite (st.e j) = true := by
  induction count generalizing st b p with
  | zero => exact fun j above below => absurd above (Nat.not_lt.mpr below)
  | succ count ih =>
    intro j above below
    by_cases bound : j < st.superDiag.size
    · by_cases first : j = p + 1
      · have length := lengths p (Nat.le_refl p) (by omega) (by omega)
        rw [e_chase_first (by omega) done] at length
        rw [first]
        exact (Propagating.mul (Propagating.hypot length).1).2
      · unfold chase at done
        split at done
        · cases done
        · next moved middle stepped =>
          have writes := chaseStep_writes (Nat.le_refl p) (Nat.lt_succ_self p) stepped
          rw [← writes.e_eq (.inr (by omega))]
          refine ih done (fun i low high within => ?_) j (by omega) (by omega)
          rw [writes.superSize_eq] at within
          exact lengths i (by omega) (by omega) within
    · rw [e, Array.getD_eq_getD_getElem?, Array.getElem?_eq_none (Nat.not_lt.mp bound)]
      exact Propagating.zero

/-- A sweep over more than one value takes up all couplings of its block. -/
theorem sweep_couplings {l : Nat} (block : l < k) (done : sweep l k st = .ok st')
    (first : Scalar.isFinite (Scalar.hypot (1 * st.e (l + 1)) (st.shift l k)) = true)
    (later : ∀ j, l < j → j < k → Scalar.isFinite (st'.e j) = true) :
    ∀ j, l < j → j ≤ k → Scalar.isFinite (st.e j) = true := by
  unfold sweep at done
  split at done
  · cases done
  · next b middle chased =>
    cases done
    obtain ⟨count, steps⟩ := Nat.exists_eq_add_of_lt block
    have count' : k - l = count + 1 := by omega
    rw [count'] at chased
    intro j above below
    refine chase_couplings chased (fun i low high bound => ?_) j above (by omega)
    by_cases start : i = l
    · subst start
      rw [e_chase_first bound chased]
      exact first
    · have coupling := later i (by omega) (by omega)
      change Scalar.isFinite (((middle.setE l 0).setE k b.f).e i) = true at coupling
      rwa [e, setE, getD_setIfInBounds_of_ne _ (by omega), setE, getD_setIfInBounds_of_ne _ (by omega)] at coupling

/-- The couplings that a round leaves tell those that it began with. Once a value is settled, its own coupling
is no longer looked at. -/
theorem Round.Next.couplings {round : Round α} {next : Iteration α} (handed : round.Next tolerance next)
    (inside : round.index < round.state.diag.size) (bounded : Scalar.isFinite tolerance = true)
    (values : next.FiniteValues) (divisors : ∀ x ∈ round.divisors tolerance, Scalar.isFinite x = true)
    (later : next.FiniteCouplings (if (round.split tolerance).start = round.index then round.index else round.index + 1)) :
    round.state.FiniteCouplings (round.index + 1) := by
  have size : (round.isolated tolerance).diag.size = round.state.diag.size :=
    (isolate_writes tolerance round.index round.state).size_eq
  have inside' := size.symm ▸ inside
  intro j positive below
  cases handed with
  | settled single =>
    rw [if_pos single] at later
    have isolated := (makeNonNegative_exposes inside').finite values
    by_cases last : j = round.index
    · have start : 0 < (round.split tolerance).start := by omega
      rw [last, ← single]
      exact finite_e_start inside bounded isolated start
    · have coupling := later j positive (by omega)
      rw [e_makeNonNegative] at coupling
      exact finite_e_of_isolate coupling
  | swept done =>
    obtain ⟨several, done⟩ := Round.swept_eq_some done
    rw [if_neg several] at later
    have block := Nat.lt_of_le_of_ne (round.start_le tolerance) several
    have isolated := (sweep_exposes block.le inside' done).finite values
    rcases Nat.lt_trichotomy j (round.split tolerance).start with before | here | after
    · have coupling := later j positive below
      rw [(sweep_writes block.le done).e_eq (.inl before)] at coupling
      exact finite_e_of_isolate coupling
    · rw [here]
      exact finite_e_start inside bounded isolated (here ▸ positive)
    · have first : Scalar.isFinite (Scalar.hypot ((round.bulge tolerance).sin * (round.isolated tolerance).e
          ((round.split tolerance).start + 1)) (round.bulge tolerance).f) = true := by
        refine divisors _ ?_
        rw [Round.divisors, if_neg several]
        simp
      refine finite_e_of_isolate (sweep_couplings block done first (fun i low high => ?_) j after (by omega))
      exact later i (by omega) (by omega)

/-- If the couplings below a value are finite once it is settled, so are all up to its own before that. -/
theorem settle_couplings {sweeps : Nat} (inside : k < st.diag.size) (bounded : Scalar.isFinite tolerance = true)
    (done : settle tolerance k sweeps st = .ok st') (values : st'.FiniteValues)
    (shown : ∀ round ∈ settleRounds tolerance k sweeps st, round.state.FiniteValues)
    (divisors : ∀ round ∈ settleRounds tolerance k sweeps st,
      ∀ x ∈ round.divisors tolerance, Scalar.isFinite x = true)
    (later : st'.FiniteCouplings k) :
    ∀ round ∈ settleRounds tolerance k sweeps st, round.state.FiniteCouplings (k + 1) := by
  induction sweeps generalizing st with
  | zero =>
    obtain ⟨single, rfl⟩ | ⟨fewer, after, impossible, -, -⟩ := settle_cases done
    · rw [settleRounds, List.forall_mem_singleton] at divisors ⊢
      refine Round.Next.couplings (.settled single) inside bounded values divisors ?_
      rwa [if_pos single]
    · cases impossible
  | succ sweeps ih =>
    obtain ⟨single, rfl⟩ | ⟨fewer, after, same, swept, rest⟩ := settle_cases done
    · rw [settleRounds_alone single, List.forall_mem_singleton] at divisors ⊢
      refine Round.Next.couplings (.settled single) inside bounded values divisors ?_
      rwa [if_pos single]
    · cases same
      have follow : settleRounds tolerance k (sweeps + 1) st = ⟨k, st⟩ :: settleRounds tolerance k sweeps after := by
        rw [settleRounds, swept]
      have handed : Round.Next tolerance ⟨k, st⟩ after := .swept swept
      have first := List.mem_of_head? (settleRounds_head tolerance k sweeps after)
      rw [follow, List.forall_mem_cons] at shown divisors ⊢
      have earlier := ih (handed.meets.writes.size_eq.symm ▸ inside) rest shown.2 divisors.2
      refine ⟨handed.couplings inside bounded (shown.2 _ first) divisors.1 ?_, earlier⟩
      rw [if_neg (Round.swept_eq_some swept).1]
      exact earlier _ first

/-- A run that ends with finite values began with finite values. -/
theorem settleAll_values {maxSweeps count : Nat} (inside : count ≤ st.diag.size)
    (done : settleAll tolerance maxSweeps count st = .ok st') (finite : st'.FiniteValues) : st.FiniteValues := by
  cases count with
  | zero =>
    cases done
    exact finite
  | succ k =>
    have first := List.mem_of_head? (rounds_head tolerance maxSweeps k st)
    exact (rounds_show inside done _ first).values finite

/-- In a run of finite values that divides by nothing infinite, the couplings of the values that are not settled
yet are finite in every round. -/
theorem rounds_couplings {maxSweeps count : Nat} (inside : count ≤ st.diag.size)
    (bounded : Scalar.isFinite tolerance = true) (done : settleAll tolerance maxSweeps count st = .ok st')
    (values : st'.FiniteValues)
    (divisors : ∀ round ∈ st.rounds tolerance maxSweeps count, ∀ x ∈ round.divisors tolerance, Scalar.isFinite x = true) :
    ∀ round ∈ st.rounds tolerance maxSweeps count, round.state.FiniteCouplings (round.index + 1) := by
  have shown (round : Round α) (member : round ∈ st.rounds tolerance maxSweeps count) : round.state.FiniteValues :=
    (rounds_show inside done round member).values values
  induction count generalizing st with
  | zero => exact fun _ member => absurd member List.not_mem_nil
  | succ k ih =>
    unfold settleAll at done
    split at done
    · cases done
    · next after settled =>
      have size := size_settle settled
      have listed : st.rounds tolerance maxSweeps (k + 1) =
          settleRounds tolerance k maxSweeps st ++ after.rounds tolerance maxSweeps k := by
        rw [rounds_succ, settled]
      rw [listed, List.forall_mem_append] at divisors shown ⊢
      have rest := ih (by omega) done divisors.2 shown.2
      have before : after.FiniteCouplings k := by
        cases k with
        | zero => exact fun j positive below => absurd below (Nat.not_lt_zero j)
        | succ k => exact rest _ (List.mem_of_head? (rounds_head tolerance maxSweeps k after))
      have ended := settleAll_values (by omega) done values
      refine ⟨fun round member => ?_, rest⟩
      rw [settleRounds_index member]
      exact settle_couplings inside bounded settled ended shown.1 divisors.1 before round member

/-- A finished iteration of finite values shows every round, provided that the tolerance and the divisors are
finite. -/
theorem rounds_clean {maxSweeps : Nat} (bounded : Scalar.isFinite tolerance = true)
    (done : st.diagonalize tolerance maxSweeps = .ok st') (values : st'.FiniteValues) (left : st'.left.FiniteReal)
    (right : st'.right.FiniteReal)
    (divisors : ∀ round ∈ st.rounds tolerance maxSweeps st.diag.size,
      ∀ x ∈ round.divisors tolerance, Scalar.isFinite x = true) :
    ∀ round ∈ st.rounds tolerance maxSweeps st.diag.size, round.Clean tolerance := by
  intro round member
  have shows := rounds_show (Nat.le_refl _) done round member
  exact ⟨shows.values values, rounds_couplings (Nat.le_refl _) bounded done values divisors round member,
    shows.left left, shows.right right, divisors round member⟩

end BondSvd.Iteration
