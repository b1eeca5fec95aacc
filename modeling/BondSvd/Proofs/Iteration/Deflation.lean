import Mathlib
import BondSvd.Proofs.Iteration.Equivalence
import BondSvd.Proofs.Iteration.Rounds

/-! A coupling that is gone is gone for good. A sweep stops the block at the first coupling that vanishes,
so none of the later writes reaches beyond it; this makes each coupling be cancelled at most once, and
neglected at most once while it is not zero. -/
namespace BondSvd.Iteration

variable {tolerance : ℝ} {st st' st'' : Iteration ℝ} {round : Round ℝ} {k limit : ℕ}

/-- A later state of a run in which only values up to `limit` were worked on. -/
structure Persists (limit : ℕ) (st st' : Iteration ℝ) : Prop where
  frozen : Frozen limit st st'
  vanished : ∀ l, st.e l = 0 → st'.e l = 0

theorem Persists.trans (first : Persists limit st st') (second : Persists limit st' st'') : Persists limit st st'' :=
  ⟨first.frozen.trans second.frozen, fun l zero => second.vanished l (first.vanished l zero)⟩

theorem Persists.mono (persists : Persists k st st') (below : k ≤ limit) : Persists limit st st' :=
  { persists with frozen := persists.frozen.mono below }

namespace Round

/-- The couplings of a block are larger than the tolerance, so none of them is stored out of bounds. -/
theorem superDiag_bound (nonneg : 0 ≤ tolerance) {l : ℕ} (large : tolerance < |st.e l|) : l < st.superDiag.size := by
  by_contra beyond
  have zero : st.e l = 0 := by simp [e, Array.getD_eq_getD_getElem?, Array.getElem?_eq_none (not_lt.mp beyond)]
  rw [zero, abs_zero] at large
  exact absurd large (not_lt.mpr nonneg)

/-- A cancellation takes the coupling to the block away, keeps those inside it, and revives none. -/
theorem isolated_couplings (nonneg : 0 ≤ tolerance) (inside : round.index < round.state.diag.size) :
    (∀ l, round.state.e l = 0 → (round.isolated tolerance).e l = 0) ∧
      (∀ l, (round.split tolerance).start < l → l ≤ round.index → (round.isolated tolerance).e l ≠ 0) ∧
      ((round.split tolerance).cancels = true →
        (round.isolated tolerance).e (round.split tolerance).start = 0) := by
  obtain ⟨index, state⟩ := round
  obtain ⟨le, coupled, large, cancels, -⟩ := split_describes tolerance state index
  have present {x : ℝ} (above : tolerance < |x|) : x ≠ 0 := abs_pos.mp (nonneg.trans_lt above)
  simp only [isolated, split] at *
  cases called : (state.split tolerance index).cancels with
  | false =>
    rw [isolate_of_not_cancels called]
    exact ⟨fun l zero => zero, fun l after within => present (coupled l after within), Bool.noConfusion⟩
  | true =>
    obtain ⟨positive, joined, -⟩ := cancels called
    rw [isolate_of_cancels called]
    generalize (state.split tolerance index).start = start at *
    have stored : index < state.superDiag.size := by
      rcases Nat.lt_or_eq_of_le le with within | rfl
      · exact superDiag_bound nonneg (coupled index within le_rfl)
      · exact superDiag_bound nonneg joined
    obtain ⟨count, rest⟩ : ∃ count, index + 1 - start = count + 1 := ⟨index - start, by omega⟩
    have reaches : start + (count + 1) = index + 1 := by omega
    rw [rest]
    refine ⟨(cancel_cancelled (by omega) (by omega)).vanished, fun l after within => ?_,
      fun _ => e_cancel_first (by omega) (by omega)⟩
    exact e_cancel_ne_zero (by omega) (by omega) nonneg (by omega) (fun same => absurd same after.ne)
      (fun i low high => present (large i low (by omega))) (present (coupled l after within))

/-- What is gone after the cancellation is gone from the state that the round hands on. -/
theorem Next.vanished {next : Iteration ℝ} (handed : round.Next tolerance next) (nonneg : 0 ≤ tolerance)
    (inside : round.index < round.state.diag.size) {l : ℕ} (gone : (round.isolated tolerance).e l = 0) :
    next.e l = 0 := by
  obtain ⟨-, kept, -⟩ := isolated_couplings nonneg inside
  cases handed with
  | swept done =>
    obtain ⟨several, swept⟩ := swept_eq_some done
    rcases eq_or_ne (round.split tolerance).start l with rfl | off
    · exact e_sweep_start several swept
    · have outside : l < (round.split tolerance).start ∨ round.index < l := by
        by_contra within
        exact kept l (by omega) (by omega) gone
      rw [(sweep_writes (round.start_le tolerance) swept).e_eq outside, gone]
  | settled single => rw [e_makeNonNegative, gone]

theorem Next.persists {next : Iteration ℝ} (handed : round.Next tolerance next) (nonneg : 0 ≤ tolerance)
    (inside : round.index < round.state.diag.size) : Persists round.index round.state next :=
  ⟨handed.meets.writes.frozen, fun l zero =>
    handed.vanished nonneg inside ((isolated_couplings nonneg inside).1 l zero)⟩

/-- What a round leaves behind for every later state of the run. -/
structure Precedes (tolerance : ℝ) (round : Round ℝ) (later : Iteration ℝ) : Prop
    extends Persists round.index round.state later where
  cleared : ∀ l, round.Clears tolerance l → later.e l = 0
  entered : (round.split tolerance).start ≠ round.index → later.e (round.split tolerance).start = 0

theorem Next.precedes {next : Iteration ℝ} (handed : round.Next tolerance next) (nonneg : 0 ≤ tolerance)
    (inside : round.index < round.state.diag.size) : round.Precedes tolerance next where
  toPersists := handed.persists nonneg inside
  cleared l clears := by
    cases clears with
    | cancelled _ gone => exact handed.vanished nonneg inside gone
    | swept done gone =>
      cases handed with
      | swept done' =>
        rw [done] at done'
        cases done'
        exact gone
      | settled single => exact absurd single (swept_eq_some done).1
  entered several := by
    cases handed with
    | swept done => exact e_sweep_start several (swept_eq_some done).2
    | settled single => exact absurd single several

theorem Precedes.persists {later last : Iteration ℝ} (precedes : round.Precedes tolerance later)
    (rest : Persists round.index later last) : round.Precedes tolerance last where
  toPersists := precedes.toPersists.trans rest
  cleared l clears := rest.vanished l (precedes.cleared l clears)
  entered several := rest.vanished _ (precedes.entered several)

/-- Of two rounds of a run, what the earlier one leaves to the later. -/
structure Before (tolerance : ℝ) (earlier later : Round ℝ) : Prop where
  precedes : earlier.Precedes tolerance later.state
  index_le : later.index ≤ earlier.index
  index_lt : (earlier.split tolerance).start = earlier.index → later.index < earlier.index

theorem Before.trans {first second third : Round ℝ} (before : first.Before tolerance second)
    (next : second.Before tolerance third) : first.Before tolerance third where
  precedes := before.precedes.persists (next.precedes.toPersists.mono before.index_le)
  index_le := next.index_le.trans before.index_le
  index_lt single := next.index_le.trans_lt (before.index_lt single)

instance : Trans (Before tolerance) (Before tolerance) (Before tolerance) := ⟨Before.trans⟩

variable {earlier later : Round ℝ} {l : ℕ}

theorem Follows.before (follows : earlier.Follows tolerance later) (nonneg : 0 ≤ tolerance)
    (inside : earlier.index < earlier.state.diag.size) : earlier.Before tolerance later :=
  ⟨follows.handed.precedes nonneg inside, follows.index_le, follows.index_lt⟩

private theorem not_cancels_of_zero (nonneg : 0 ≤ tolerance) (gone : round.state.e l = 0) :
    ¬round.Cancels tolerance l := by
  intro cancels
  have described := split_describes tolerance round.state round.index
  have found : round.state.split tolerance round.index = ⟨l, true⟩ := cancels
  rw [found] at described
  obtain ⟨-, joined, -⟩ := described.cancels rfl
  rw [gone, abs_zero] at joined
  exact absurd joined (not_lt.mpr nonneg)

theorem Cancels.gone (cancels : round.Cancels tolerance l) (nonneg : 0 ≤ tolerance)
    (inside : round.index < round.state.diag.size) : (round.isolated tolerance).e l = 0 := by
  have called : (round.split tolerance).cancels = true := by rw [cancels]
  have gone := (isolated_couplings nonneg inside).2.2 called
  rwa [cancels] at gone

/-- A coupling that was cancelled is not cancelled again. -/
theorem Before.cancels_once (before : earlier.Before tolerance later) (nonneg : 0 ≤ tolerance)
    (inside : earlier.index < earlier.state.diag.size) (cancels : earlier.Cancels tolerance l) :
    ¬later.Cancels tolerance l :=
  not_cancels_of_zero nonneg
    (before.precedes.cleared l (.cancelled (congrArg Split.cancels cancels) (cancels.gone nonneg inside)))

/-- A coupling that was neglected is zero where it is neglected again. -/
theorem Before.neglects_zero (before : earlier.Before tolerance later) (first : earlier.Neglects tolerance l)
    (second : later.Neglects tolerance l) : later.state.e l = 0 := by
  have start : (earlier.split tolerance).start = l := congrArg Split.start first.2
  have again : (later.split tolerance).start = l := congrArg Split.start second.2
  by_cases single : (earlier.split tolerance).start = earlier.index
  · -- The last value of a block is settled, so later scans begin before its coupling.
    have beyond := before.index_lt single
    have block := later.start_le tolerance
    omega
  · exact start ▸ before.precedes.entered single

end Round

theorem index_lt_size {maxSweeps : ℕ} (member : round ∈ st.rounds tolerance maxSweeps st.diag.size) :
    round.index < round.state.diag.size := by
  obtain ⟨index, size⟩ := rounds_inside member
  exact size.symm ▸ index

private theorem rounds_pairwise (nonneg : 0 ≤ tolerance) (maxSweeps : ℕ) (st : Iteration ℝ) :
    (st.rounds tolerance maxSweeps st.diag.size).Pairwise (Round.Before tolerance) :=
  List.IsChain.pairwise ((rounds_chain tolerance maxSweeps st.diag.size st).imp_of_mem_imp
    fun _ _ member _ follows => follows.before nonneg (index_lt_size member))

private theorem rounds_precede {maxSweeps : ℕ} (nonneg : 0 ≤ tolerance) (done : st.diagonalize tolerance maxSweeps = .ok st')
    (member : round ∈ st.rounds tolerance maxSweeps st.diag.size) : round.Precedes tolerance st' := by
  have pairs := rounds_pairwise nonneg maxSweeps st
  obtain ⟨last, final⟩ := Option.isSome_iff_exists.mp (List.getLast?_isSome.mpr (List.ne_nil_of_mem member))
  have ends := (rounds_last done final).precedes nonneg (index_lt_size (List.mem_of_getLast? final))
  obtain ⟨others, listed⟩ := List.getLast?_eq_some_iff.mp final
  rw [listed] at member pairs
  obtain earlier | here := List.mem_append.mp member
  · have before := (List.pairwise_append.mp pairs).2.2 round earlier last (List.mem_singleton_self last)
    exact before.precedes.persists (ends.toPersists.mono before.index_le)
  · rwa [List.mem_singleton.mp here]

/-- A run cancels each coupling at most once, and the first has no place in the matrix. -/
theorem length_cancellations_le {all : List (Round ℝ)} {n : ℕ} (inside : ∀ round ∈ all, round.index < n)
    (once : all.Pairwise fun earlier later => ∀ l, earlier.Cancels tolerance l → ¬later.Cancels tolerance l) :
    (all.filter fun round => (round.split tolerance).cancels).length ≤ n - 1 := by
  have cancels (round : Round ℝ) (member : round ∈ all.filter fun round => (round.split tolerance).cancels) :
      round ∈ all ∧ round.Cancels tolerance (round.split tolerance).start := by
    obtain ⟨present, called⟩ := List.mem_filter.mp member
    refine ⟨present, ?_⟩
    rw [Round.Cancels, ← called]
  have distinct : ((all.filter fun round => (round.split tolerance).cancels).map fun round =>
      (round.split tolerance).start).Nodup := by
    refine List.pairwise_map.mpr ((once.filter _).imp_of_mem fun first second apart same => ?_)
    exact apart _ (cancels _ first).2 (same ▸ (cancels _ second).2)
  have bounded : ((all.filter fun round => (round.split tolerance).cancels).map fun round =>
      (round.split tolerance).start) ⊆ List.range' 1 (n - 1) := by
    intro l member
    obtain ⟨round, called, rfl⟩ := List.mem_map.mp member
    obtain ⟨present, found⟩ := cancels round called
    have bound := inside round present
    have block := found.bounds
    exact List.mem_range'_1.mpr (by omega)
  simpa using distinct.length_le_of_subset bounded

/-- Deflation is permanent, over all rounds of a run, each of which begins with what the one before hands on.
No state that a round goes through differs from its first one beyond the value that is settled. A cancellation
takes the coupling to its block away, and so does the sweep over a block; a coupling that is gone at either of
these points is gone whenever a later round tests it. So each coupling is cancelled at most once, which makes
fewer cancellations in a run than values, and where it is neglected again it is zero. The state that a run ends
with has all this from every round. -/
theorem diagonalize_deflates (st : Iteration ℝ) (nonneg : 0 ≤ tolerance) (maxSweeps : ℕ) :
    ((st.rounds tolerance maxSweeps st.diag.size).IsChain fun earlier later =>
      earlier.Next tolerance later.state) ∧
    (∀ round ∈ st.rounds tolerance maxSweeps st.diag.size,
      (∀ met, round.Meets tolerance met → Frozen round.index round.state met) ∧
      (∀ l, round.Cancels tolerance l → (round.isolated tolerance).e l = 0) ∧
      ∀ after, round.swept tolerance = some after → after.e (round.split tolerance).start = 0) ∧
    ((st.rounds tolerance maxSweeps st.diag.size).Pairwise fun earlier later =>
      Frozen earlier.index earlier.state later.state ∧
      ∀ l, (earlier.Clears tolerance l → later.state.e l = 0) ∧
        (earlier.Cancels tolerance l → ¬later.Cancels tolerance l) ∧
        (earlier.Neglects tolerance l → later.Neglects tolerance l → later.state.e l = 0)) ∧
    ((st.rounds tolerance maxSweeps st.diag.size).filter fun round => (round.split tolerance).cancels).length ≤
      st.diag.size - 1 ∧
    ∀ st', st.diagonalize tolerance maxSweeps = .ok st' → ∀ round ∈ st.rounds tolerance maxSweeps st.diag.size,
      Frozen round.index round.state st' ∧ ∀ l, round.Clears tolerance l → st'.e l = 0 := by
  have pairs := rounds_pairwise nonneg maxSweeps st
  have cancels_once : (st.rounds tolerance maxSweeps st.diag.size).Pairwise fun earlier later =>
      ∀ l, earlier.Cancels tolerance l → ¬later.Cancels tolerance l :=
    pairs.imp_of_mem fun member _ before l => before.cancels_once nonneg (index_lt_size member)
  refine ⟨(rounds_chain tolerance maxSweeps _ st).imp fun _ _ follows => follows.handed,
    fun round member => ⟨fun met meets => meets.writes.frozen, ?_, ?_⟩, ?_,
    length_cancellations_le (fun round member => (rounds_inside member).1) cancels_once, ?_⟩
  · intro l cancels
    exact cancels.gone nonneg (index_lt_size member)
  · intro after swept
    obtain ⟨several, done⟩ := Round.swept_eq_some swept
    exact e_sweep_start several done
  · refine (pairs.and cancels_once).imp fun {earlier later} ⟨before, once⟩ => ?_
    exact ⟨before.precedes.frozen, fun l => ⟨before.precedes.cleared l, once l, before.neglects_zero⟩⟩
  · intro st' done round member
    have precedes := rounds_precede nonneg done member
    exact ⟨precedes.frozen, precedes.cleared⟩

/-- A vanishing value before a coupling that does not vanish has it cancelled, once. -/
theorem diagonalize_deflates_vanishing :
    (0 : ℝ) ≤ 0 ∧ ∃ settled : Iteration ℝ,
      (between 3 #[0, 1] #[0, 1]).rounds 0 1 2 = [⟨1, between 3 #[0, 1] #[0, 1]⟩, ⟨0, settled⟩] ∧
      Round.Cancels 0 ⟨1, between 3 #[0, 1] #[0, 1]⟩ 1 ∧ settled.e 1 = 0 ∧ ¬Round.Cancels 0 ⟨0, settled⟩ 1 ∧
      Frozen 1 (between 3 #[0, 1] #[0, 1]) settled := by
  have split : (between 3 #[0, 1] #[0, 1]).split (0 : ℝ) 1 = ⟨1, true⟩ := by
    have couples : ¬Scalar.abs ((between 3 #[0, 1] #[0, 1]).e 1) ≤ (0 : ℝ) := by
      rw [Scalar.abs_exact]
      simp [between, Iteration.e]
    have vanishes : Scalar.abs ((between 3 #[0, 1] #[0, 1]).d 0) ≤ (0 : ℝ) := by
      rw [Scalar.abs_exact]
      exact abs_zero.le
    rw [Iteration.split, if_neg couples, if_pos vanishes]
  have alone : ((between 3 #[0, 1] #[0, 1]).split (0 : ℝ) 1).start = 1 := congrArg Split.start split
  have listed : (between 3 #[0, 1] #[0, 1]).rounds (0 : ℝ) 1 2 = [⟨1, between 3 #[0, 1] #[0, 1]⟩,
      ⟨0, ((between 3 #[0, 1] #[0, 1]).isolate 0 1).2.makeNonNegative 1⟩] := by
    rw [rounds_succ, settleRounds_alone alone, settle_alone alone]
    dsimp only
    rw [rounds_succ, settleRounds_alone rfl, settle_alone rfl]
    rfl
  obtain ⟨-, each, pairs, -, -⟩ := diagonalize_deflates (between 3 #[0, 1] #[0, 1]) (le_refl (0 : ℝ)) 1
  have size : (between 3 #[0, 1] #[0, 1] : Iteration ℝ).diag.size = 2 := rfl
  rw [size, listed] at each pairs
  obtain ⟨frozen, after⟩ := List.pairwise_pair.mp pairs
  have gone := (each _ (List.mem_cons_self ..)).2.1 1 split
  exact ⟨le_rfl, _, listed, split, (after 1).1 (.cancelled (congrArg Split.cancels split) gone), (after 1).2.1 split,
    frozen⟩

end BondSvd.Iteration
