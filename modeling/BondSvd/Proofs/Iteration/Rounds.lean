import Mathlib.Data.List.Chain
import BondSvd.Proofs.Iteration.Writes

/-! The run of an iteration as a sequence of rounds, for any numbers. Each round scans its state, splits
off a block, and sweeps over it or settles its last value; it begins with what the one before hands on. -/
namespace BondSvd.Iteration
universe u v
variable {α : Type u} [Scalar α] {tolerance : α} {st : Iteration α}

/-- One turn of the loop that settles a value: the value, and the state that the scan tests. -/
structure Round (α : Type u) where
  index : Nat
  state : Iteration α

namespace Round
variable {round : Round α}

/-- What the scan finds. -/
def split (tolerance : α) (round : Round α) : Split := round.state.split tolerance round.index

/-- The state after the cancellation, if there is one. -/
def isolated (tolerance : α) (round : Round α) : Iteration α := (round.state.isolate tolerance round.index).2

/-- The state after the sweep; none if the value is settled already, or if the sweep breaks down. -/
def swept (tolerance : α) (round : Round α) : Option (Iteration α) :=
  if (round.split tolerance).start = round.index then none
  else (sweep (round.split tolerance).start round.index (round.isolated tolerance)).toOption

/-- The bulge that the sweep starts with. -/
def bulge (tolerance : α) (round : Round α) : Bulge α :=
  ⟨(round.isolated tolerance).shift (round.split tolerance).start round.index,
    (round.isolated tolerance).d (round.split tolerance).start, 1, 1⟩

/-- The round cancels coupling `l`. -/
def Cancels (tolerance : α) (round : Round α) (l : Nat) : Prop := round.split tolerance = ⟨l, true⟩

/-- The round takes coupling `l` for zero. -/
def Neglects (tolerance : α) (round : Round α) (l : Nat) : Prop := 0 < l ∧ round.split tolerance = ⟨l, false⟩

/-- Coupling `l` is zero after the cancellation of the round, or at the end of its sweep. -/
inductive Clears (tolerance : α) (round : Round α) (l : Nat) : Prop
  | cancelled (cancels : (round.split tolerance).cancels = true) (gone : (round.isolated tolerance).e l = 0)
  | swept {after : Iteration α} (done : round.swept tolerance = some after) (gone : after.e l = 0)

/-- The states that the round goes through, from one rotation to the next. -/
inductive Meets (tolerance : α) (round : Round α) : Iteration α → Prop
  | start : Meets tolerance round round.state
  | cancelling (cancels : (round.split tolerance).cancels = true) (steps : Nat)
      (fits : steps ≤ round.index + 1 - (round.split tolerance).start) :
      Meets tolerance round (round.state.cancel tolerance ((round.split tolerance).start - 1) steps
        (round.split tolerance).start 0 1)
  | chasing {steps : Nat} {b : Bulge α} {met : Iteration α}
      (fits : steps ≤ round.index - (round.split tolerance).start)
      (chased : chase steps ((round.split tolerance).start + 1) (round.bulge tolerance) (round.isolated tolerance) =
        .ok (b, met)) : Meets tolerance round met
  /-- Between the two rotations of a step, also of one that breaks down at the second. -/
  | turning {steps : Nat} {b : Bulge α} {met : Iteration α} (p : Nat)
      (place : p = (round.split tolerance).start + steps) (fits : p < round.index)
      (chased : chase steps ((round.split tolerance).start + 1) (round.bulge tolerance) (round.isolated tolerance) =
        .ok (b, met)) (w : α) (length : w = Scalar.hypot (b.sin * met.e (p + 1)) b.f) :
      Meets tolerance round ((met.setE p w).rotateRight p (p + 1) (b.f / w) (b.sin * met.e (p + 1) / w))
  | swept {after : Iteration α} (done : round.swept tolerance = some after) : Meets tolerance round after
  | settled (single : (round.split tolerance).start = round.index) :
      Meets tolerance round ((round.isolated tolerance).makeNonNegative round.index)

/-- The state that a round hands on: swept, or with its value settled. -/
inductive Next (tolerance : α) (round : Round α) : Iteration α → Prop
  | swept {after : Iteration α} (done : round.swept tolerance = some after) : Next tolerance round after
  | settled (single : (round.split tolerance).start = round.index) :
      Next tolerance round ((round.isolated tolerance).makeNonNegative round.index)

theorem start_le (tolerance : α) (round : Round α) : (round.split tolerance).start ≤ round.index :=
  split_start_le tolerance round.state round.index

theorem swept_eq_some {after : Iteration α} (done : round.swept tolerance = some after) :
    (round.split tolerance).start ≠ round.index ∧
      sweep (round.split tolerance).start round.index (round.isolated tolerance) = .ok after := by
  unfold swept at done
  split at done
  · cases done
  · next several =>
    refine ⟨several, ?_⟩
    cases result : sweep (round.split tolerance).start round.index (round.isolated tolerance) with
    | error breakdown =>
      rw [result] at done
      cases done
    | ok st =>
      rw [result] at done
      cases done
      rfl

theorem Cancels.bounds {l : Nat} (cancels : round.Cancels tolerance l) : 0 < l ∧ l ≤ round.index := by
  have start : (round.split tolerance).start = l := by rw [cancels]
  have called : (round.split tolerance).cancels = true := by rw [cancels]
  rw [← start]
  exact ⟨split_start_pos called, round.start_le tolerance⟩

/-- All that a round writes is inside its block. -/
theorem Meets.writes {met : Iteration α} (meets : round.Meets tolerance met) :
    Writes (round.split tolerance).start round.index round.state met := by
  have block := round.start_le tolerance
  have isolated : Writes (round.split tolerance).start round.index round.state (round.isolated tolerance) :=
    isolate_writes tolerance round.index round.state
  cases meets with
  | start => exact .refl
  | cancelling cancels steps fits => exact cancel_writes (Nat.le_refl _) (by omega) (by omega) 0 1 round.state
  | chasing fits chased => exact isolated.trans (chase_writes (Nat.le_refl _) (by omega) chased)
  | turning p place fits chased w length =>
    have chasing := isolated.trans (chase_writes (Nat.le_refl _) (by omega) chased)
    exact (chasing.setE (by omega) (Nat.le_of_lt fits) w).rotateRight (Nat.le_of_lt fits) fits _ _
  | swept done => exact isolated.trans (sweep_writes block (swept_eq_some done).2)
  | settled single => exact isolated.trans ((makeNonNegative_writes round.index _).widen block)

/-- A round takes up what the one before it hands on; once a value is settled it works on another one. -/
structure Follows (tolerance : α) (earlier later : Round α) : Prop where
  handed : earlier.Next tolerance later.state
  index_le : later.index ≤ earlier.index
  index_lt : (earlier.split tolerance).start = earlier.index → later.index < earlier.index

theorem Next.meets {next : Iteration α} (handed : round.Next tolerance next) : round.Meets tolerance next := by
  cases handed with
  | swept done => exact .swept done
  | settled single => exact .settled single

end Round

/-- The rounds in which value `k` is settled, as far as they get. -/
def settleRounds (tolerance : α) (k : Nat) : (sweeps : Nat) → Iteration α → List (Round α)
  | 0, st => [⟨k, st⟩]
  | sweeps + 1, st =>
    ⟨k, st⟩ ::
      match Round.swept tolerance ⟨k, st⟩ with
      | none => []
      | some st => settleRounds tolerance k sweeps st

/-- What `each` lists for the values below `count`, in the order in which they are settled, as far as the run
gets. -/
def overValues {β : Type v} (tolerance : α) (maxSweeps : Nat) (each : Nat → Iteration α → List β) :
    (count : Nat) → Iteration α → List β
  | 0, _ => []
  | k + 1, st =>
    each k st ++
      match settle tolerance k maxSweeps st with
      | .error _ => []
      | .ok st => overValues tolerance maxSweeps each k st

/-- The rounds in which the values below `count` are settled, in their order, as far as the run gets. -/
def rounds (tolerance : α) (maxSweeps count : Nat) (st : Iteration α) : List (Round α) :=
  overValues tolerance maxSweeps (fun k => settleRounds tolerance k maxSweeps) count st

theorem rounds_succ (tolerance : α) (maxSweeps k : Nat) (st : Iteration α) :
    rounds tolerance maxSweeps (k + 1) st =
      settleRounds tolerance k maxSweeps st ++
        match settle tolerance k maxSweeps st with
        | .error _ => []
        | .ok st => rounds tolerance maxSweeps k st := rfl

/-- Settling ends with a round that settles, or goes on from the sweep of its first round. -/
theorem settle_cases {k sweeps : Nat} {st' : Iteration α} (done : settle tolerance k sweeps st = .ok st') :
    (Round.split tolerance ⟨k, st⟩).start = k ∧ st' = (Round.isolated tolerance ⟨k, st⟩).makeNonNegative k ∨
      ∃ fewer after, sweeps = fewer + 1 ∧ Round.swept tolerance ⟨k, st⟩ = some after ∧
        settle tolerance k fewer after = .ok st' := by
  have start : (st.isolate tolerance k).1 = (Round.split tolerance ⟨k, st⟩).start := isolate_start tolerance k st
  cases sweeps with
  | zero =>
    unfold settle at done
    dsimp only at done
    rw [start] at done
    split at done
    · next single =>
      cases done
      exact .inl ⟨single, rfl⟩
    · cases done
  | succ fewer =>
    unfold settle at done
    dsimp only at done
    rw [start] at done
    split at done
    · next single =>
      cases done
      exact .inl ⟨single, rfl⟩
    · next several =>
      split at done
      · cases done
      · next after swept =>
        refine .inr ⟨fewer, after, rfl, ?_, done⟩
        unfold Round.swept
        rw [if_neg several]
        exact congrArg Except.toOption swept

theorem settleRounds_alone {k : Nat} (alone : (st.split tolerance k).start = k) (sweeps : Nat) :
    settleRounds tolerance k sweeps st = [⟨k, st⟩] := by
  cases sweeps with
  | zero => rfl
  | succ sweeps =>
    have unswept : Round.swept tolerance ⟨k, st⟩ = none := if_pos alone
    rw [settleRounds, unswept]

theorem settleRounds_head (tolerance : α) (k sweeps : Nat) (st : Iteration α) :
    (settleRounds tolerance k sweeps st).head? = some ⟨k, st⟩ := by
  cases sweeps <;> rfl

theorem settleRounds_index {k sweeps : Nat} {round : Round α} (member : round ∈ settleRounds tolerance k sweeps st) :
    round.index = k := by
  induction sweeps generalizing st with
  | zero => rw [List.mem_singleton.mp member]
  | succ sweeps ih =>
    obtain rfl | later := List.mem_cons.mp member
    · rfl
    · cases swept : Round.swept tolerance ⟨k, st⟩ with
      | none =>
        rw [swept] at later
        cases later
      | some after =>
        rw [swept] at later
        exact ih later

private theorem settleRounds_chain (tolerance : α) (k sweeps : Nat) (st : Iteration α) :
    (settleRounds tolerance k sweeps st).IsChain (Round.Follows tolerance) := by
  induction sweeps generalizing st with
  | zero => exact List.isChain_singleton _
  | succ sweeps ih =>
    rw [settleRounds]
    cases swept : Round.swept tolerance ⟨k, st⟩ with
    | none => exact List.isChain_singleton _
    | some after =>
      refine List.isChain_cons.mpr ⟨fun later first => ?_, ih after⟩
      rw [settleRounds_head] at first
      cases first
      exact ⟨.swept swept, Nat.le_refl k, fun single => absurd single (Round.swept_eq_some swept).1⟩

/-- The last of the rounds that settle a value hands on the state in which it is settled. -/
theorem settleRounds_last {k sweeps : Nat} {st' : Iteration α} {last : Round α}
    (done : settle tolerance k sweeps st = .ok st') (final : last ∈ (settleRounds tolerance k sweeps st).getLast?) :
    last.Next tolerance st' := by
  induction sweeps generalizing st with
  | zero =>
    cases final
    obtain ⟨single, rfl⟩ | ⟨fewer, after, impossible, -, -⟩ := settle_cases done
    · exact .settled single
    · cases impossible
  | succ sweeps ih =>
    obtain ⟨single, rfl⟩ | ⟨fewer, after, same, swept, rest⟩ := settle_cases done
    · rw [settleRounds_alone single] at final
      cases final
      exact .settled single
    · cases same
      have follow : settleRounds tolerance k (sweeps + 1) st = ⟨k, st⟩ :: settleRounds tolerance k sweeps after := by
        rw [settleRounds, swept]
      obtain ⟨others, listed⟩ := List.head?_eq_some_iff.mp (settleRounds_head tolerance k sweeps after)
      rw [follow, listed, List.getLast?_cons_cons, ← listed] at final
      exact ih rest final

theorem rounds_head (tolerance : α) (maxSweeps k : Nat) (st : Iteration α) :
    (rounds tolerance maxSweeps (k + 1) st).head? = some ⟨k, st⟩ := by
  rw [rounds_succ, List.head?_append, settleRounds_head, Option.some_or]

theorem rounds_chain (tolerance : α) (maxSweeps count : Nat) (st : Iteration α) :
    (rounds tolerance maxSweeps count st).IsChain (Round.Follows tolerance) := by
  induction count generalizing st with
  | zero => exact List.isChain_nil
  | succ k ih =>
    rw [rounds_succ]
    refine List.isChain_append.mpr ⟨settleRounds_chain tolerance k maxSweeps st, ?_, ?_⟩
    · split
      · exact List.isChain_nil
      · next after settled => exact ih after
    · intro earlier final later first
      split at first
      · cases first
      · next after settled =>
        cases k with
        | zero => cases first
        | succ k =>
          rw [rounds_head] at first
          cases first
          have index := settleRounds_index (List.mem_of_getLast? final)
          exact ⟨settleRounds_last settled final, index ▸ Nat.le_succ k, fun _ => index ▸ Nat.lt_succ_self k⟩

theorem rounds_last {maxSweeps count : Nat} {st' : Iteration α} {last : Round α}
    (done : settleAll tolerance maxSweeps count st = .ok st')
    (final : last ∈ (rounds tolerance maxSweeps count st).getLast?) : last.Next tolerance st' := by
  induction count generalizing st with
  | zero => cases final
  | succ k ih =>
    unfold settleAll at done
    rw [rounds_succ] at final
    split at done
    · cases done
    · next after settled =>
      rw [settled, List.getLast?_append] at final
      dsimp only at final
      cases k with
      | zero =>
        cases done
        exact settleRounds_last settled final
      | succ k =>
        refine ih done ?_
        obtain ⟨others, listed⟩ := List.head?_eq_some_iff.mp (rounds_head tolerance maxSweeps k after)
        rw [listed, List.getLast?_cons] at final ⊢
        exact final

theorem rounds_inside {maxSweeps count : Nat} {round : Round α}
    (member : round ∈ rounds tolerance maxSweeps count st) :
    round.index < count ∧ round.state.diag.size = st.diag.size := by
  refine List.IsChain.induction (fun round => round.index < count ∧ round.state.diag.size = st.diag.size) _
    (rounds_chain tolerance maxSweeps count st) ?_ ?_ round member
  · intro earlier later follows ⟨index, size⟩
    exact ⟨Nat.lt_of_le_of_lt follows.index_le index, follows.handed.meets.writes.size_eq.trans size⟩
  · intro present
    cases count with
    | zero => exact absurd rfl present
    | succ k =>
      have head := List.head?_eq_some_head present
      rw [rounds_head] at head
      rw [← Option.some.inj head]
      exact ⟨Nat.lt_succ_self k, rfl⟩

theorem size_settle {k sweeps : Nat} {st' : Iteration α} (done : settle tolerance k sweeps st = .ok st') :
    st'.diag.size = st.diag.size := by
  obtain ⟨others, listed⟩ := List.head?_eq_some_iff.mp (settleRounds_head tolerance k sweeps st)
  have final := List.getLast?_eq_some_getLast (listed ▸ List.cons_ne_nil _ _ : settleRounds tolerance k sweeps st ≠ [])
  have member : (settleRounds tolerance k sweeps st).getLast _ ∈ rounds tolerance sweeps (k + 1) st :=
    List.mem_append_left _ (List.mem_of_getLast? final)
  exact (settleRounds_last done final).meets.writes.size_eq.trans (rounds_inside member).2

end BondSvd.Iteration
