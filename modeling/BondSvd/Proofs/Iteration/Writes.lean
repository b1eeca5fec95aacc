import BondSvd.Bidiagonal.Iteration

namespace BondSvd
universe u
variable {α : Type u}

theorem getD_setIfInBounds_of_ne {β : Type u} (values : Array β) {k j : Nat} (off : k ≠ j) (x fallback : β) :
    (values.setIfInBounds k x).getD j fallback = values.getD j fallback := by
  rw [Array.getD_eq_getD_getElem?, Array.getD_eq_getD_getElem?, Array.getElem?_setIfInBounds_ne off]

/-- Writing the value that reads outside the bounds give makes the place read as that value. -/
theorem getD_setIfInBounds_fallback {β : Type u} (values : Array β) (k : Nat) (fallback : β) :
    (values.setIfInBounds k fallback).getD k fallback = fallback := by
  rw [Array.getD_eq_getD_getElem?, Array.getElem?_setIfInBounds, if_pos rfl]
  split <;> rfl

namespace DenseMatrix
variable [Scalar α]

theorem entry_set_of_not (A : DenseMatrix α) {i j r c : Nat} (off : ¬(r = i ∧ c = j)) (value : Cplx α) :
    (A.set i j value).entry r c = A.entry r c := by
  by_cases inside : i < A.rows ∧ j < A.cols
  · rw [entry_set A inside.1 inside.2, if_neg off]
  · rw [set, dif_neg inside]

private theorem entry_set_of_ne (A : DenseMatrix α) (i : Nat) {j c : Nat} (off : c ≠ j) (value : Cplx α) (r : Nat) :
    (A.set i j value).entry r c = A.entry r c := entry_set_of_not A (fun same => off same.2) value

theorem entry_combineColumns_of_ne {p q c : Nat} (f g : Cplx α → Cplx α → Cplx α) (first : c ≠ p) (second : c ≠ q)
    (lead : Nat) (A : DenseMatrix α) (r : Nat) : (A.combineColumns p q f g lead).entry r c = A.entry r c := by
  induction lead generalizing A with
  | zero => rfl
  | succ i ih => rw [combineColumns, ih, entry_set_of_ne _ _ second, entry_set_of_ne _ _ first]

end DenseMatrix

namespace Iteration
variable [Scalar α] {st st' st'' : Iteration α} {tolerance : α} {low high p k : Nat}

/-- Elementary writes: to values and couplings from `low` to `high`, and to columns of the factors up to
`high`. -/
inductive Writes (low high : Nat) (st : Iteration α) : Iteration α → Prop
  | refl : Writes low high st st
  | setD {last : Iteration α} {p : Nat} (earlier : Writes low high st last) (after : low ≤ p) (before : p ≤ high)
      (x : α) : Writes low high st (last.setD p x)
  | setE {last : Iteration α} {p : Nat} (earlier : Writes low high st last) (after : low ≤ p) (before : p ≤ high)
      (x : α) : Writes low high st (last.setE p x)
  | rotateLeft {last : Iteration α} {p q : Nat} (earlier : Writes low high st last) (first : p ≤ high)
      (second : q ≤ high) (cos sin : α) : Writes low high st (last.rotateLeft p q cos sin)
  | rotateRight {last : Iteration α} {p q : Nat} (earlier : Writes low high st last) (first : p ≤ high)
      (second : q ≤ high) (cos sin : α) : Writes low high st (last.rotateRight p q cos sin)
  | negate {last : Iteration α} {p : Nat} (earlier : Writes low high st last) (before : p ≤ high) (lead : Nat) :
      Writes low high st { last with right := last.right.negateColumn lead p }
  | count {last : Iteration α} (earlier : Writes low high st last) (degenerate : Nat) :
      Writes low high st { last with degenerate := degenerate }

theorem Writes.trans (first : Writes low high st st') (second : Writes low high st' st'') :
    Writes low high st st'' := by
  induction second with
  | refl => exact first
  | setD _ after before x ih => exact ih.setD after before x
  | setE _ after before x ih => exact ih.setE after before x
  | rotateLeft _ p q cos sin ih => exact ih.rotateLeft p q cos sin
  | rotateRight _ p q cos sin ih => exact ih.rotateRight p q cos sin
  | negate _ before lead ih => exact ih.negate before lead
  | count _ degenerate ih => exact ih.count degenerate

/-- A part of a block is inside the block. -/
theorem Writes.widen {wider : Nat} (writes : Writes low high st st') (below : wider ≤ low) :
    Writes wider high st st' := by
  induction writes with
  | refl => exact .refl
  | setD _ after before x ih => exact ih.setD (Nat.le_trans below after) before x
  | setE _ after before x ih => exact ih.setE (Nat.le_trans below after) before x
  | rotateLeft _ p q cos sin ih => exact ih.rotateLeft p q cos sin
  | rotateRight _ p q cos sin ih => exact ih.rotateRight p q cos sin
  | negate _ before lead ih => exact ih.negate before lead
  | count _ degenerate ih => exact ih.count degenerate

theorem Writes.size_eq (writes : Writes low high st st') : st'.diag.size = st.diag.size := by
  induction writes with
  | refl => rfl
  | setD _ _ _ _ ih => exact Array.size_setIfInBounds.trans ih
  | setE _ _ _ _ ih | rotateLeft _ _ _ _ _ ih | rotateRight _ _ _ _ _ ih | negate _ _ _ ih | count _ _ ih => exact ih

theorem Writes.superSize_eq (writes : Writes low high st st') : st'.superDiag.size = st.superDiag.size := by
  induction writes with
  | refl => rfl
  | setE _ _ _ _ ih => exact Array.size_setIfInBounds.trans ih
  | setD _ _ _ _ ih | rotateLeft _ _ _ _ _ ih | rotateRight _ _ _ _ _ ih | negate _ _ _ ih | count _ _ ih => exact ih

theorem Writes.shape_eq (writes : Writes low high st st') :
    st'.left.shape = st.left.shape ∧ st'.right.shape = st.right.shape := by
  induction writes with
  | refl => exact ⟨rfl, rfl⟩
  | rotateLeft _ _ _ _ _ ih => exact ⟨(DenseMatrix.shape_combineColumns ..).trans ih.1, ih.2⟩
  | rotateRight _ _ _ _ _ ih | negate _ _ _ ih => exact ⟨ih.1, (DenseMatrix.shape_combineColumns ..).trans ih.2⟩
  | setD _ _ _ _ ih | setE _ _ _ _ ih | count _ _ ih => exact ih

theorem Writes.e_eq {j : Nat} (writes : Writes low high st st') (outside : j < low ∨ high < j) : st'.e j = st.e j := by
  induction writes with
  | refl => rfl
  | setE _ after before x ih => exact (getD_setIfInBounds_of_ne _ (by omega) x 0).trans ih
  | setD _ _ _ _ ih | rotateLeft _ _ _ _ _ ih | rotateRight _ _ _ _ _ ih | negate _ _ _ ih | count _ _ ih => exact ih

/-- The values, the couplings and the columns of both factors beyond index `k` are the same. -/
structure Frozen (k : Nat) (st st' : Iteration α) : Prop where
  value : ∀ j, k < j → st'.d j = st.d j
  coupling : ∀ j, k < j → st'.e j = st.e j
  left : ∀ i j, k < j → st'.left.entry i j = st.left.entry i j
  right : ∀ i j, k < j → st'.right.entry i j = st.right.entry i j

theorem Frozen.refl (k : Nat) (st : Iteration α) : Frozen k st st :=
  ⟨fun _ _ => rfl, fun _ _ => rfl, fun _ _ _ => rfl, fun _ _ _ => rfl⟩

theorem Frozen.trans (first : Frozen k st st') (second : Frozen k st' st'') : Frozen k st st'' where
  value j beyond := (second.value j beyond).trans (first.value j beyond)
  coupling j beyond := (second.coupling j beyond).trans (first.coupling j beyond)
  left i j beyond := (second.left i j beyond).trans (first.left i j beyond)
  right i j beyond := (second.right i j beyond).trans (first.right i j beyond)

theorem Frozen.mono {limit : Nat} (frozen : Frozen k st st') (below : k ≤ limit) : Frozen limit st st' where
  value j beyond := frozen.value j (Nat.lt_of_le_of_lt below beyond)
  coupling j beyond := frozen.coupling j (Nat.lt_of_le_of_lt below beyond)
  left i j beyond := frozen.left i j (Nat.lt_of_le_of_lt below beyond)
  right i j beyond := frozen.right i j (Nat.lt_of_le_of_lt below beyond)

/-- Writes inside a block do not show beyond it. -/
theorem Writes.frozen (writes : Writes low high st st') : Frozen high st st' := by
  induction writes with
  | refl => exact .refl high st
  | setD _ _ before x ih =>
    exact { ih with
      value := fun j beyond => (getD_setIfInBounds_of_ne _ (by omega) x 0).trans (ih.value j beyond) }
  | setE _ _ before x ih =>
    exact { ih with
      coupling := fun j beyond => (getD_setIfInBounds_of_ne _ (by omega) x 0).trans (ih.coupling j beyond) }
  | rotateLeft _ first second cos sin ih =>
    refine { ih with left := fun i j beyond => ?_ }
    rw [← ih.left i j beyond]
    exact DenseMatrix.entry_combineColumns_of_ne _ _ (by omega) (by omega) _ _ i
  | rotateRight _ first second cos sin ih =>
    refine { ih with right := fun i j beyond => ?_ }
    rw [← ih.right i j beyond]
    exact DenseMatrix.entry_combineColumns_of_ne _ _ (by omega) (by omega) _ _ i
  | negate _ before lead ih =>
    refine { ih with right := fun i j beyond => ?_ }
    rw [← ih.right i j beyond]
    exact DenseMatrix.entry_combineColumns_of_ne _ _ (by omega) (by omega) _ _ i
  | count _ degenerate ih => exact { ih with }

theorem cancel_writes {pivot steps i : Nat} (after : low ≤ i) (above : pivot ≤ high) (fits : i + steps ≤ high + 1)
    (cos sin : α) (st : Iteration α) : Writes low high st (st.cancel tolerance pivot steps i cos sin) := by
  induction steps generalizing st i cos sin with
  | zero => exact .refl
  | succ steps ih =>
    have inside : i ≤ high := by omega
    have scaled : Writes low high st (st.setE i (st.e i * cos)) := Writes.refl.setE after inside _
    unfold cancel
    dsimp only
    split
    · exact scaled
    · exact ((scaled.setD after inside _).rotateLeft above inside _ _).trans
        (ih (Nat.le_succ_of_le after) (by omega) _ _ _)

/-- Step `p + 1` of a sweep writes to value and coupling `p`, and to two columns on either side. -/
theorem chaseStep_writes {b b' : Bulge α} (after : low ≤ p) (inside : p < high)
    (done : chaseStep (p + 1) b st = .ok (b', st')) : Writes low high st st' := by
  have before : p ≤ high := Nat.le_of_lt inside
  unfold chaseStep at done
  dsimp only at done
  split at done
  · cases done
  · split at done
    · cases done
    · cases done
      exact ((((Writes.refl.setE after before _).rotateRight before inside _ _).setD after before _).rotateLeft
        before inside _ _).count _

theorem chase_writes {steps : Nat} {b b' : Bulge α} (after : low ≤ p) (fits : p + steps ≤ high)
    (done : chase steps (p + 1) b st = .ok (b', st')) : Writes low high st st' := by
  induction steps generalizing st b p with
  | zero =>
    cases done
    exact .refl
  | succ steps ih =>
    unfold chase at done
    split at done
    · cases done
    · next b₁ st₁ stepped =>
      exact (chaseStep_writes after (by omega) stepped).trans (ih (Nat.le_succ_of_le after) (by omega) done)

theorem sweep_writes {l : Nat} (block : l ≤ k) (done : sweep l k st = .ok st') : Writes l k st st' := by
  unfold sweep at done
  split at done
  · cases done
  · next b st₁ chased =>
    cases done
    have moved : Writes l k st st₁ := chase_writes (Nat.le_refl l) (by omega) chased
    exact ((moved.setE (Nat.le_refl l) block 0).setE block (Nat.le_refl k) b.f).setD block (Nat.le_refl k) b.x

theorem e_sweep_start {l : Nat} (several : l ≠ k) (done : sweep l k st = .ok st') : st'.e l = 0 := by
  unfold sweep at done
  split at done
  · cases done
  · next b st₁ _ =>
    cases done
    calc (((st₁.setE l 0).setE k b.f).setD k b.x).e l
        = (st₁.setE l 0).e l := getD_setIfInBounds_of_ne _ several.symm b.f 0
      _ = 0 := getD_setIfInBounds_fallback st₁.superDiag l 0

theorem makeNonNegative_writes (k : Nat) (st : Iteration α) : Writes k k st (st.makeNonNegative k) := by
  unfold makeNonNegative
  split
  · exact (Writes.refl.setD (Nat.le_refl k) (Nat.le_refl k) (-st.d k)).negate (Nat.le_refl k) st.diag.size
  · exact .refl

theorem e_makeNonNegative (k : Nat) (st : Iteration α) (j : Nat) : (st.makeNonNegative k).e j = st.e j := by
  unfold makeNonNegative
  split <;> rfl

theorem isolate_start (tolerance : α) (k : Nat) (st : Iteration α) :
    (st.isolate tolerance k).1 = (st.split tolerance k).start := by
  unfold isolate
  dsimp only
  split <;> rfl

theorem isolate_of_cancels (cancels : (st.split tolerance k).cancels = true) :
    (st.isolate tolerance k).2 = st.cancel tolerance ((st.split tolerance k).start - 1)
      (k + 1 - (st.split tolerance k).start) (st.split tolerance k).start 0 1 := by
  unfold isolate
  dsimp only
  rw [if_pos cancels]

theorem isolate_of_not_cancels (stays : (st.split tolerance k).cancels = false) :
    (st.isolate tolerance k).2 = st := by
  unfold isolate
  dsimp only
  rw [if_neg (Bool.not_eq_true _ ▸ stays)]

theorem isolate_writes (tolerance : α) (k : Nat) (st : Iteration α) :
    Writes (st.split tolerance k).start k st (st.isolate tolerance k).2 := by
  have start := split_start_le tolerance st k
  cases cancels : (st.split tolerance k).cancels with
  | true =>
    rw [isolate_of_cancels cancels]
    exact cancel_writes (Nat.le_refl _) (by omega) (by omega) _ _ st
  | false =>
    rw [isolate_of_not_cancels cancels]
    exact .refl

end Iteration
end BondSvd
