import Mathlib
import BondSvd.Proofs.Descending.Laws
import BondSvd.Proofs.Ordering

namespace BondSvd.SingularTriples
universe u
variable {α : Type u} [Scalar α] {values : Array α} {t : SingularTriples α} {k last : ℕ} {best : ℕ × α}

/-- No value is below zero, or no number. -/
def Nonneg (values : Array α) : Prop := ∀ i, i < values.size → 0 ≤ values.getD i 0

/-- The values before place `k` descend, to no less than any later one. -/
def SettledBelow (k : ℕ) (values : Array α) : Prop :=
  ∀ i j, i < k → i < j → j < values.size → values.getD j 0 ≤ values.getD i 0

/-- The largest of the values from index `k` on and before `last`, with its index. -/
structure Leads (values : Array α) (k last : ℕ) (best : ℕ × α) : Prop where
  notBefore : k ≤ best.1
  inside : best.1 < last
  value : best.2 = values.getD best.1 0
  largest : ∀ i, k ≤ i → i < last → values.getD i 0 ≤ best.2

theorem size_place (t : SingularTriples α) (k : ℕ) : (t.place k).values.size = t.values.size := by
  rw [place_eq]
  split
  · rfl
  · simp [exchange]

variable [Ordered α]

/-- The first value that is looked at replaces the start of the scan. -/
theorem champion_first (nonneg : Nonneg values) (inside : k < values.size) :
    Leads values k (k + 1) (champion values (k, -1) k) := by
  have value := nonneg k inside
  rw [champion, if_pos (Ordered.neg_one_lt value)]
  refine ⟨le_rfl, Nat.lt_succ_self k, rfl, fun i low high => ?_⟩
  rw [le_antisymm (Nat.le_of_lt_succ high) low]
  exact Ordered.le_self_right value

private theorem champion_next (nonneg : Nonneg values) (inside : last < values.size) (leads : Leads values k last best) :
    Leads values k (last + 1) (champion values best last) := by
  have value := Ordered.le_self_right (nonneg last inside)
  have led : best.2 ≤ best.2 := by
    rw [leads.value]
    exact Ordered.le_self_right (nonneg best.1 (leads.inside.trans inside))
  by_cases less : best.2 < values.getD last 0
  · rw [champion, if_pos less]
    refine ⟨leads.notBefore.trans leads.inside.le, Nat.lt_succ_self last, rfl, fun i low high => ?_⟩
    rcases Nat.lt_or_eq_of_le (Nat.le_of_lt_succ high) with before | rfl
    · exact Ordered.le_trans (leads.largest i low before) (Ordered.le_of_lt less)
    · exact value
  · rw [champion, if_neg less]
    refine ⟨leads.notBefore, leads.inside.trans (Nat.lt_succ_self last), leads.value, fun i low high => ?_⟩
    rcases Nat.lt_or_eq_of_le (Nat.le_of_lt_succ high) with before | rfl
    · exact leads.largest i low before
    · exact Ordered.le_of_not_lt led value less

/-- The scan from index `k` finds the largest value there is from it on. -/
theorem largestFrom_leads (nonneg : Nonneg values) (inside : k < values.size) :
    Leads values k values.size (largestFrom values k) := by
  have scan (more : ℕ) (fits : k + (more + 1) ≤ values.size) :
      Leads values k (k + (more + 1)) ((List.range' k (more + 1)).foldl (champion values) (k, -1)) := by
    induction more with
    | zero => exact champion_first nonneg inside
    | succ more ih =>
      have bound : k + (more + 1) < values.size := fits
      rw [List.range'_1_concat, List.foldl_append]
      exact champion_next nonneg bound (ih bound.le)
  obtain ⟨more, rest⟩ := Nat.exists_eq_succ_of_ne_zero (Nat.sub_ne_zero_of_lt inside)
  have whole : k + (more + 1) = values.size := by omega
  rw [largestFrom, rest, ← whole]
  exact scan more whole.le

/-- Placing exchanges two values. -/
theorem value_place (nonneg : Nonneg t.values) (inside : k < t.values.size) (i : ℕ) :
    (t.place k).values.getD i 0 = t.values.getD (Equiv.swap (largestFrom t.values k).1 k i) 0 := by
  have leads := largestFrom_leads nonneg inside
  rw [place_eq]
  split
  · next here => rw [here, Equiv.swap_self, Equiv.refl_apply]
  · rw [leads.value]
    exact value_exchange t leads.inside inside i

/-- Placing makes place `k` one of those whose values no later one exceeds. -/
theorem settledBelow_place (nonneg : Nonneg t.values) (settled : SettledBelow k t.values) (inside : k < t.values.size) :
    SettledBelow (k + 1) (t.place k).values := by
  have leads := largestFrom_leads nonneg inside
  set found := (largestFrom t.values k).1
  -- A later place gets its value from a place that is still later than every settled one.
  have later {j : ℕ} (after : k ≤ j) (bound : j < t.values.size) :
      k ≤ Equiv.swap found k j ∧ Equiv.swap found k j < t.values.size := by
    rw [Equiv.swap_apply_def]
    split_ifs
    · exact ⟨le_rfl, inside⟩
    · exact ⟨leads.notBefore, leads.inside⟩
    · exact ⟨after, bound⟩
  intro i j before after bound
  rw [size_place] at bound
  rw [value_place nonneg inside, value_place nonneg inside]
  rcases Nat.lt_or_eq_of_le (Nat.le_of_lt_succ before) with earlier | rfl
  · have stays : Equiv.swap found k i = i :=
      Equiv.swap_apply_of_ne_of_ne (earlier.trans_le leads.notBefore).ne earlier.ne
    rw [stays]
    by_cases settledToo : j < k
    · rw [Equiv.swap_apply_of_ne_of_ne (settledToo.trans_le leads.notBefore).ne settledToo.ne]
      exact settled i j earlier after bound
    · obtain ⟨after', bound'⟩ := later (not_lt.mp settledToo) bound
      exact settled i _ earlier (earlier.trans_le after') bound'
  · obtain ⟨after', bound'⟩ := later after.le bound
    rw [Equiv.swap_apply_right, ← leads.value]
    exact leads.largest _ after' bound'

theorem nonneg_place (nonneg : Nonneg t.values) (inside : k < t.values.size) : Nonneg (t.place k).values := by
  intro i bound
  rw [size_place] at bound
  rw [value_place nonneg inside]
  refine nonneg _ ?_
  rw [Equiv.swap_apply_def]
  split_ifs
  · exact inside
  · exact (largestFrom_leads nonneg inside).inside
  · exact bound

/-- Sorted values descend, to no less than zero. -/
theorem sorted_settled_values (nonneg : Nonneg t.values) :
    t.sorted.values.size = t.values.size ∧ Nonneg t.sorted.values ∧ SettledBelow t.values.size t.sorted.values := by
  have each (count : ℕ) (fits : count ≤ t.values.size) :
      ((List.range count).foldl place t).values.size = t.values.size ∧
        Nonneg ((List.range count).foldl place t).values ∧
        SettledBelow count ((List.range count).foldl place t).values := by
    induction count with
    | zero => exact ⟨rfl, nonneg, fun i j before => absurd before (Nat.not_lt_zero i)⟩
    | succ k ih =>
      obtain ⟨size, nonneg', settled⟩ := ih (Nat.le_of_succ_le fits)
      rw [List.range_succ, List.foldl_append, List.foldl_cons, List.foldl_nil]
      have inside := Nat.lt_of_lt_of_eq fits size.symm
      exact ⟨(size_place _ k).trans size, nonneg_place nonneg' inside, settledBelow_place nonneg' settled inside⟩
  exact each t.values.size le_rfl

theorem isDescending_sorted (nonneg : Nonneg t.values) : isDescending t.sorted.values.toList = true := by
  obtain ⟨size, nonneg', settled⟩ := sorted_settled_values nonneg
  have read {i : ℕ} (inside : i < t.sorted.values.size) : t.sorted.values.getD i 0 = t.sorted.values[i] := by
    simp [inside]
  rw [isDescending_iff_pairwise]
  constructor
  · intro x member
    obtain ⟨i, inside, rfl⟩ := Array.mem_iff_getElem.mp (Array.mem_toList_iff.mp member)
    rw [← read inside]
    exact nonneg' i inside
  · rw [List.pairwise_iff_getElem]
    intro i j before inside after
    rw [Array.length_toList] at before inside
    rw [Array.getElem_toList, Array.getElem_toList, ← read before, ← read inside]
    exact settled i j (size ▸ before) after inside

section Sum
omit [Ordered α]
variable {t' : SingularTriples α} {p : Equiv.Perm ℕ}

/-- The complex number whose parts stand for the numbers that `read` gives. -/
def complexOf (read : α → ℝ) (z : Cplx α) : ℂ := ⟨read z.re, read z.im⟩

/-- An entry of the sum over all triples of the value times its left vector times the adjoint of its right one. -/
noncomputable def outerSum (read : α → ℝ) (t : SingularTriples α) (i j : ℕ) : ℂ :=
  ∑ k ∈ Finset.range t.values.size,
    read (t.values.getD k 0) * complexOf read (t.left.entry i k) * star (complexOf read (t.right.entry j k))

private theorem Rearranges.outerSum_eq (moved : Rearranges p t.values.size t t') (read : α → ℝ) (i j : ℕ) :
    t'.outerSum read i j = t.outerSum read i j := by
  rw [outerSum, outerSum, moved.size, Finset.sum_range, Finset.sum_range]
  refine (Finset.sum_congr rfl fun k _ => ?_).trans (Equiv.sum_comp (indexPerm p moved.fixes le_rfl) _)
  rw [moved.value, moved.left, moved.right]
  rfl

end Sum

/-- Sorting applies one permutation to the values and to the leading columns of both factors, whatever their
heights are, and leaves the other columns alone. It puts the values in descending order, and the sum over all
triples stays the same, whatever numbers the scalars stand for. -/
theorem sorted_permutes (nonneg : Nonneg t.values) (left : t.values.size ≤ t.left.cols)
    (right : t.values.size ≤ t.right.cols) :
    (∃ p : Equiv.Perm (Fin t.values.size), ∀ k : Fin t.values.size,
      t.sorted.values.getD k 0 = t.values.getD (p k) 0 ∧
      (∀ i, t.sorted.left.entry i k = t.left.entry i (p k)) ∧
      ∀ i, t.sorted.right.entry i k = t.right.entry i (p k)) ∧
    t.sorted.values.size = t.values.size ∧ t.sorted.left.shape = t.left.shape ∧
    t.sorted.right.shape = t.right.shape ∧
    (∀ i j, i < j → j < t.values.size → t.sorted.values.getD j 0 ≤ t.sorted.values.getD i 0) ∧
    (∀ i j, t.values.size ≤ j →
      t.sorted.left.entry i j = t.left.entry i j ∧ t.sorted.right.entry i j = t.right.entry i j) ∧
    ∀ (read : α → ℝ) (i j : ℕ), t.sorted.outerSum read i j = t.outerSum read i j := by
  obtain ⟨p, moved⟩ := sorted_rearranges left right
  obtain ⟨size, -, settled⟩ := sorted_settled_values nonneg
  refine ⟨⟨indexPerm p moved.fixes le_rfl, fun k => ⟨moved.value k, fun i => moved.left i k, fun i => moved.right i k⟩⟩,
    size, moved.leftShape, moved.rightShape, fun i j after inside => ?_, fun i j beyond => ?_, moved.outerSum_eq⟩
  · exact settled i j (after.trans inside) after (size.symm ▸ inside)
  · rw [moved.left, moved.right, moved.fixes j beyond]
    exact ⟨rfl, rfl⟩

/-- Four values, the largest of them twice, with more left columns than values and factors of different heights. -/
def tied : SingularTriples Float where
  values := #[1, 3, 3, 0]
  left := .ofFn 2 5 fun i j => ⟨i.toFloat, j.toFloat⟩
  right := .ofFn 3 4 fun i j => ⟨j.toFloat, i.toFloat⟩

/-- The two largest values come first, and the fifth column stays. -/
theorem sorted_permutes_tied :
    Nonneg tied.values ∧ tied.values.size ≤ tied.left.cols ∧ tied.values.size ≤ tied.right.cols ∧
      (∃ p : Equiv.Perm (Fin 4), ∀ k : Fin 4, tied.sorted.values.getD k 0 = tied.values.getD (p k) 0 ∧
        (∀ i, tied.sorted.left.entry i k = tied.left.entry i (p k)) ∧
        ∀ i, tied.sorted.right.entry i k = tied.right.entry i (p k)) ∧
      (∀ i j, i < j → j < 4 → tied.sorted.values.getD j 0 ≤ tied.sorted.values.getD i 0) ∧
      ∀ i, tied.sorted.left.entry i 4 = tied.left.entry i 4 := by
  have nonneg : Nonneg tied.values := by
    unfold Nonneg
    decide +kernel
  obtain ⟨permuted, -, -, -, descending, beyond, -⟩ := sorted_permutes nonneg (by decide) (by decide)
  exact ⟨nonneg, by decide, by decide, permuted, descending, fun i => (beyond i 4 le_rfl).1⟩

end BondSvd.SingularTriples
