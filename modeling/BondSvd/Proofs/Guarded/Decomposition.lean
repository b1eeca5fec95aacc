import Mathlib
import BondSvd.Decomposition.Truncation
import BondSvd.Proofs.Backend
import BondSvd.Proofs.Bond.Blocks
import BondSvd.Proofs.Guarded.Matrix

namespace BondSvd.Guarded

section Lists
variable {α : Type} [Scalar α]

/-- The value at an index of the list. -/
def value (values : List α) (k : Nat) : Guarded α := require (k < values.length) .outOfRange (values.getD k 0)

/-- The values from index `low` to below `high`. -/
def slice (values : List α) (low high : Nat) : Guarded (List α) :=
  require (low ≤ high ∧ high ≤ values.length) .outOfRange ((values.take high).drop low)

/-- The sum of the squares of the values, read one after the other. -/
def mass (values : List α) : Guarded α :=
  sumFrom 0 values.length fun k => do return Scalar.square (← value values k)

variable {values : List α}

theorem value_eq {k : Nat} (inside : k < values.length) : value values k = .ok (values.getD k 0) :=
  require_of inside _ _

omit [Scalar α] in
private theorem slice_eq {low high : Nat} (ordered : low ≤ high) (inside : high ≤ values.length) :
    slice values low high = .ok ((values.take high).drop low) := require_of ⟨ordered, inside⟩ _ _

private theorem sumFrom_squares (values : List α) :
    BondSvd.sumFrom 0 values.length (fun k => Scalar.square (values.getD k 0)) = BondSvd.mass values := by
  induction values using List.reverseRecOn with
  | nil => rfl
  | append_singleton front last ih =>
    have earlier : BondSvd.sumFrom 0 front.length (fun k => Scalar.square ((front ++ [last]).getD k 0)) =
        BondSvd.mass front := by
      rw [← ih]
      refine sumFrom_congr fun k _ below => ?_
      rw [Nat.zero_add] at below
      rw [List.getD_append _ _ _ _ below]
    rw [List.length_append, List.length_singleton, sumFrom_succ, earlier, BondSvd.mass, BondSvd.mass, List.map_append,
      List.map_singleton, total_append_singleton, Nat.zero_add, List.getD_append_right _ _ _ _ le_rfl, Nat.sub_self,
      List.getD_cons_zero]

theorem mass_eq (values : List α) : mass values = .ok (BondSvd.mass values) := by
  rw [mass, ← sumFrom_squares]
  refine sumFrom_eq fun k _ below => ?_
  rw [value_eq (by omega)]
  rfl

/-- A search whose tests do not fault. -/
theorem findM?_eq {ι : Type} {test : ι → Guarded Bool} {accepts : ι → Bool} {items : List ι}
    (each : ∀ x ∈ items, test x = .ok (accepts x)) : items.findM? test = .ok (items.find? accepts) := by
  induction items with
  | nil => rfl
  | cons x rest ih =>
    have later := ih fun y member => each y (List.mem_cons_of_mem x member)
    rw [List.findM?, each x List.mem_cons_self, ok_bind, List.find?_cons]
    cases accepts x with
    | true => rfl
    | false => exact later

end Lists

section Matrices
variable {α : Type} [Scalar α]

/-- The product. Unequal inner extents are refused, and the multiplication itself refuses empty factors. -/
def mul (A B : DenseMatrix α) : Guarded (DenseMatrix α) := do
  let inner ← require (A.cols = B.rows) .outOfRange A.cols
  if A.rows = 0 ∨ B.cols = 0 ∨ inner = 0 then return .ofFn A.rows B.cols fun _ _ => 0
  else
    let rows ← require (0 < A.rows ∧ 0 < B.cols ∧ 0 < inner) .emptyShape A.rows
    tabulate rows B.cols fun i j => sumFrom 0 inner fun k => do return (← entry A i k) * (← entry B k j)

/-- The matrix with the values on its main diagonal. -/
def diagonal (values : List α) (rows cols : Nat) : Guarded (DenseMatrix α) :=
  tabulate rows cols fun i j =>
    if i = j ∧ i < values.length then do return .ofScalar (← value values i) else .ok 0

/-- The first `count` columns, or all of them. -/
def leadingCols (A : DenseMatrix α) (count : Nat) : Guarded (DenseMatrix α) :=
  tabulate A.rows (min count A.cols) fun i j => entry A i j

/-- The first `count` rows, or all of them. -/
def leadingRows (A : DenseMatrix α) (count : Nat) : Guarded (DenseMatrix α) :=
  tabulate (min count A.rows) A.cols fun i j => entry A i j

/-- The upper and the lower half. -/
def rowHalves (A : DenseMatrix α) : Guarded (Except (Error α) (DenseMatrix α × DenseMatrix α)) :=
  if A.rows % 2 = 0 then do
    let upper ← tabulate (A.rows / 2) A.cols fun i j => entry A i j
    let lower ← tabulate (A.rows / 2) A.cols fun i j => entry A (i + A.rows / 2) j
    return .ok (upper, lower)
  else .ok (.error (.shapeMismatch (.oddRows A.rows)))

/-- The left and the right half. -/
def colHalves (A : DenseMatrix α) : Guarded (Except (Error α) (DenseMatrix α × DenseMatrix α)) :=
  if A.cols % 2 = 0 then do
    let left ← tabulate A.rows (A.cols / 2) fun i j => entry A i j
    let right ← tabulate A.rows (A.cols / 2) fun i j => entry A i (j + A.cols / 2)
    return .ok (left, right)
  else .ok (.error (.shapeMismatch (.oddColumns A.cols)))

private theorem mul_eq {A B : DenseMatrix α} (fits : A.cols = B.rows) : mul A B = .ok (A.mul B) := by
  rw [mul, require_of fits, ok_bind]
  by_cases empty : A.rows = 0 ∨ B.cols = 0 ∨ A.cols = 0
  · rw [if_pos empty]
    refine congrArg Except.ok (DenseMatrix.ofFn_congr fun i j row col => ?_)
    obtain none | none | none := empty
    · omega
    · omega
    · rw [none]
      rfl
  · rw [if_neg empty, require_of (by omega), ok_bind]
    refine tabulate_eq fun i j row col => sumFrom_eq fun k _ below => ?_
    rw [entry_eq row (by omega), entry_eq (by omega) col]
    rfl

private theorem diagonal_eq (values : List α) (rows cols : Nat) :
    diagonal values rows cols = .ok (.diagonal values rows cols) := by
  refine tabulate_eq (g := fun i j => if i = j then Cplx.ofScalar (values.toArray.getD i 0) else 0) fun i j _ _ => ?_
  by_cases main : i = j
  · by_cases stored : i < values.length
    · rw [if_pos ⟨main, stored⟩, if_pos main, value_eq stored]
      simp [Array.getD_eq_getD_getElem?, List.getD_eq_getElem?_getD]
    · rw [if_neg fun both => stored both.2, if_pos main]
      simp [Array.getD_eq_getD_getElem?, List.getElem?_eq_none (Nat.le_of_not_lt stored)]
      rfl
  · rw [if_neg fun both => main both.1, if_neg main]

private theorem leadingCols_eq (A : DenseMatrix α) (count : Nat) : leadingCols A count = .ok (A.leadingCols count) :=
  tabulate_eq fun _ _ row col => entry_eq row (col.trans_le (min_le_right _ _))

private theorem leadingRows_eq (A : DenseMatrix α) (count : Nat) : leadingRows A count = .ok (A.leadingRows count) :=
  tabulate_eq fun _ _ row col => entry_eq (row.trans_le (min_le_right _ _)) col

private theorem rowHalves_eq (A : DenseMatrix α) : rowHalves A = .ok A.rowHalves := by
  rw [rowHalves, DenseMatrix.rowHalves]
  split
  · rw [tabulate_eq (g := A.entry) fun i j row col => entry_eq (by omega) col,
      tabulate_eq (g := fun i j => A.entry (i + A.rows / 2) j) fun i j row col => entry_eq (by omega) col]
    rfl
  · rfl

private theorem colHalves_eq (A : DenseMatrix α) : colHalves A = .ok A.colHalves := by
  rw [colHalves, DenseMatrix.colHalves]
  split
  · rw [tabulate_eq (g := A.entry) fun i j row col => entry_eq row (by omega),
      tabulate_eq (g := fun i j => A.entry i (j + A.cols / 2)) fun i j row col => entry_eq row (by omega)]
    rfl
  · rfl

end Matrices

section Answers
variable {α : Type} [Scalar α]

/-- The adjoint of the right vectors, whatever is stored. -/
def rightAdjoint (r : Decomposition α) : Guarded (DenseMatrix α) :=
  match r.convention with
  | .columns => adjoint r.right
  | .adjoint => .ok r.right

/-- The same decomposition with the right factor stored as `target` asks. -/
def withConvention (r : Decomposition α) (target : Convention) : Guarded (Decomposition α) :=
  if r.convention = target then .ok r
  else do return { r with right := ← adjoint r.right, convention := target }

/-- The matrix that the factors multiply to. -/
def rebuild (r : Decomposition α) : Guarded (DenseMatrix α) := do
  let right ← rightAdjoint r
  let middle ← diagonal r.values r.left.cols right.rows
  mul (← mul r.left middle) right

/-- Whether two matrices are apart at a place. -/
def apart (A B : DenseMatrix α) (place : Nat × Nat) : Guarded Bool := do
  return !(← entry A place.1 place.2).almostEqual (← entry B place.1 place.2) Tolerance.drift

/-- Compares the rebuilt matrix with the input. -/
def validate (r : Decomposition α) (input : DenseMatrix α) : Guarded (Except (Error α) Unit) := do
  let product ← rebuild r
  if product.shape = input.shape then
    match ← (positions input.rows input.cols).findM? (apart input product) with
    | none => return .ok ()
    | some (i, j) => return .error (.validationMismatch i j (← entry input i j) (← entry product i j))
  else return .error (.shapeMismatch (.rebuilt product.shape input.shape))

/-- How many leading values survive a cutoff; the first one is read where there is one. -/
def retained (c : Cutoff α) (values : List α) : Guarded Nat :=
  if ¬c.isActive = true ∨ values.isEmpty = true then .ok values.length
  else do
    let first ← value values 0
    return max (values.takeWhile fun x => decide (c.threshold first < x)).length 1

/-- The record of keeping the first `extent` values. -/
def recordOf (values : List α) (extent : Nat) : Guarded (TruncationRecord α) := do
  let reduced := min extent values.length
  let total ← mass values
  let dropped ← mass (← slice values reduced values.length)
  return ⟨values.length, reduced, if 0 < total then dropped / total else 0⟩

/-- The mass that was removed, given the values that were kept. -/
def discardedMass (record : TruncationRecord α) (kept : List α) : Guarded α := do
  let left ← mass kept
  if record.discardedWeight ≤ 0 ∨ 1 ≤ record.discardedWeight ∨ left == 0 then return 0
  else return record.discardedWeight * left / (1 - record.discardedWeight)

/-- The first `count` values with their vectors on either side. -/
def take (r : Decomposition α) (count : Nat) : Guarded (Decomposition α) := do
  let left ← leadingCols r.left count
  let right ← match r.convention with
    | .columns => leadingCols r.right count
    | .adjoint => leadingRows r.right count
  return { r with left, values := r.values.take count, right }

/-- Removes what the cutoff does not retain, with the record of the cut. -/
def cut (r : Decomposition α) (c : Cutoff α) : Guarded (Decomposition α × TruncationRecord α) := do
  let kept ← retained c r.values
  let record ← recordOf r.values kept
  if record.isTruncated then return (← take r kept, record) else return (r, record)

/-- Drops indices from `extent` downwards while the dropped mass stays below `threshold`. -/
def tailStart (values : List α) (threshold : α) : (extent : Nat) → (dropped : α) → Guarded Nat
  | 0, _ => .ok 0
  | 1, _ => .ok 1
  | i + 2, dropped => do
    let more := dropped + Scalar.square (← value values (i + 1))
    if more < threshold then tailStart values threshold (i + 1) more else return i + 2

/-- The truncated decomposition, and the mass that was removed from it. -/
def truncate (r : Decomposition α) (maxExtent : Nat) (threshold : α) : Guarded (Decomposition α × α) := do
  let extent ← tailStart r.values threshold (min r.significantExtent maxExtent) 0
  let removed ← mass (← slice r.values extent r.significantExtent)
  let kept ← take r extent
  return ({ kept with values := renormalize kept.values }, removed)

variable {values : List α}

private theorem rightAdjoint_eq (r : Decomposition α) : rightAdjoint r = .ok r.rightAdjoint := by
  rw [rightAdjoint, Decomposition.rightAdjoint]
  cases r.convention with
  | columns => exact adjoint_eq r.right
  | adjoint => rfl

private theorem withConvention_eq (r : Decomposition α) (target : Convention) :
    withConvention r target = .ok (r.withConvention target) := by
  rw [withConvention, Decomposition.withConvention, adjoint_eq]
  split <;> rfl

/-- The diagonal takes its extents from its neighbours, so both products are allowed. -/
theorem rebuild_eq (r : Decomposition α) : rebuild r = .ok r.rebuild := by
  have inner : mul r.left r.middle = .ok (r.left.mul r.middle) := mul_eq rfl
  have outer : mul (r.left.mul r.middle) r.rightAdjoint = .ok r.rebuild := mul_eq rfl
  rw [rebuild, rightAdjoint_eq, ok_bind, diagonal_eq, ok_bind, ← Decomposition.middle, inner, ok_bind, outer]

private theorem findM?_apart {A B : DenseMatrix α} (same : B.shape = A.shape) :
    (positions A.rows A.cols).findM? (apart A B) = .ok (A.firstMismatch B) := by
  refine findM?_eq fun place member => ?_
  obtain ⟨row, col⟩ := mem_positions.mp member
  rw [apart, entry_eq row col, entry_eq (row.trans_eq (congrArg Prod.fst same).symm)
    (col.trans_eq (congrArg Prod.snd same).symm)]
  rfl

private theorem validate_eq (r : Decomposition α) (input : DenseMatrix α) : validate r input = .ok (r.validate input) := by
  rw [validate, rebuild_eq, ok_bind, Decomposition.validate]
  split
  · next same =>
    rw [findM?_apart same, ok_bind]
    cases found : input.firstMismatch r.rebuild with
    | none => rfl
    | some place =>
      obtain ⟨row, col⟩ := mem_positions.mp (List.mem_of_find?_eq_some found)
      dsimp only
      rw [entry_eq row col, entry_eq (row.trans_eq (congrArg Prod.fst same).symm)
        (col.trans_eq (congrArg Prod.snd same).symm)]
      rfl
  · rfl

private theorem retained_eq (c : Cutoff α) (values : List α) : retained c values = .ok (c.retained values) := by
  cases values with
  | nil => exact if_pos (.inr rfl)
  | cons first rest =>
    rw [retained, Cutoff.retained]
    by_cases active : c.isActive = true
    · rw [if_neg (by simp [active]), if_pos active, value_eq (Nat.succ_pos _)]
      rfl
    · rw [if_pos (.inl active), if_neg active]

private theorem recordOf_eq (values : List α) (extent : Nat) :
    recordOf values extent = .ok (.ofSpectrum values extent) := by
  rw [recordOf, mass_eq, ok_bind, slice_eq (min_le_right _ _) le_rfl, ok_bind, List.take_length, mass_eq]
  rfl

private theorem discardedMass_eq (record : TruncationRecord α) (kept : List α) :
    discardedMass record kept = .ok (record.discardedMass kept) := by
  rw [discardedMass, mass_eq, ok_bind, TruncationRecord.discardedMass]
  split <;> rfl

private theorem take_eq (r : Decomposition α) (count : Nat) : take r count = .ok (r.take count) := by
  obtain ⟨left, values, right, convention, truncation⟩ := r
  cases convention <;> simp only [take, leadingCols_eq, leadingRows_eq, ok_bind] <;> rfl

private theorem cut_eq (r : Decomposition α) (c : Cutoff α) : cut r c = .ok (r.cut c) := by
  rw [cut, retained_eq, ok_bind, recordOf_eq, ok_bind, take_eq, Decomposition.cut]
  split <;> rfl

private theorem tailStart_eq (threshold : α) {extent : Nat} (inside : extent ≤ values.length) (dropped : α) :
    tailStart values threshold extent dropped = .ok (BondSvd.tailStart values threshold extent dropped) := by
  fun_induction BondSvd.tailStart values threshold extent dropped with
  | case1 => rfl
  | case2 => rfl
  | case3 i dropped more light ih =>
    rw [tailStart, value_eq inside, ok_bind]
    exact (if_pos light).trans (ih (Nat.le_of_succ_le inside))
  | case4 i dropped more heavy =>
    rw [tailStart, value_eq inside, ok_bind]
    exact if_neg heavy

/-- What is kept ends before what is significant does, and that before the values do. -/
theorem truncate_eq (r : Decomposition α) (maxExtent : Nat) (threshold : α) :
    truncate r maxExtent threshold = .ok (r.truncate maxExtent threshold) := by
  have kept : r.keptExtent maxExtent threshold ≤ r.significantExtent :=
    (r.keptExtent_le maxExtent threshold).trans (min_le_left _ _)
  have scan : tailStart r.values threshold (min r.significantExtent maxExtent) 0 =
      .ok (r.keptExtent maxExtent threshold) := tailStart_eq threshold ((min_le_left _ _).trans r.significantExtent_le) 0
  rw [truncate, scan, ok_bind, slice_eq kept r.significantExtent_le, ok_bind, mass_eq, ok_bind, take_eq]
  rfl

/-- What the guarded steps do with an answer is what the plain ones do, whatever they are given: no index
and no slice is out of range, and no product meets extents that differ. -/
structure Handled (r : Decomposition α) (input : DenseMatrix α) : Prop where
  rebuild : rebuild r = .ok r.rebuild
  validate : validate r input = .ok (r.validate input)
  cut : ∀ c, cut r c = .ok (r.cut c)
  discardedMass : ∀ (record : TruncationRecord α) kept, discardedMass record kept = .ok (record.discardedMass kept)
  truncate : ∀ maxExtent threshold, truncate r maxExtent threshold = .ok (r.truncate maxExtent threshold)
  withConvention : ∀ target, withConvention r target = .ok (r.withConvention target)
  leftHalves : rowHalves r.left = .ok r.left.rowHalves
  rightHalves : adjoint r.right >>= colHalves = .ok r.right.adjoint.colHalves
  adjointHalves : colHalves r.right = .ok r.right.colHalves

/-- Any answer is handled without a fault, over any scalars, with any bounds and against any input. A wrong
shape is found by the comparison where an outer extent of the factors differs from the input's and nowhere
else, and by a cut in halves where the extent is odd and nowhere else. -/
theorem answer_faultless (r : Decomposition α) (input : DenseMatrix α) :
    Handled r input ∧
      (∀ fault, r.validate input = .error (.shapeMismatch fault) ↔
        (r.left.rows ≠ input.rows ∨ r.rightAdjoint.cols ≠ input.cols) ∧
          fault = .rebuilt (r.left.rows, r.rightAdjoint.cols) input.shape) ∧
      (∀ error, r.left.rowHalves = .error error ↔
        Odd r.left.rows ∧ error = .shapeMismatch (.oddRows r.left.rows)) ∧
      (∀ error, r.right.adjoint.colHalves = .error error ↔
        Odd r.right.rows ∧ error = .shapeMismatch (.oddColumns r.right.rows)) ∧
      ∀ error, r.right.colHalves = .error error ↔
        Odd r.right.cols ∧ error = .shapeMismatch (.oddColumns r.right.cols) := by
  have handled : Handled r input := by
    constructor
    case rebuild => exact rebuild_eq r
    case validate => exact validate_eq r input
    case cut => exact cut_eq r
    case discardedMass => exact discardedMass_eq
    case truncate => exact truncate_eq r
    case withConvention => exact withConvention_eq r
    case leftHalves => exact rowHalves_eq r.left
    case rightHalves => rw [adjoint_eq, ok_bind, colHalves_eq]
    case adjointHalves => exact colHalves_eq r.right
  refine ⟨handled, fun fault => Decomposition.validate_eq_shape_iff,
    fun error => DenseMatrix.rowHalves_eq_error_iff, fun error => ?_, fun error => DenseMatrix.colHalves_eq_error_iff⟩
  rw [DenseMatrix.colHalves_eq_error_iff, DenseMatrix.cols_adjoint]

end Answers

end BondSvd.Guarded
