import Mathlib
import BondSvd.DenseMatrix.Algebra
import BondSvd.DenseMatrix.Columns
import BondSvd.DenseMatrix.Reflection
import BondSvd.Proofs.Exact.Scalar

/-! Guarded arithmetic and guarded accesses. Every quotient first looks at its divisor and every
access at the extent, and the first one that is wrong ends the run with a fault. The definitions
that follow repeat the decomposition with these; what it computes is the same, as long as no
guard strikes. -/
namespace BondSvd

/-- What a run must never come to. -/
inductive Fault
  | zeroDivisor
  | outOfRange
  | emptyShape
deriving DecidableEq, Repr

/-- A value, or the first fault on the way to it. -/
abbrev Guarded (β : Type) := Except Fault β

namespace Guarded
variable {β γ : Type}

@[simp] theorem ok_bind (x : β) (f : β → Guarded γ) : (Except.ok x : Guarded β) >>= f = f x := rfl

@[simp] theorem pure_eq (x : β) : (pure x : Guarded β) = .ok x := rfl

/-- The value where the condition holds, and otherwise the fault. -/
def require (condition : Prop) [Decidable condition] (fault : Fault) (value : β) : Guarded β :=
  if condition then .ok value else .error fault

theorem require_of {condition : Prop} [Decidable condition] (holds : condition) (fault : Fault) (value : β) :
    require condition fault value = .ok value := if_pos holds

private theorem require_eq_error_iff {condition : Prop} [Decidable condition] {fault : Fault} {value : β} :
    require condition fault value = .error fault ↔ ¬condition := by
  unfold require
  split <;> simp [*]

/-- The index before `k`; the first index has none. -/
def predecessor (k : Nat) : Guarded Nat := require (0 < k) .outOfRange (k - 1)

@[simp] theorem predecessor_succ (k : Nat) : predecessor (k + 1) = .ok k := require_of (Nat.succ_pos k) _ _

/-- A fold whose steps do not fault, as long as what they build on has the property that they keep. -/
theorem foldlM_eq {ι : Type} {P : β → Prop} {f : β → ι → Guarded β} {g : β → ι → β} {indices : List ι} {start : β}
    (first : P start) (each : ∀ i ∈ indices, ∀ x, P x → f x i = .ok (g x i) ∧ P (g x i)) :
    indices.foldlM f start = .ok (indices.foldl g start) := by
  induction indices generalizing start with
  | nil => rfl
  | cons i rest ih =>
    obtain ⟨here, kept⟩ := each i List.mem_cons_self start first
    rw [List.foldlM_cons, here]
    exact ih kept fun j member => each j (List.mem_cons_of_mem i member)

theorem foldlM_eq_of_forall {ι : Type} {f : β → ι → Guarded β} {g : β → ι → β} {indices : List ι}
    (each : ∀ i ∈ indices, ∀ x, f x i = .ok (g x i)) (start : β) :
    indices.foldlM f start = .ok (indices.foldl g start) :=
  foldlM_eq (P := fun _ => True) trivial fun i member x _ => ⟨each i member x, trivial⟩

theorem mapM_eq {ι : Type} {f : ι → Guarded β} {g : ι → β} {items : List ι}
    (each : ∀ x ∈ items, f x = .ok (g x)) : items.mapM f = .ok (items.map g) := by
  induction items with
  | nil => rfl
  | cons x rest ih =>
    rw [List.mapM_cons, each x List.mem_cons_self, ih fun y member => each y (List.mem_cons_of_mem x member)]
    rfl

section Operations
variable {α : Type} [Scalar α]

/-- The quotient by what is not zero. -/
def divide (x y : α) : Guarded α := require (¬(y == 0) = true) .zeroDivisor (x / y)

/-- Both parts divided by a scalar. -/
def unscale (x : Cplx α) (divisor : α) : Guarded (Cplx α) := do
  return ⟨← divide x.re divisor, ← divide x.im divisor⟩

/-- The value at an index of the array. -/
def read (values : Array α) (k : Nat) : Guarded α := require (k < values.size) .outOfRange (values.getD k 0)

/-- The array with the value at one of its indices overwritten. -/
def write (values : Array α) (k : Nat) (x : α) : Guarded (Array α) :=
  require (k < values.size) .outOfRange (values.setIfInBounds k x)

/-- The entry at a place of the matrix. -/
def entry (A : DenseMatrix α) (i j : Nat) : Guarded (Cplx α) :=
  require (i < A.rows ∧ j < A.cols) .outOfRange (A.entry i j)

/-- The matrix with the entry at one of its places overwritten. -/
def set (A : DenseMatrix α) (i j : Nat) (value : Cplx α) : Guarded (DenseMatrix α) :=
  require (i < A.rows ∧ j < A.cols) .outOfRange (A.set i j value)

/-- The sum of `count` values from index `start` on, in the order of `BondSvd.sumFrom`. -/
def sumFrom [Zero β] [Add β] (start : Nat) : (count : Nat) → (f : Nat → Guarded β) → Guarded β
  | 0, _ => .ok 0
  | count + 1, f => do return (← sumFrom start count f) + (← f (start + count))

/-- The matrix of the values `f i j`, for a shape that is not empty. -/
def fromFn (rows cols : Nat) (f : Nat → Nat → Guarded (Cplx α)) : Guarded (DenseMatrix α) := do
  let rows ← require (0 < rows ∧ 0 < cols) .emptyShape rows
  return ⟨rows, cols, ← Vector.ofFnM fun k => f (k.val / cols) (k.val % cols)⟩

/-- The matrix of the values `f i j`; `f` is never run for an empty shape. -/
def tabulate (rows cols : Nat) (f : Nat → Nat → Guarded (Cplx α)) : Guarded (DenseMatrix α) :=
  if rows = 0 ∨ cols = 0 then .ok (.ofFn rows cols fun _ _ => 0) else fromFn rows cols f

theorem read_eq {values : Array α} {k : Nat} (inside : k < values.size) : read values k = .ok (values.getD k 0) :=
  require_of inside _ _

omit [Scalar α] in
theorem write_eq {values : Array α} {k : Nat} (inside : k < values.size) (x : α) :
    write values k x = .ok (values.setIfInBounds k x) := require_of inside _ _

theorem entry_eq {A : DenseMatrix α} {i j : Nat} (row : i < A.rows) (col : j < A.cols) :
    entry A i j = .ok (A.entry i j) := require_of ⟨row, col⟩ _ _

omit [Scalar α] in
theorem set_eq {A : DenseMatrix α} {i j : Nat} (row : i < A.rows) (col : j < A.cols) (value : Cplx α) :
    set A i j value = .ok (A.set i j value) := require_of ⟨row, col⟩ _ _

theorem sumFrom_eq [Zero β] [Add β] {start count : Nat} {f : Nat → Guarded β} {g : Nat → β}
    (each : ∀ i, start ≤ i → i < start + count → f i = .ok (g i)) :
    sumFrom start count f = .ok (BondSvd.sumFrom start count g) := by
  induction count with
  | zero => rfl
  | succ count ih =>
    rw [sumFrom, ih fun i low high => each i low (by omega), each (start + count) (by omega) (by omega)]
    rfl

omit [Scalar α] in
private theorem fromFn_eq {rows cols : Nat} {f : Nat → Nat → Guarded (Cplx α)} {g : Nat → Nat → Cplx α}
    (present : 0 < rows ∧ 0 < cols) (each : ∀ i j, i < rows → j < cols → f i j = .ok (g i j)) :
    fromFn rows cols f = .ok (.ofFn rows cols g) := by
  have entries (k : Fin (rows * cols)) : f (k.val / cols) (k.val % cols) = .ok (g (k.val / cols) (k.val % cols)) := by
    exact each _ _ (Nat.div_lt_of_lt_mul (Nat.mul_comm rows cols ▸ k.isLt)) (Nat.mod_lt _ present.2)
  have all : (Vector.ofFnM fun k : Fin (rows * cols) => f (k.val / cols) (k.val % cols)) =
      .ok (Vector.ofFn fun k => g (k.val / cols) (k.val % cols)) := by
    rw [funext entries]
    exact Vector.ofFnM_pure
  rw [fromFn, require_of present, ok_bind, all]
  rfl

theorem tabulate_eq {rows cols : Nat} {f : Nat → Nat → Guarded (Cplx α)} {g : Nat → Nat → Cplx α}
    (each : ∀ i j, i < rows → j < cols → f i j = .ok (g i j)) :
    tabulate rows cols f = .ok (.ofFn rows cols g) := by
  unfold tabulate
  split
  · next empty => exact congrArg Except.ok (DenseMatrix.ofFn_congr fun i j row col => by omega)
  · exact fromFn_eq (by omega) each

end Operations

section Exact
variable {x y : ℝ}

theorem pos_of_visible (visible : ¬x ≤ Tolerance.zero) : 0 < x := Tolerance.zero_pos.trans (not_le.mp visible)

theorem divide_eq (present : y ≠ 0) : divide x y = .ok (x / y) :=
  require_of (by simpa using present) _ _

theorem divide_zero (x : ℝ) : divide x 0 = .error .zeroDivisor :=
  require_eq_error_iff.mpr (by simp)

theorem unscale_eq {divisor : ℝ} (present : divisor ≠ 0) (z : Cplx ℝ) : unscale z divisor = .ok (z.unscale divisor) := by
  simp only [unscale, divide_eq present, ok_bind, pure_eq]
  rfl

end Exact

end Guarded
end BondSvd
