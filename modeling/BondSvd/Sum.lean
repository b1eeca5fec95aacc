/-! Sums in a fixed order. Rounded addition is not associative, so the order of a sum is
part of its value: `sumFrom` and `List.total` both add from the left, starting at zero. -/
namespace BondSvd
universe u
variable {β : Type u} [Zero β] [Add β]

/-- The sum `f start + ⋯ + f (start + count - 1)`, added from the left to zero. -/
@[specialize] def sumFrom (start : Nat) : (count : Nat) → (f : Nat → β) → β
  | 0, _ => 0
  | count + 1, f => sumFrom start count f + f (start + count)

theorem sumFrom_succ (start count : Nat) (f : Nat → β) :
    sumFrom start (count + 1) f = sumFrom start count f + f (start + count) := rfl

theorem sumFrom_congr {start count : Nat} {f g : Nat → β}
    (same : ∀ i, start ≤ i → i < start + count → f i = g i) :
    sumFrom start count f = sumFrom start count g := by
  induction count with
  | zero => rfl
  | succ count ih =>
    rw [sumFrom_succ, sumFrom_succ, ih fun i low high => same i low (by omega),
      same (start + count) (by omega) (by omega)]

/-- The values of a list, added from the left to zero. -/
def total (values : List β) : β := values.foldl (· + ·) 0

theorem total_append_singleton (values : List β) (last : β) :
    total (values ++ [last]) = total values + last := by
  simp [total]

end BondSvd
