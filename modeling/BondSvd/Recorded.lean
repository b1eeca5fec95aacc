import BondSvd.Error.Basic
import BondSvd.Vendor.Routine

namespace BondSvd
universe u

/-- A result, with the calls that were made for it whether it is an error or not. -/
structure Recorded (α : Type u) (β : Type u) where
  result : Except (Error α) β
  calls : List Vendor.RoutineCall := []

namespace Recorded
variable {α β γ : Type u}

def pure (value : β) : Recorded α β := ⟨.ok value, []⟩

def ofExcept (result : Except (Error α) β) : Recorded α β := ⟨result, []⟩

/-- Goes on after a success, without further calls. -/
def andThen (first : Recorded α β) (next : β → Except (Error α) γ) : Recorded α γ :=
  ⟨first.result.bind next, first.calls⟩

theorem result_andThen (first : Recorded α β) (next : β → Except (Error α) γ) :
    (first.andThen next).result = first.result.bind next := rfl

theorem andThen_andThen {δ : Type u} (first : Recorded α β) (next : β → Except (Error α) γ)
    (last : γ → Except (Error α) δ) :
    (first.andThen next).andThen last = first.andThen fun value => (next value).bind last := by
  obtain ⟨result, calls⟩ := first
  cases result <;> rfl

end Recorded
end BondSvd
