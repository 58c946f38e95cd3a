import Mathlib.Tactic.Common

/-! Sleepers and wake-ups. A party that is asleep although what it waits for has
come true must have a wake-up coming: some other party still has it ahead. The
rules say which steps keep this. -/
namespace MyDrivers.Lib

variable {ι : Type}

/-- While somebody sleeps in vain, a wake-up is pending. -/
def Awaited (sleeps ready pending : ι → Prop) : Prop :=
  ∀ i, sleeps i → ready i → ∃ j, pending j

namespace Awaited
variable {sleeps ready pending sleeps' ready' pending' : ι → Prop}

theorem frame (h : Awaited sleeps ready pending)
    (old : ∀ i, sleeps' i → ready' i → sleeps i ∧ ready i)
    (kept : ∀ j, pending j → pending' j) : Awaited sleeps' ready' pending' := by
  intro i hsleeps hready
  obtain ⟨hsleeps, hready⟩ := old i hsleeps hready
  obtain ⟨j, hj⟩ := h i hsleeps hready
  exact ⟨j, kept j hj⟩

theorem announce {j : ι} (hj : pending' j) : Awaited sleeps' ready' pending' :=
  fun _ _ _ => ⟨j, hj⟩

theorem deliver (none : ∀ i, ¬ sleeps' i) : Awaited sleeps' ready' pending' :=
  fun i hsleeps => absurd hsleeps (none i)

end Awaited

end MyDrivers.Lib
