import Mathlib.Tactic.Common

/-! A semaphore that starts at 1 and guards a section of code. -/
namespace MyDrivers.Lib

variable {ι : Type}

/-- Either the semaphore is free and nobody is inside, or it is taken and
exactly one party is. -/
def Exclusive (sem : Nat) (inside : ι → Prop) : Prop :=
  (sem = 1 ∧ ∀ i, ¬ inside i) ∨ (sem = 0 ∧ ∃ i, inside i ∧ ∀ j, inside j → j = i)

namespace Exclusive
variable {sem : Nat} {inside after : ι → Prop}

theorem congr (h : Exclusive sem inside) (same : ∀ j, after j ↔ inside j) :
    Exclusive sem after := by
  have heq : after = inside := by
    funext j
    exact propext (same j)
  rw [heq]
  exact h

theorem down (h : Exclusive sem inside) (free : 0 < sem) {i : ι}
    (enters : ∀ j, after j ↔ j = i ∨ inside j) : Exclusive (sem - 1) after := by
  rcases h with ⟨hsem, hnone⟩ | ⟨hsem, -⟩
  · right
    refine ⟨by omega, i, (enters i).mpr (.inl rfl), ?_⟩
    intro j hj
    exact ((enters j).mp hj).resolve_right (hnone j)
  · omega

theorem up (h : Exclusive sem inside) {i : ι} (hi : inside i)
    (leaves : ∀ j, after j ↔ j ≠ i ∧ inside j) : Exclusive (sem + 1) after := by
  rcases h with ⟨-, hnone⟩ | ⟨hsem, k, hk, honly⟩
  · exact absurd hi (hnone i)
  · left
    refine ⟨by omega, ?_⟩
    intro j hj
    obtain ⟨hne, hj⟩ := (leaves j).mp hj
    exact hne ((honly j hj).trans (honly i hi).symm)

theorem le_one (h : Exclusive sem inside) : sem ≤ 1 := by
  rcases h with ⟨hsem, -⟩ | ⟨hsem, -⟩ <;> omega

theorem alone (h : Exclusive sem inside) {i j : ι} (hi : inside i) (hj : inside j) : i = j := by
  rcases h with ⟨-, hnone⟩ | ⟨-, k, hk, honly⟩
  · exact absurd hi (hnone i)
  · exact (honly i hi).trans (honly j hj).symm

theorem free (h : Exclusive sem inside) (none : ∀ i, ¬ inside i) : sem = 1 := by
  rcases h with ⟨hsem, -⟩ | ⟨-, k, hk, -⟩
  · exact hsem
  · exact absurd hk (none k)

end Exclusive

end MyDrivers.Lib
