import Mathlib.Algebra.Order.BigOperators.Group.Finset
import Mathlib.Algebra.BigOperators.Ring.Finset
import Mathlib.Tactic.Ring
import MyDrivers.Lib.Runs

/-! Why finitely many parties come to rest. A party has a credit, which it can only
spend, and an effort that is left until it waits. A step either works, and then only
the effort of its party falls, or spends credit, and then it may give new work to
everybody. -/
namespace MyDrivers.Lib

section Potential
variable {ι : Type} [Fintype ι] {bound : Nat} {credit effort credit' effort' : ι → Nat} {i : ι}

def potential (bound : Nat) (credit effort : ι → Nat) : Nat :=
  ∑ i, ((Fintype.card ι * bound + 1) * credit i + effort i)

theorem potential_works (credits : ∀ j, credit' j ≤ credit j) (efforts : ∀ j, effort' j ≤ effort j)
    (less : effort' i < effort i) : potential bound credit' effort' < potential bound credit effort := by
  apply Finset.sum_lt_sum
  · intro j _
    exact Nat.add_le_add (Nat.mul_le_mul_left _ (credits j)) (efforts j)
  · exact ⟨i, Finset.mem_univ i,
      Nat.add_lt_add_of_le_of_lt (Nat.mul_le_mul_left _ (credits i)) less⟩

theorem potential_spends (credits : ∀ j, credit' j ≤ credit j) (less : credit' i < credit i)
    (bounded : ∀ j, effort' j ≤ bound) :
    potential bound credit' effort' < potential bound credit effort := by
  have hcredit : ∑ j, credit' j < ∑ j, credit j :=
    Finset.sum_lt_sum (fun j _ => credits j) ⟨i, Finset.mem_univ i, less⟩
  have heffort : ∑ j, effort' j ≤ Fintype.card ι * bound := by
    have h := Finset.sum_le_card_nsmul Finset.univ effort' bound fun j _ => bounded j
    simpa using h
  unfold potential
  rw [Finset.sum_add_distrib, Finset.sum_add_distrib, ← Finset.mul_sum, ← Finset.mul_sum]
  calc (Fintype.card ι * bound + 1) * ∑ j, credit' j + ∑ j, effort' j
      < (Fintype.card ι * bound + 1) * ∑ j, credit' j + (Fintype.card ι * bound + 1) := by omega
    _ = (Fintype.card ι * bound + 1) * (∑ j, credit' j + 1) := by ring
    _ ≤ (Fintype.card ι * bound + 1) * ∑ j, credit j := Nat.mul_le_mul_left _ hcredit
    _ ≤ _ := Nat.le_add_right _ _

theorem potential_falls (others : ∀ j, j ≠ i → credit' j ≤ credit j)
    (bounded : ∀ j, effort' j ≤ bound)
    (step : credit' i < credit i ∨
      credit' i = credit i ∧ effort' i < effort i ∧ ∀ j, j ≠ i → effort' j ≤ effort j) :
    potential bound credit' effort' < potential bound credit effort := by
  have hcredit (hle : credit' i ≤ credit i) (j : ι) : credit' j ≤ credit j := by
    by_cases hj : j = i
    · exact hj ▸ hle
    · exact others j hj
  rcases step with hless | ⟨hsame, hless, hothers⟩
  · exact potential_spends (hcredit (Nat.le_of_lt hless)) hless bounded
  · apply potential_works (hcredit (Nat.le_of_eq hsame)) _ hless
    intro j
    by_cases hj : j = i
    · exact hj ▸ Nat.le_of_lt hless
    · exact hothers j hj

theorem potential_le {most : Nat} (credits : ∀ j, credit j ≤ most) (efforts : ∀ j, effort j ≤ bound) :
    potential bound credit effort ≤
      Fintype.card ι * ((Fintype.card ι * bound + 1) * most + bound) := by
  have h := Finset.sum_le_card_nsmul Finset.univ
    (fun i => (Fintype.card ι * bound + 1) * credit i + effort i) _
    fun j _ => Nat.add_le_add (Nat.mul_le_mul_left (Fintype.card ι * bound + 1) (credits j)) (efforts j)
  simpa [potential] using h

end Potential

namespace Run
variable {σ α : Type} {step : σ → α → σ → Prop} {start : σ} {inv : σ → Prop} {measure : σ → Nat}

/-- A measure that every step lowers bounds the length of all runs. -/
theorem length_le (initial : inv start) (kept : ∀ s l t, inv s → step s l t → inv t)
    (falls : ∀ s l t, inv s → step s l t → measure t < measure s) {labels : List α} {t : σ}
    (run : Run step start labels t) : labels.length + measure t ≤ measure start := by
  have hboth : inv t ∧ labels.length + measure t ≤ measure start := by
    induction run with
    | nil => exact ⟨initial, by simp⟩
    | @snoc labels s l t _ hstep ih =>
      obtain ⟨hinv, hle⟩ := ih
      have hfall := falls s l t hinv hstep
      refine ⟨kept s l t hinv hstep, ?_⟩
      rw [List.length_append, List.length_singleton]
      omega
  exact hboth.2

theorem rests (initial : inv start) (kept : ∀ s l t, inv s → step s l t → inv t)
    (falls : ∀ s l t, inv s → step s l t → measure t < measure s) :
    ∃ labels t, Run step start labels t ∧ ∀ l u, ¬ step t l u := by
  induction hmeasure : measure start using Nat.strong_induction_on generalizing start with
  | _ n ih =>
    by_cases hlast : ∀ l u, ¬ step start l u
    · exact ⟨[], start, .nil, hlast⟩
    · simp only [not_forall, not_not] at hlast
      obtain ⟨l, u, hstep⟩ := hlast
      have hfall := falls start l u initial hstep
      obtain ⟨labels, t, hrun, hrest⟩ :=
        ih (measure u) (hmeasure ▸ hfall) (kept start l u initial hstep) rfl
      exact ⟨l :: labels, t, .cons hstep hrun, hrest⟩

/-- All runs are short, and where one cannot go on, what follows from rest holds. -/
theorem settles {good : σ → Prop} (initial : inv start) (kept : ∀ s l t, inv s → step s l t → inv t)
    (falls : ∀ s l t, inv s → step s l t → measure t < measure s)
    (rest : ∀ s, inv s → (∀ l t, ¬ step s l t) → good s) {most : Nat} (short : measure start ≤ most) :
    (∀ labels t, Run step start labels t →
      labels.length ≤ most ∧ ((∀ l u, ¬ step t l u) → good t)) ∧
      ∃ labels t, Run step start labels t ∧ good t := by
  have hinv {labels : List α} {t : σ} (run : Run step start labels t) : inv t :=
    run.invariant (fun _ => inv) initial fun _ s l t _ => kept s l t
  constructor
  · intro labels t run
    have hlength := run.length_le initial kept falls
    exact ⟨by omega, rest t (hinv run)⟩
  · obtain ⟨labels, t, run, hrest⟩ := rests initial kept falls
    exact ⟨labels, t, run, rest t (hinv run) hrest⟩

end Run

end MyDrivers.Lib
