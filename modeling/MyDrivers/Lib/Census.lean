import Mathlib.Data.Set.Card

/-! Counting the parties that are at a place of some kind, and tickets of which at
most one is spare. The parties may be any number, and one of them moves at a time. -/
namespace MyDrivers.Lib

variable {ι α : Type}

noncomputable def census (f : ι → α) (p : α → Prop) : ℕ∞ :=
  {i | p (f i)}.encard

theorem census_none {f : ι → α} {p : α → Prop} (none : ∀ i, ¬ p (f i)) : census f p = 0 := by
  apply Set.encard_eq_zero.mpr
  ext i
  exact iff_of_false (none i) id

theorem census_le {f : ι → α} {p q : α → Prop} (imp : ∀ a, p a → q a) :
    census f p ≤ census f q :=
  Set.encard_le_encard fun i => imp (f i)

theorem census_eq_card [Fintype ι] (f : ι → α) (p : α → Prop) [DecidablePred p] :
    census f p = (Finset.univ.filter fun i => p (f i)).card := by
  rw [census, ← Set.encard_coe_eq_coe_finsetCard]
  apply congrArg Set.encard
  ext i
  simp

section Update
variable [DecidableEq ι] {f : ι → α} {p : α → Prop} {i : ι} {a : α}

theorem census_enter (outside : ¬ p (f i)) (inside : p a) :
    census (Function.update f i a) p = census f p + 1 := by
  have hset : {j | p (Function.update f i a j)} = insert i {j | p (f j)} := by
    ext j
    by_cases hj : j = i
    · subst hj
      simp [inside]
    · simp [hj]
  rw [census, hset]
  exact Set.encard_insert_of_notMem outside

theorem census_leave (inside : p (f i)) (outside : ¬ p a) :
    census f p = census (Function.update f i a) p + 1 := by
  have hback : f = Function.update (Function.update f i a) i (f i) := by
    rw [Function.update_idem, Function.update_eq_self]
  have hout : ¬ p (Function.update f i a i) := by simpa using outside
  calc census f p = census (Function.update (Function.update f i a) i (f i)) p := by rw [← hback]
    _ = census (Function.update f i a) p + 1 := census_enter hout inside

theorem census_old (inside : p (f i)) : census (Function.update f i a) p ≤ census f p := by
  apply Set.encard_le_encard
  intro j hj
  by_cases hji : j = i
  · exact hji ▸ inside
  · simpa [hji] using hj

theorem census_stay (same : p a ↔ p (f i)) :
    census (Function.update f i a) p = census f p := by
  apply congrArg Set.encard
  ext j
  by_cases hj : j = i
  · subst hj
    simpa using same
  · simp [hj]

end Update

def Covered (used issued : ℕ∞) (spare : Prop) : Prop :=
  used ≤ issued ∧ (spare → used + 1 ≤ issued)

namespace Covered
variable {used issued : ℕ∞} {spare spare' : Prop}

theorem nobody (none : ¬ spare) : Covered 0 issued spare :=
  ⟨zero_le, fun now => absurd now none⟩

theorem frame (h : Covered used issued spare) (old : spare' → spare) :
    Covered used issued spare' :=
  ⟨h.1, fun now => h.2 (old now)⟩

theorem issue (h : Covered used issued spare) : Covered used (issued + 1) spare' :=
  ⟨h.1.trans le_self_add, fun _ => add_le_add_left h.1 1⟩

theorem spend (h : Covered used issued spare) (had : spare) (gone : ¬ spare') :
    Covered (used + 1) issued spare' :=
  ⟨h.2 had, fun now => absurd now gone⟩

end Covered

end MyDrivers.Lib
