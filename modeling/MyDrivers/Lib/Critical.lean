import Mathlib.Logic.Function.Basic
import Mathlib.Logic.Relation
import Mathlib.Tactic.Common

/-! Code that runs inside a lock, one access to the shared memory at a time. While
one party is inside, its accesses alone change the memory, so whatever comes
between them they amount to one step from the memory it found. -/
namespace MyDrivers.Lib

variable {σ τ ρ κ ι : Type}

/-- After an access a party is still inside, or it leaves with a result. -/
inductive Turn (τ ρ : Type) where
  | stays (l : τ)
  | leaves (r : ρ)

def Stays (access : κ → τ → σ → Turn τ ρ × σ) (before after : τ × σ) :
    Prop :=
  ∃ c, access c before.1 before.2 = (.stays after.1, after.2)

def Ends (access : κ → τ → σ → Turn τ ρ × σ) (first : τ) (s : σ)
    (r : ρ) (s' : σ) : Prop :=
  ∃ c l mid, Relation.ReflTransGen (Stays access) (first, s) (l, mid) ∧
    access c l mid = (.leaves r, s')

section Rules
variable {access : κ → τ → σ → Turn τ ρ × σ}

theorem Ends.post {first : τ} {s s' : σ} {r : ρ} (h : Ends access first s r s')
    (inv : τ → σ → Prop) {post : ρ → σ → Prop} (initial : inv first s)
    (stays : ∀ c l s l' s', inv l s → access c l s = (.stays l', s') → inv l' s')
    (leaves : ∀ c l s r s', inv l s → access c l s = (.leaves r, s') → post r s') : post r s' := by
  obtain ⟨c, l, mid, hreach, hlast⟩ := h
  have hinv : inv l mid := by
    have hall : ∀ q : τ × σ,
        Relation.ReflTransGen (Stays access) (first, s) q → inv q.1 q.2 := by
      intro q hq
      induction hq with
      | refl => exact initial
      | tail _ hstep ih =>
        obtain ⟨c, hstep⟩ := hstep
        exact stays c _ _ _ _ ih hstep
    exact hall (l, mid) hreach
  exact leaves c l mid r s' hinv hlast

end Rules

/-- Either nobody is inside and the memory is what the last party left, or one party
is, and its own accesses took the memory from there to where it stands. -/
def Guarded (access : κ → τ → σ → Turn τ ρ × σ)
    (begins : ι → τ → Prop) (inside : ι → Option τ) (committed memory : σ) : Prop :=
  (memory = committed ∧ ∀ i, inside i = none) ∨
    ∃ i first l, begins i first ∧ inside i = some l ∧ (∀ j, j ≠ i → inside j = none) ∧
      Relation.ReflTransGen (Stays access) (first, committed) (l, memory)

namespace Guarded
variable {access : κ → τ → σ → Turn τ ρ × σ}
  {begins begins' : ι → τ → Prop} {inside inside' : ι → Option τ}
  {committed memory memory' : σ}

theorem init (none : ∀ i, inside i = none) : Guarded access begins inside memory memory :=
  .inl ⟨rfl, none⟩

/-- When nobody is inside, everything that has been done is committed. -/
theorem settled (h : Guarded access begins inside committed memory)
    (none : ∀ i, inside i = none) : memory = committed := by
  rcases h with ⟨hsame, -⟩ | ⟨i, first, l, -, hi, -⟩
  · exact hsame
  · rw [none i] at hi
    cases hi

theorem frame (h : Guarded access begins inside committed memory)
    (same : ∀ i, inside' i = inside i)
    (kept : ∀ i first, (inside i).isSome → begins i first → begins' i first) :
    Guarded access begins' inside' committed memory := by
  rcases h with ⟨hsame, hnone⟩ | ⟨i, first, l, hfirst, hi, hothers, hreach⟩
  · refine .inl ⟨hsame, fun i => ?_⟩
    rw [same]
    exact hnone i
  · refine .inr ⟨i, first, l, kept i first (by rw [hi]; rfl) hfirst, ?_, fun j hj => ?_, hreach⟩
    · rw [same]
      exact hi
    · rw [same]
      exact hothers j hj

theorem enter (h : Guarded access begins inside committed memory) {i : ι} {first : τ}
    (none : ∀ j, inside j = none) (hfirst : begins' i first) (hi : inside' i = some first)
    (others : ∀ j, j ≠ i → inside' j = inside j) :
    Guarded access begins' inside' committed memory := by
  cases h.settled none
  refine .inr ⟨i, first, first, hfirst, hi, fun j hj => ?_, .refl⟩
  rw [others j hj]
  exact none j

theorem owner (h : Guarded access begins inside committed memory) {i : ι} {l : τ}
    (hi : inside i = some l) :
    ∃ first, begins i first ∧ (∀ j, j ≠ i → inside j = none) ∧
      Relation.ReflTransGen (Stays access) (first, committed) (l, memory) := by
  rcases h with ⟨-, hnone⟩ | ⟨j, first, l', hfirst, hj, hothers, hreach⟩
  · rw [hnone i] at hi
    cases hi
  · by_cases hij : i = j
    · subst hij
      cases hi.symm.trans hj
      exact ⟨first, hfirst, hothers, hreach⟩
    · rw [hothers i hij] at hi
      cases hi

theorem stay (h : Guarded access begins inside committed memory) {i : ι} {l l' : τ}
    {c : κ} (hi : inside i = some l) (ran : access c l memory = (.stays l', memory'))
    (hi' : inside' i = some l') (others : ∀ j, j ≠ i → inside' j = inside j)
    (kept : ∀ first, begins i first → begins' i first) :
    Guarded access begins' inside' committed memory' := by
  obtain ⟨first, hfirst, hothers, hreach⟩ := h.owner hi
  refine .inr ⟨i, first, l', kept first hfirst, hi', fun j hj => ?_, hreach.tail ⟨c, ran⟩⟩
  rw [others j hj]
  exact hothers j hj

theorem leave (h : Guarded access begins inside committed memory) {i : ι} {l : τ}
    {c : κ} {r : ρ} (hi : inside i = some l)
    (ran : access c l memory = (.leaves r, memory')) (hi' : inside' i = none)
    (others : ∀ j, j ≠ i → inside' j = inside j) :
    (∃ first, begins i first ∧ Ends access first committed r memory') ∧
      Guarded access begins' inside' memory' memory' := by
  obtain ⟨first, hfirst, hothers, hreach⟩ := h.owner hi
  refine ⟨⟨first, hfirst, c, l, memory, hreach, ran⟩, .init fun j => ?_⟩
  by_cases hj : j = i
  · rw [hj]
    exact hi'
  · rw [others j hj]
    exact hothers j hj

end Guarded

end MyDrivers.Lib
