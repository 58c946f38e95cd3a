import Mathlib.Algebra.Order.Ring.Nat
import Mathlib.Data.Int.Basic
import Mathlib.Data.Nat.Find
import Mathlib.Order.Monotone.Basic
import Mathlib.Tactic.Common

/-! A clock of `w` bits that starts over when it has counted up, and loops that wait by
it. Two of its values are compared by the sign of their difference, which is right while
the true times are at most half a turn apart. -/
namespace MyDrivers.Lib.Clock

variable {w : Nat}

def shown (w ticks : Nat) : BitVec w := BitVec.ofNat w ticks

def before (a b : BitVec w) : Bool := (a - b).slt 0#w

def left (timeout start now : BitVec w) : BitVec w :=
  let rest := start + timeout - now
  if rest.slt 0#w then 0#w else rest

/-- Reads the clock until it does not show a time before the deadline: the index after
the last reading. -/
def spin (clock : Nat → BitVec w) (deadline : BitVec w) : Nat → Nat → Option Nat
  | _, 0 => none
  | k, fuel + 1 =>
      if before (clock k) deadline then spin clock deadline (k + 1) fuel else some (k + 1)

/-- Sleeps for what is left of a timeout, again and again, until nothing is left or a
signal is there. A sleep begins at reading `k` and ends at the next one; `rest timeout k` is
what it reports to be left. -/
def sleep (rest : BitVec w → Nat → BitVec w) (signal : Nat → Bool) :
    BitVec w → Nat → Nat → Option Nat
  | _, _, 0 => none
  | timeout, k, fuel + 1 =>
      if timeout = 0#w || signal k then some k
      else sleep rest signal (rest timeout k) (k + 2) fuel

/-- The ticks in so many sleeps, the first of which begins at reading `k`. -/
def slept (ticks : Nat → Nat) (k : Nat) : Nat → Nat
  | 0 => 0
  | n + 1 => ticks (k + 1) - ticks k + slept ticks (k + 2) n

structure Watched (w : Nat) (ticks : Nat → Nat) : Prop where
  mono : Monotone ticks
  near : ∀ k, ticks (k + 1) < ticks k + 2 ^ (w - 1)

section Comparison
variable {s t : Nat}

theorem shown_eq_zero_iff (h : t < 2 ^ w) : shown w t = 0#w ↔ t = 0 := by
  rw [← BitVec.toNat_inj, shown, BitVec.toNat_ofNat, Nat.mod_eq_of_lt h]
  rfl

theorem toNat_sub_shown (le : s ≤ t) (near : t - s < 2 ^ w) :
    (shown w t - shown w s).toNat = t - s := by
  have hsum : shown w t = shown w (t - s) + shown w s := by
    rw [shown, shown, shown, ← BitVec.ofNat_add, Nat.sub_add_cancel le]
  rw [hsum, BitVec.add_sub_cancel, shown, BitVec.toNat_ofNat, Nat.mod_eq_of_lt near]

variable [NeZero w]

theorem half : 2 ^ w = 2 ^ (w - 1) + 2 ^ (w - 1) := by
  have hpos : 0 < w := Nat.pos_of_ne_zero (NeZero.ne w)
  rw [← Nat.mul_two, ← Nat.pow_succ, Nat.succ_eq_add_one, Nat.sub_add_cancel hpos]

theorem toInt_sub_shown (near : t < s + 2 ^ (w - 1)) (near' : s ≤ t + 2 ^ (w - 1)) :
    (shown w t - shown w s).toInt = (t : Int) - s := by
  have hhalf := @half w _
  rw [BitVec.toInt_sub, shown, shown, ← BitVec.ofInt_natCast, ← BitVec.ofInt_natCast,
    BitVec.toInt_ofInt, BitVec.toInt_ofInt, Int.bmod_sub_bmod, Int.sub_bmod_bmod]
  rw [hhalf]
  generalize 2 ^ (w - 1) = turn at near near'
  apply Int.bmod_eq_of_le_mul_two <;> omega

theorem before_iff (near : t < s + 2 ^ (w - 1)) (near' : s ≤ t + 2 ^ (w - 1)) :
    before (shown w t) (shown w s) = true ↔ t < s := by
  rw [before, BitVec.slt_iff_toInt_lt, toInt_sub_shown near near', BitVec.toInt_zero]
  omega

theorem left_shown {d : Nat} (le : s ≤ t) (near : t < s + 2 ^ (w - 1)) (short : d < 2 ^ (w - 1)) :
    left (shown w d) (shown w s) (shown w t) = shown w (d - (t - s)) := by
  have hsum : shown w s + shown w d = shown w (s + d) := (BitVec.ofNat_add s d).symm
  have hrest : (shown w (s + d) - shown w t).toInt = ((s + d : Nat) : Int) - t := by
    apply toInt_sub_shown <;> omega
  have hneg : (shown w (s + d) - shown w t).slt 0#w = true ↔ s + d < t := by
    rw [BitVec.slt_iff_toInt_lt, hrest, BitVec.toInt_zero]
    omega
  rw [left, hsum]
  by_cases hover : s + d < t
  · rw [if_pos (hneg.mpr hover), show d - (t - s) = 0 by omega]
    rfl
  · rw [if_neg (fun h => hover (hneg.mp h))]
    apply BitVec.eq_of_toInt_eq
    have hsmall : shown w (d - (t - s)) = shown w (d - (t - s)) - shown w 0 := by
      simp [shown]
    rw [hrest, hsmall, toInt_sub_shown] <;> omega

end Comparison

section Loops
variable [NeZero w] {ticks : Nat → Nat}

theorem spin_eq {deadline n : Nat} (watched : Watched w ticks) (late : deadline ≤ ticks n)
    (early : ∀ k, k < n → ticks k < deadline) (near : deadline ≤ ticks 0 + 2 ^ (w - 1))
    {k fuel : Nat} (pos : 0 < k) (hk : k ≤ n) (enough : n < k + fuel) :
    spin (fun k => shown w (ticks k)) (shown w deadline) k fuel = some (n + 1) := by
  induction fuel generalizing k with
  | zero => omega
  | succ fuel ih =>
    have hfirst := watched.mono (Nat.zero_le k)
    have hprevious := early (k - 1) (by omega)
    have hgap := watched.near (k - 1)
    rw [Nat.sub_add_cancel pos] at hgap
    have hbefore : before (shown w (ticks k)) (shown w deadline) = true ↔ ticks k < deadline :=
      before_iff (by omega) (by omega)
    unfold spin
    by_cases hn : k = n
    · subst hn
      rw [if_neg (by rw [hbefore]; omega)]
    · rw [if_pos (hbefore.mpr (early k (by omega)))]
      exact ih (by omega) (by omega) (by omega)

theorem spin_ends {deadline n fuel : Nat} (watched : Watched w ticks) (soon : ticks 0 < deadline)
    (near : deadline ≤ ticks 0 + 2 ^ (w - 1)) (late : deadline ≤ ticks n) (enough : n ≤ fuel) :
    ∃ k, spin (fun k => shown w (ticks k)) (shown w deadline) 1 fuel = some (k + 1) ∧
      deadline ≤ ticks k ∧ ∀ j, j < k → ticks j < deadline := by
  have hlate : ∃ n, deadline ≤ ticks n := ⟨n, late⟩
  have hfirst : 0 < Nat.find hlate := by
    rw [Nat.find_pos]
    omega
  have hlast : Nat.find hlate ≤ n := Nat.find_le late
  have hearly (j : Nat) (hj : j < Nat.find hlate) : ticks j < deadline :=
    not_le.mp (Nat.find_min hlate hj)
  refine ⟨Nat.find hlate, ?_, Nat.find_spec hlate, hearly⟩
  exact spin_eq watched (Nat.find_spec hlate) hearly near Nat.one_pos hfirst (by omega)

theorem slept_le (mono : Monotone ticks) (k n : Nat) : ticks k + slept ticks k n ≤ ticks (k + 2 * n) := by
  induction n generalizing k with
  | zero => exact Nat.le_refl _
  | succ n ih =>
    have hrest := ih (k + 2)
    have hsleep : ticks k ≤ ticks (k + 1) := mono (Nat.le_succ k)
    have hwake : ticks (k + 1) ≤ ticks (k + 2) := mono (Nat.le_succ (k + 1))
    rw [slept, show k + 2 * (n + 1) = k + 2 + 2 * n by omega]
    omega

theorem sleep_ends (watched : Watched w ticks) {rest : BitVec w → Nat → BitVec w}
    (rests : ∀ timeout k, rest timeout k =
      left timeout (shown w (ticks k)) (shown w (ticks (k + 1))))
    (signal : Nat → Bool) {d k n fuel : Nat} (short : d < 2 ^ (w - 1))
    (late : d ≤ slept ticks k n) (enough : n < fuel) :
    ∃ m, sleep rest signal (shown w d) k fuel = some (k + 2 * m) ∧
      (d ≤ slept ticks k m ∨ signal (k + 2 * m) = true) := by
  induction fuel generalizing d k n with
  | zero => omega
  | succ fuel ih =>
    have hhalf := @half w _
    have hzero : shown w d = 0#w ↔ d = 0 := shown_eq_zero_iff (by omega)
    unfold sleep
    by_cases hdone : d = 0 ∨ signal k = true
    · refine ⟨0, if_pos ?_, ?_⟩
      · simpa [hzero] using hdone
      · apply hdone.imp_left
        omega
    · rw [not_or] at hdone
      have hfar : ¬ (shown w d = 0#w || signal k) = true := by simpa [hzero] using hdone
      rw [if_neg hfar, rests, left_shown (watched.mono (Nat.le_succ k)) (watched.near k) short]
      cases n with
      | zero =>
        rw [slept] at late
        omega
      | succ n =>
        rw [slept] at late
        obtain ⟨m, hm, hends⟩ :=
          ih (d := d - (ticks (k + 1) - ticks k)) (k := k + 2) (n := n) (by omega) (by omega) (by omega)
        refine ⟨m + 1, ?_, ?_⟩
        · rw [hm]
          congr 1
          omega
        · rw [slept, show k + 2 * (m + 1) = k + 2 + 2 * m by omega]
          apply hends.imp_left
          omega

end Loops

end MyDrivers.Lib.Clock
