import Mathlib.Tactic.Common
import Mathlib.Data.Nat.ModEq

/-! The integer conversions of C on an LP64 machine. Values are mathematical
integers; each conversion is the wrap-around of the target type. Division and
remainder are `Int.tdiv` and `Int.tmod`, which truncate towards zero as C does. -/
namespace MyDrivers.Lib.Machine

/-- The value an `int` holds after an assignment. The conversions are
irreducible: a proof that unfolded them would compute with their constants. -/
@[irreducible] def int32 (x : Int) : Int := (x + 2147483648) % 4294967296 - 2147483648

@[irreducible] def int64 (x : Int) : Int :=
  (x + 9223372036854775808) % 18446744073709551616 - 9223372036854775808

@[irreducible] def uint32 (x : Int) : Nat := (x % 4294967296).toNat

/-- The value of a signed operand converted to `size_t`. -/
@[irreducible] def uint64 (x : Int) : Nat := (x % 18446744073709551616).toNat

theorem int32_bounds (x : Int) : -2147483648 ≤ int32 x ∧ int32 x < 2147483648 := by
  unfold int32
  omega

theorem int32_eq_self {x : Int} (lower : -2147483648 ≤ x) (upper : x < 2147483648) :
    int32 x = x := by
  unfold int32
  omega

@[simp] theorem int32_zero : int32 0 = 0 := int32_eq_self (by omega) (by omega)

theorem int32_eq_zero_iff (x : Int) : int32 x = 0 ↔ x % 4294967296 = 0 := by
  unfold int32
  omega

theorem int32_abs_le {x : Int} (h : 0 ≤ x) : -x ≤ int32 x ∧ int32 x ≤ x := by
  unfold int32
  omega

theorem int64_eq_self {x : Int} (lower : -9223372036854775808 ≤ x)
    (upper : x < 9223372036854775808) : int64 x = x := by
  unfold int64
  omega

theorem int64_bounds (x : Int) :
    -9223372036854775808 ≤ int64 x ∧ int64 x < 9223372036854775808 := by
  unfold int64
  omega

theorem int64_overflow {x : Int} (low : 9223372036854775808 ≤ x)
    (high : x < 18446744073709551616) : int64 x < 0 := by
  unfold int64
  omega

theorem uint64_eq_toNat {x : Int} (lower : 0 ≤ x) (upper : x < 18446744073709551616) :
    uint64 x = x.toNat := by
  unfold uint64
  rw [Int.emod_eq_of_lt lower upper]

theorem uint64_of_neg {x : Int} (lower : -9223372036854775808 ≤ x) (upper : x < 0) :
    9223372036854775808 ≤ uint64 x := by
  unfold uint64
  omega

theorem uint64_natCast {n : Nat} (upper : n < 18446744073709551616) : uint64 n = n := by
  rw [uint64_eq_toNat (Int.natCast_nonneg n) (by exact_mod_cast upper), Int.toNat_natCast]

theorem uint32_natCast {n : Nat} (upper : n < 4294967296) : uint32 n = n := by
  unfold uint32
  omega

theorem uint32_eq (x : Int) : (uint32 x : Int) = x % 4294967296 := by
  unfold uint32
  omega

/-! ## Splitting an offset by two block sizes -/

section Split
variable {width rows : Nat}

theorem row_lt (hwidth : 0 < width) (hrows : 0 < rows) (x : Nat) :
    x % (width * rows) / width < rows := by
  rw [Nat.div_lt_iff_lt_mul hwidth, Nat.mul_comm rows]
  exact Nat.mod_lt _ (Nat.mul_pos hwidth hrows)

theorem mod_mod_width (width rows x : Nat) : x % (width * rows) % width = x % width :=
  Nat.mod_mul_right_mod x width rows

theorem join_split (width rows x : Nat) :
    x / (width * rows) * (width * rows) + (x % (width * rows) / width * width + x % width) = x := by
  have column : x % (width * rows) % width = x % width :=
    mod_mod_width width rows x
  have inner := Nat.div_add_mod' (x % (width * rows)) width
  have outer := Nat.div_add_mod' x (width * rows)
  rw [column] at inner
  rw [inner, outer]

theorem split_add {x k : Nat} (hwidth : 0 < width) (hrows : 0 < rows)
    (inside : x % width + k < width) :
    (x + k) / (width * rows) = x / (width * rows) ∧
      (x + k) % (width * rows) / width = x % (width * rows) / width ∧
      (x + k) % width = x % width + k := by
  have hx := join_split width rows x
  have hrow : x % (width * rows) / width < rows := row_lt hwidth hrows x
  set item := x / (width * rows) with hitem
  set row := x % (width * rows) / width with hrowdef
  set column := x % width with hcolumn
  have hoffset : row * width + (column + k) < width * rows := by
    calc row * width + (column + k) < row * width + width := by omega
      _ = (row + 1) * width := (Nat.succ_mul row width).symm
      _ ≤ rows * width := Nat.mul_le_mul_right _ hrow
      _ = width * rows := Nat.mul_comm _ _
  have hsum : x + k = row * width + (column + k) + item * (width * rows) := by omega
  have hrest : (x + k) % (width * rows) = row * width + (column + k) := by
    rw [hsum, Nat.add_mul_mod_self_right, Nat.mod_eq_of_lt hoffset]
  refine ⟨?_, ?_, ?_⟩
  · rw [hsum, Nat.add_mul_div_right _ _ (Nat.mul_pos hwidth hrows), Nat.div_eq_of_lt hoffset,
      Nat.zero_add]
  · rw [hrest, Nat.add_comm, Nat.add_mul_div_right _ _ hwidth, Nat.div_eq_of_lt inside,
      Nat.zero_add]
  · rw [← mod_mod_width width rows (x + k), hrest, Nat.add_comm, Nat.add_mul_mod_self_right,
      Nat.mod_eq_of_lt inside]

end Split

end MyDrivers.Lib.Machine
