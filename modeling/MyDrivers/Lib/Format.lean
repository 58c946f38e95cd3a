import Mathlib.Algebra.Ring.Nat
import Mathlib.Data.Nat.Log
import Mathlib.Tactic.Common

/-! The text that `sprintf` makes of a format and its arguments, and how long it is.
A format is the list of its pieces; each conversion stands with its argument. -/
namespace MyDrivers.Lib.Format

inductive Piece where
  | lit (text : String)
  /-- `%*d`, filled with blanks. -/
  | int (width : Nat) (x : Int)
  /-- `%0*d`, filled with zeros after the sign. -/
  | zeroInt (width : Nat) (x : Int)
  /-- `%0*x`. -/
  | hex (width : Nat) (n : Nat)
  | str (text : List Char)

def sign (x : Int) : List Char := if x < 0 then ['-'] else []

def fill (c : Char) (width : Nat) (text : List Char) : List Char :=
  List.replicate (width - text.length) c ++ text

def Piece.render : Piece → List Char
  | .lit text => text.toList
  | .int width x => fill ' ' width (sign x ++ Nat.toDigits 10 x.natAbs)
  | .zeroInt width x =>
      sign x ++ fill '0' (width - (sign x).length) (Nat.toDigits 10 x.natAbs)
  | .hex width n => fill '0' width (Nat.toDigits 16 n)
  | .str text => text

def sprintf (format : List Piece) : List Char := format.flatMap Piece.render

/-- The length of a C string: what lies before its first NUL. -/
def strlen (text : List Char) : Nat := (text.takeWhile (· ≠ '\x00')).length

/-! ## Lengths -/

def digits (base n : Nat) : Nat := Nat.log base n + 1

def intWidth (x : Int) : Nat := (if x < 0 then 1 else 0) + digits 10 x.natAbs

def Piece.width : Piece → Nat
  | .lit text => text.length
  | .int width x => max width (intWidth x)
  | .zeroInt width x => max width (intWidth x)
  | .hex width n => max width (digits 16 n)
  | .str text => text.length

def width (format : List Piece) : Nat := (format.map Piece.width).sum

theorem width_lit (text : String) : (Piece.lit text).width = text.length := rfl

theorem width_str (text : List Char) : (Piece.str text).width = text.length := rfl

theorem width_int (w : Nat) (x : Int) : (Piece.int w x).width = max w (intWidth x) := rfl

theorem width_zeroInt (w : Nat) (x : Int) : (Piece.zeroInt w x).width = max w (intWidth x) := rfl

theorem width_hex (w n : Nat) : (Piece.hex w n).width = max w (digits 16 n) := rfl

@[simp] theorem width_nil : width [] = 0 := rfl

@[simp] theorem width_cons (piece : Piece) (format : List Piece) :
    width (piece :: format) = piece.width + width format := by
  rw [width, List.map_cons, List.sum_cons, width]

theorem digits_le_iff {base n k : Nat} (hbase : 1 < base) (hk : 0 < k) :
    digits base n ≤ k ↔ n < base ^ k := by
  rw [digits, Nat.succ_le_iff]
  by_cases hn : n = 0
  · subst hn
    rw [Nat.log_zero_right]
    exact iff_of_true hk (Nat.pow_pos (by omega))
  · exact Nat.log_lt_iff_lt_pow hbase hn

theorem length_toDigits {base : Nat} (hbase : 1 < base) (n : Nat) :
    (Nat.toDigits base n).length = digits base n := by
  have hiff (k : Nat) (hk : 0 < k) : (Nat.toDigits base n).length ≤ k ↔ digits base n ≤ k := by
    rw [Nat.length_toDigits_le_iff hbase hk, digits_le_iff hbase hk]
  apply le_antisymm
  · exact (hiff _ (Nat.succ_pos _)).mpr le_rfl
  · exact (hiff _ Nat.length_toDigits_pos).mp le_rfl

theorem length_sign (x : Int) : (sign x).length = if x < 0 then 1 else 0 := by
  unfold sign
  split <;> rfl

theorem length_fill (c : Char) (width : Nat) (text : List Char) :
    (fill c width text).length = max width text.length := by
  simp only [fill, List.length_append, List.length_replicate]
  omega

theorem length_render (piece : Piece) : piece.render.length = piece.width := by
  cases piece with
  | lit text => exact String.length_toList
  | int width x =>
    rw [Piece.render, length_fill, List.length_append, length_sign, length_toDigits (by decide)]
    rfl
  | zeroInt width x =>
    rw [Piece.render, List.length_append, length_fill, length_sign, length_toDigits (by decide),
      Piece.width, intWidth]
    omega
  | hex width n =>
    rw [Piece.render, length_fill, length_toDigits (by decide)]
    rfl
  | str text => rfl

theorem length_sprintf (format : List Piece) : (sprintf format).length = width format := by
  rw [sprintf, List.length_flatMap, width]
  congr 1
  apply List.map_congr_left
  intro piece _
  exact length_render piece

/-! ## Bounds -/

theorem intWidth_pos (x : Int) : 0 < intWidth x := by
  unfold intWidth digits
  omega

theorem intWidth_natCast (n : Nat) : intWidth n = digits 10 n := by
  simp [intWidth]

theorem intWidth_le {x : Int} {k : Nat} (hk : 0 < k) (h : x.natAbs < 10 ^ k) :
    intWidth x ≤ k + 1 := by
  have hdigits := (@digits_le_iff 10 x.natAbs k (by decide) hk).mpr h
  unfold intWidth
  split <;> omega

theorem intWidth_le_int {x : Int} (lower : -2147483648 ≤ x) (upper : x < 2147483648) :
    intWidth x ≤ 11 := by
  apply intWidth_le (by decide)
  omega

theorem intWidth_le_long {x : Int} (lower : -9223372036854775808 ≤ x)
    (upper : x < 9223372036854775808) : intWidth x ≤ 20 := by
  apply intWidth_le (by decide)
  omega

theorem hexDigits_le {n : Nat} (h : n < 18446744073709551616) : digits 16 n ≤ 16 :=
  (digits_le_iff (by decide) (by decide)).mpr h

/-! ## Strings -/

section Strings
variable {text : List Char}

/-- No character of the text ends a C string. -/
def Unended (text : List Char) : Prop := ∀ c ∈ text, c ≠ '\x00'

theorem strlen_eq (h : Unended text) (rest : List Char) :
    strlen (text ++ '\x00' :: rest) = text.length := by
  have hall : ∀ c ∈ text, decide (c ≠ '\x00') = true := by
    intro c hc
    simpa using h c hc
  rw [strlen, List.takeWhile_append_of_pos hall]
  simp

theorem unended_append {rest : List Char} (h : Unended text) (hrest : Unended rest) :
    Unended (text ++ rest) := by
  intro c hc
  rcases List.mem_append.mp hc with hc | hc
  · exact h c hc
  · exact hrest c hc

theorem digitChar_ne (d : Nat) : Nat.digitChar d ≠ '\x00' := by
  by_cases hd : d < 16
  · have hall : ∀ d < 16, Nat.digitChar d ≠ '\x00' := by decide
    exact hall d hd
  · rw [Nat.digitChar_eq_star.mpr (by omega)]
    decide

theorem unended_toDigits {base : Nat} (hbase : 1 < base) (n : Nat) :
    Unended (Nat.toDigits base n) := by
  have hdigit (d : Nat) : Unended [Nat.digitChar d] := by
    intro c hc
    rw [List.mem_singleton.mp hc]
    exact digitChar_ne d
  induction n using Nat.strong_induction_on with
  | _ n ih =>
    rw [Nat.toDigits_eq_if hbase]
    split
    · exact hdigit n
    · next hle =>
      exact unended_append (ih _ (Nat.div_lt_self (by omega) hbase)) (hdigit _)

theorem unended_sign (x : Int) : Unended (sign x) := by
  unfold sign
  split
  · intro c hc
    rw [List.mem_singleton.mp hc]
    decide
  · exact nofun

theorem unended_fill {c : Char} (hc : c ≠ '\x00') (width : Nat) (h : Unended text) :
    Unended (fill c width text) := by
  apply unended_append _ h
  intro d hd
  rw [List.eq_of_mem_replicate hd]
  exact hc

def Piece.Unended : Piece → Prop
  | .lit text => Format.Unended text.toList
  | .str text => Format.Unended text
  | _ => True

theorem unended_render {piece : Piece} (h : piece.Unended) : Unended piece.render := by
  have hblank : ' ' ≠ '\x00' := by decide
  have hzero : '0' ≠ '\x00' := by decide
  cases piece with
  | lit text => exact h
  | int width x =>
    exact unended_fill hblank _ (unended_append (unended_sign x) (unended_toDigits (by decide) _))
  | zeroInt width x =>
    exact unended_append (unended_sign x) (unended_fill hzero _ (unended_toDigits (by decide) _))
  | hex width n => exact unended_fill hzero _ (unended_toDigits (by decide) _)
  | str text => exact h

theorem unended_sprintf {format : List Piece} (h : ∀ piece ∈ format, piece.Unended) :
    Unended (sprintf format) := by
  intro c hc
  obtain ⟨piece, hpiece, hmem⟩ := List.mem_flatMap.mp hc
  exact unended_render (h piece hpiece) c hmem

end Strings

end MyDrivers.Lib.Format
