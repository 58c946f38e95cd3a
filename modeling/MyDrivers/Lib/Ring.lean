import Mathlib.Data.List.Range
import Mathlib.Tactic.Common

/-! Cyclic buffers with one slot left free: `first` is the next slot to be read
and `last` the next one to be written, so that the two are equal exactly when
the buffer is empty. Positions wrap at most once. -/
namespace MyDrivers.Lib.Ring

variable {α : Type}

def slot (size first k : Nat) : Nat :=
  if first + k < size then first + k else first + k - size

def held (size first last : Nat) : Nat :=
  if first ≤ last then last - first else size - first + last

def contents (cell : Nat → α) (size first last : Nat) : List α :=
  (List.range (held size first last)).map fun k => cell (slot size first k)

/-- The cells after `values` has been copied to `start`. -/
def paste (cell : Nat → α) (start : Nat) (values : List α) : Nat → α :=
  fun k => if k < start then cell k else (values[k - start]?).getD (cell k)

section Positions
variable {size first last : Nat}

theorem slot_lt (hfirst : first < size) {k : Nat} (hk : k < size) : slot size first k < size := by
  unfold slot
  split <;> omega

theorem slot_of_lt {k : Nat} (h : first + k < size) : slot size first k = first + k := if_pos h

theorem slot_of_eq {k : Nat} (h : first + k = size) : slot size first k = 0 := by
  unfold slot
  split <;> omega

theorem held_lt (hfirst : first < size) (hlast : last < size) : held size first last < size := by
  unfold held
  split <;> omega

@[simp] theorem held_self (size first : Nat) : held size first first = 0 := by
  simp [held]

theorem slot_slot (hfirst : first < size) {m n : Nat} (h : m + n < size) :
    slot size (slot size first m) n = slot size first (m + n) := by
  unfold slot
  split <;> split <;> split <;> omega

theorem slot_held (hfirst : first < size) (hlast : last < size) :
    slot size first (held size first last) = last := by
  unfold slot held
  split <;> split <;> omega

theorem held_advance (hfirst : first < size) (hlast : last < size) {n : Nat}
    (h : n ≤ held size first last) :
    held size (slot size first n) last = held size first last - n := by
  revert h
  unfold held slot
  split <;> split <;> split <;> omega

theorem held_extend (hfirst : first < size) (hlast : last < size) {n : Nat}
    (h : held size first last + n < size) :
    held size first (slot size last n) = held size first last + n := by
  revert h
  unfold held slot
  split <;> split <;> split <;> omega

theorem slot_ne_free (hfirst : first < size) (hlast : last < size) {j k : Nat}
    (hk : k < held size first last) (hj : held size first last + j < size) :
    slot size first k ≠ slot size last j := by
  revert hk hj
  unfold held slot
  split <;> split <;> split <;> omega

end Positions

section Contents
variable {size first last : Nat} {cell : Nat → α}

@[simp] theorem length_contents (cell : Nat → α) (size first last : Nat) :
    (contents cell size first last).length = held size first last := by
  simp [contents]

@[simp] theorem contents_self (cell : Nat → α) (size first : Nat) :
    contents cell size first first = [] := by
  simp [contents]

theorem contents_congr {other : Nat → α}
    (agree : ∀ k, k < held size first last →
      other (slot size first k) = cell (slot size first k)) :
    contents other size first last = contents cell size first last := by
  unfold contents
  apply List.map_congr_left
  intro k hk
  exact agree k (List.mem_range.mp hk)

theorem contents_extend (hfirst : first < size) (hlast : last < size) {n : Nat}
    (h : held size first last + n < size) :
    contents cell size first (slot size last n) =
      contents cell size first last ++ (List.range n).map fun k => cell (slot size last k) := by
  unfold contents
  rw [held_extend hfirst hlast h, List.range_add, List.map_append, List.map_map]
  congr 1
  apply List.map_congr_left
  intro k hk
  have hk : k < n := List.mem_range.mp hk
  have hsum : held size first last + k < size := by omega
  have hjoin := slot_slot hfirst hsum
  rw [slot_held hfirst hlast] at hjoin
  simp [hjoin]

theorem contents_advance (hfirst : first < size) (hlast : last < size) {n : Nat}
    (h : n ≤ held size first last) :
    contents cell size first last =
      ((List.range n).map fun k => cell (slot size first k)) ++
        contents cell size (slot size first n) last := by
  have hheld := held_lt hfirst hlast
  have hn : n < size := by omega
  have hmid : slot size first n < size := slot_lt hfirst hn
  have hrest := held_advance hfirst hlast h
  have hend : slot size (slot size first n) (held size first last - n) = last := by
    rw [slot_slot hfirst (by omega), Nat.add_sub_cancel' h, slot_held hfirst hlast]
  unfold contents
  rw [hrest, ← Nat.add_sub_cancel' h, List.range_add, List.map_append, List.map_map,
    Nat.add_sub_cancel' h]
  congr 1
  apply List.map_congr_left
  intro k hk
  have hk : k < held size first last - n := List.mem_range.mp hk
  simp [slot_slot hfirst (show n + k < size by omega)]

end Contents

section Paste
variable {cell : Nat → α} {start : Nat} {values : List α}

theorem paste_of_lt {k : Nat} (h : k < start) : paste cell start values k = cell k := if_pos h

theorem paste_of_le {k : Nat} (h : start + values.length ≤ k) :
    paste cell start values k = cell k := by
  unfold paste
  split
  · rfl
  · rw [List.getElem?_eq_none (by omega)]
    rfl

theorem paste_at {k : Nat} (h : k < values.length) :
    paste cell start values (start + k) = values[k] := by
  have hnot : ¬ start + k < start := by omega
  simp [paste, hnot, h]

theorem range_map_paste :
    (List.range values.length).map (fun k => paste cell start values (start + k)) = values := by
  apply List.ext_getElem
  · simp
  · intro k hleft hright
    simp [paste_at hright]

@[simp] theorem paste_nil (cell : Nat → α) (start : Nat) : paste cell start [] = cell := by
  funext k
  simp [paste]

theorem paste_append (cell : Nat → α) (start : Nat) (first second : List α) :
    paste cell start (first ++ second) = paste (paste cell start first) (start + first.length) second := by
  funext k
  unfold paste
  by_cases hbelow : k < start
  · rw [if_pos hbelow, if_pos (by omega), if_pos hbelow]
  · rw [if_neg hbelow, if_neg hbelow]
    by_cases hfirst : k < start + first.length
    · rw [if_pos hfirst, List.getElem?_append_left (by omega)]
    · rw [if_neg hfirst, List.getElem?_append_right (by omega),
        List.getElem?_eq_none (show first.length ≤ k - start by omega), Option.getD_none, Nat.sub_sub]

theorem paste_shift (cell : Nat → α) (base start : Nat) (values : List α) (k : Nat) :
    paste cell (base + start) values (base + k) =
      paste (fun j => cell (base + j)) start values k := by
  unfold paste
  have hlt : base + k < base + start ↔ k < start := by omega
  have hsub : base + k - (base + start) = k - start := by omega
  simp only [hlt, hsub]

variable {size first last : Nat}

theorem contents_paste (hfirst : first < size) (hlast : last < size)
    (flat : last + values.length ≤ size)
    (room : held size first last + values.length < size) :
    contents (paste cell last values) size first last = contents cell size first last := by
  apply contents_congr
  intro k hk
  by_cases hbelow : slot size first k < last
  · exact paste_of_lt hbelow
  · apply paste_of_le
    by_contra hinside
    -- a slot inside the pasted range is a free one
    have hj : slot size first k - last < values.length := by omega
    have hfree := slot_ne_free hfirst hlast hk
      (show held size first last + (slot size first k - last) < size by omega)
    rw [slot_of_lt (show last + (slot size first k - last) < size by omega)] at hfree
    omega

theorem contents_append (hfirst : first < size) (hlast : last < size)
    (flat : last + values.length ≤ size)
    (room : held size first last + values.length < size) :
    contents (paste cell last values) size first (slot size last values.length) =
      contents cell size first last ++ values := by
  rw [contents_extend hfirst hlast room, contents_paste hfirst hlast flat room]
  congr 1
  calc (List.range values.length).map (fun k => paste cell last values (slot size last k))
      = (List.range values.length).map (fun k => paste cell last values (last + k)) := by
        apply List.map_congr_left
        intro k hk
        have hk : k < values.length := List.mem_range.mp hk
        rw [slot_of_lt (show last + k < size by omega)]
    _ = values := range_map_paste

end Paste

end MyDrivers.Lib.Ring
