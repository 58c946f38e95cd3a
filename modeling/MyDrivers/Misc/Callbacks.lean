import MyDrivers.Lib.Format
import MyDrivers.Store.Device

/-! What the modules `jit` and `jiq` share: the lines their callbacks print, and the
end of a read. A callback looks at the clock and at the task it interrupts. -/
namespace MyDrivers.Misc
open Lib Lib.Format
open Store (EFAULT)

/-- `current->comm`: `TASK_COMM_LEN` bytes with the NUL. -/
structure Comm where
  text : List Char
  short : text.length ≤ 15
  unended : Unended text

structure Seen where
  jiffies : UInt64
  inInterrupt : Bool
  pid : Int32
  cpu : Int32
  comm : Comm

/-- `%*li` of an `unsigned long`. -/
def long (width : Nat) (x : UInt64) : Piece := .int width x.toInt64.toInt

/-- `%*i`. -/
def int (width : Nat) (x : Int32) : Piece := .int width x.toInt

/-- `in_interrupt() ? 1 : 0`. -/
def flag (b : Bool) : Piece := .int 0 (if b then 1 else 0)

/-- What a user asks for, and what becomes of it: `accessible` bytes of the buffer can
be written, and `junk` is what the memory after a text holds. -/
structure Request where
  kmalloc : Bool
  count : Nat
  ppos : Int
  accessible : Nat
  junk : List Char

/-- What a read has done: the size of `sbuf`, the text it made there, the bytes that
were copied to the user's buffer, the value it returns and `*ppos` afterwards. -/
structure Outcome where
  allocated : Nat
  text : Option (List Char)
  copied : Nat
  ret : Int
  pos : Int

def Request.nothing (request : Request) (allocated : Nat) : Outcome :=
  ⟨allocated, none, 0, 0, request.ppos⟩

/-- `copy_to_user(buffer, sbuf, len)` and what comes of it. -/
def Request.copyOut (request : Request) (allocated : Nat) (text : List Char) (len : Nat)
    (pos : Int) : Outcome :=
  if request.accessible < len then
    ⟨allocated, some text, request.accessible, -EFAULT, request.ppos⟩
  else ⟨allocated, some text, len, len, pos⟩

/-- Callbacks one after the other until one does not go on; with a bound on them. -/
def rounds {σ : Type} (callback : σ → Seen → σ × Bool) (seen : Nat → Seen) :
    σ → Nat → Option σ
  | _, 0 => none
  | s, n + 1 =>
      let result := callback s (seen 0)
      if result.2 then rounds callback (fun i => seen (i + 1)) result.1 n else some result.1

def lines (line : UInt64 → Seen → List Piece) (prev : UInt64) (seen : Nat → Seen) :
    Nat → List Char
  | 0 => []
  | n + 1 =>
      sprintf (line prev (seen 0)) ++
        lines line (seen 0).jiffies (fun i => seen (i + 1)) n

def linesWidth (line : UInt64 → Seen → List Piece) (prev : UInt64) (seen : Nat → Seen) :
    Nat → Nat
  | 0 => 0
  | n + 1 =>
      width (line prev (seen 0)) +
        linesWidth line (seen 0).jiffies (fun i => seen (i + 1)) n

section Lines
variable {line : UInt64 → Seen → List Piece}

theorem length_lines (prev : UInt64) (seen : Nat → Seen) (n : Nat) :
    (lines line prev seen n).length = linesWidth line prev seen n := by
  induction n generalizing prev seen with
  | zero => rfl
  | succ n ih =>
    rw [lines, List.length_append, length_sprintf, ih]
    rfl

theorem linesWidth_le {bound : Nat} (hline : ∀ prev seen, width (line prev seen) ≤ bound)
    (prev : UInt64) (seen : Nat → Seen) (n : Nat) :
    linesWidth line prev seen n ≤ n * bound := by
  induction n generalizing prev seen with
  | zero => exact Nat.zero_le _
  | succ n ih =>
    have hhead := hline prev (seen 0)
    have hrest := ih (seen 0).jiffies fun i => seen (i + 1)
    rw [linesWidth, Nat.succ_mul]
    omega

theorem unended_lines (hline : ∀ prev seen, ∀ piece ∈ line prev seen, piece.Unended)
    (prev : UInt64) (seen : Nat → Seen) (n : Nat) : Unended (lines line prev seen n) := by
  induction n generalizing prev seen with
  | zero => exact nofun
  | succ n ih => exact unended_append (unended_sprintf (hline prev (seen 0))) (ih _ _)

end Lines

/-! ## Callbacks that count down -/

section Rounds
variable {σ : Type} {callback : σ → Seen → σ × Bool}

theorem rounds_invariant {inv : σ → Prop} (kept : ∀ s seen, inv s → inv (callback s seen).1)
    {seen : Nat → Seen} {s s' : σ} {n : Nat} (h : rounds callback seen s n = some s')
    (hs : inv s) : inv s' := by
  induction n generalizing s seen with
  | zero => cases h
  | succ n ih =>
    unfold rounds at h
    simp only at h
    split at h
    · exact ih h (kept s (seen 0) hs)
    · cases h
      exact kept s (seen 0) hs

structure Counts (callback : σ → Seen → σ × Bool) (line : UInt64 → Seen → List Piece)
    (left : σ → Nat) (prev : σ → UInt64) (text : σ → List Char) : Prop where
  prints : ∀ s seen, text (callback s seen).1 = text s ++ sprintf (line (prev s) seen)
  counts : ∀ s seen, 0 < left s → left (callback s seen).1 = left s - 1
  again : ∀ s seen, 0 < left s → ((callback s seen).2 = true ↔ 1 < left s)
  clock : ∀ s seen, (callback s seen).2 = true → prev (callback s seen).1 = seen.jiffies

theorem Counts.rounds {line : UInt64 → Seen → List Piece} {left : σ → Nat} {prev : σ → UInt64}
    {text : σ → List Char} (h : Counts callback line left prev text) (seen : Nat → Seen) (s : σ)
    (n : Nat) (hleft : left s = n + 1) :
    ∃ s', Misc.rounds callback seen s (n + 1) = some s' ∧
      text s' = text s ++ lines line (prev s) seen (n + 1) := by
  have hpos : 0 < left s := by omega
  have hagain := h.again s (seen 0) hpos
  have hprints := h.prints s (seen 0)
  induction n generalizing s seen with
  | zero =>
    have hstop : (callback s (seen 0)).2 = false := by
      rw [Bool.eq_false_iff, Ne, hagain]
      omega
    refine ⟨(callback s (seen 0)).1, ?_, ?_⟩
    · simp only [Misc.rounds, hstop, Bool.false_eq_true, if_false]
    · rw [hprints, lines, lines, List.append_nil]
  | succ n ih =>
    have hon : (callback s (seen 0)).2 = true := hagain.mpr (by omega)
    have hcounts : left (callback s (seen 0)).1 = n + 1 := by
      rw [h.counts s (seen 0) hpos, hleft]
      omega
    have hpos' : 0 < left (callback s (seen 0)).1 := by omega
    obtain ⟨s', hrun, htext⟩ := ih (fun i => seen (i + 1)) (callback s (seen 0)).1 hcounts hpos'
      (h.again _ _ hpos') (h.prints _ _)
    refine ⟨s', ?_, ?_⟩
    · rw [← hrun]
      exact if_pos hon
    · rw [htext, hprints, h.clock s (seen 0) hon, List.append_assoc]
      rfl

end Rounds

/-! ## Widths -/

theorem width_long_le (w : Nat) (x : UInt64) : (long w x).width ≤ max w 20 := by
  apply max_le_max le_rfl
  apply intWidth_le_long
  · exact x.toInt64.le_toInt
  · exact x.toInt64.toInt_lt

theorem width_int_le (w : Nat) (x : Int32) : (int w x).width ≤ max w 11 := by
  apply max_le_max le_rfl
  apply intWidth_le_int
  · exact x.le_toInt
  · exact x.toInt_lt

theorem width_flag (b : Bool) : (flag b).width = 1 := by
  have hzero : intWidth 0 = 1 := by simp [intWidth, digits]
  have hone : intWidth 1 = 1 := by simp [intWidth, digits]
  cases b <;> simp [flag, Piece.width, hzero, hone]

end MyDrivers.Misc
