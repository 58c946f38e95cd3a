import MyDrivers.Misc.Jiq
import MyDrivers.Misc.Jit

/-! The two buffers of a read: `sbuf`, which holds what is printed, and the user's. -/
namespace MyDrivers.Misc
open Lib Lib.Format Lib.Machine

/-- A read with all that it sees, callbacks included. -/
inductive Reading where
  | jitCurrent (j1 j2 : UInt64) (sec nsec : Int32)
  | jitDelay (j0 j1 : UInt64)
  | jitTimer (start : UInt64) (seen : Nat → Seen)
  | jitTasklet (first : Seen) (seen : Nat → Seen)
  | jiqWq (param : JiqFiles) (start : UInt64) (seen : Nat → Seen)

namespace Reading

def run (request : Request) : Reading → Option Outcome
  | .jitCurrent j1 j2 sec nsec => some (Misc.jitCurrent j1 j2 sec nsec request)
  | .jitDelay j0 j1 => some (Misc.jitDelay j0 j1 request)
  | .jitTimer start seen => Misc.jitTimer start seen request
  | .jitTasklet first seen => Misc.jitTasklet first seen request
  | .jiqWq param start seen => Misc.jiqWq param start seen request

def Prints (request : Request) : Reading → Prop
  | .jitCurrent _ _ _ _ => request.kmalloc ∧ request.ppos ≤ 0
  | .jitDelay _ _ => request.kmalloc ∧ uint64 request.ppos < request.count
  | .jitTimer _ _ => request.kmalloc
  | .jitTasklet _ _ => request.kmalloc
  | .jiqWq _ _ _ => request.kmalloc ∧ request.ppos ≤ 0

def size : Reading → Nat
  | .jitCurrent j1 j2 sec nsec => width (currentFormat j1 j2 sec nsec)
  | .jitDelay j0 j1 => width (delayFormat j0 j1)
  | .jitTimer start seen => width jitHeader + linesWidth jitLine start seen 10
  | .jitTasklet first seen =>
      width jitHeader + width (jitLine first.jiffies first) +
        linesWidth jitLine first.jiffies seen 10
  | .jiqWq _ start seen => width jiqHeader + linesWidth jiqLine start seen 5

/-- The clock of `jit_delay` is printed with at most 21 characters for both values. -/
def Short : Reading → Prop
  | .jitDelay j0 j1 => intWidth j0.toInt64.toInt + intWidth j1.toInt64.toInt ≤ 21
  | _ => True

/-- The user asks for all of it, or has no more memory than that. -/
def Fits (request : Request) (reading : Reading) : Prop :=
  reading.Prints request →
    reading.Short ∧ (reading.size ≤ request.count ∨ request.accessible ≤ request.count)

end Reading

/-- No more is printed than `sbuf` holds, and no more is copied than was asked for. -/
structure Respects (count : Nat) (outcome : Outcome) : Prop where
  sbuf : ∀ text, outcome.text = some text → text.length + 1 ≤ outcome.allocated
  user : outcome.copied ≤ count

/-! ## Widths -/

theorem width_currentFormat (j1 j2 : UInt64) (sec nsec : Int32) :
    width (currentFormat j1 j2 sec nsec) ≤ 102 := by
  have hj1 := hexDigits_le j1.toNat_lt
  have hj2 := hexDigits_le j2.toNat_lt
  have hsec := width_int_le 40 sec
  have hnsec := intWidth_le_int nsec.le_toInt nsec.toInt_lt
  have hlits : "j1 = 0x".length = 7 ∧ ", j2 = 0x".length = 9 ∧ " ".length = 1 ∧ "\n".length = 1 := by
    decide
  simp only [currentFormat, width_cons, width_nil, width_lit, width_hex, width_zeroInt, hlits]
  omega

theorem width_line {jiffies elapsed : UInt64} {seen : Seen} {w w' : Nat} (hw : w ≤ 20) (hw' : w' ≤ 11) :
    (long 0 jiffies).width + (long w elapsed).width + (flag seen.inInterrupt).width +
      (int w' seen.pid).width + (int 0 seen.cpu).width + (Piece.str seen.comm.text).width ≤ 78 := by
  have hjiffies := width_long_le 0 jiffies
  have helapsed := width_long_le w elapsed
  have hflag := width_flag seen.inInterrupt
  have hpid := width_int_le w' seen.pid
  have hcpu := width_int_le 0 seen.cpu
  have hcomm := seen.comm.short
  rw [width_str]
  omega

theorem width_jitLine (prev : UInt64) (seen : Seen) : width (jitLine prev seen) ≤ 94 := by
  have hline := @width_line seen.jiffies (seen.jiffies - prev) seen 4 6 (by decide) (by decide)
  have hlits : "  ".length = 2 ∧ "   ".length = 3 ∧ "    ".length = 4 ∧ "\n".length = 1 := by
    decide
  simp only [jitLine, width_cons, width_nil, width_lit, hlits]
  omega

theorem width_jiqLine (prev : UInt64) (seen : Seen) : width (jiqLine prev seen) ≤ 93 := by
  have hline := @width_line seen.jiffies (seen.jiffies - prev) seen 0 0 (by decide) (by decide)
  have hlits : "  ".length = 2 ∧ "   ".length = 3 ∧ "\n".length = 1 := by decide
  simp only [jiqLine, width_cons, width_nil, width_lit, hlits]
  omega

theorem width_jitHeader : width jitHeader = 58 := by
  decide

theorem width_jiqHeader : width jiqHeader = 48 := by
  decide

/-! ## What becomes of the read -/

theorem respects_nothing (request : Request) (allocated : Nat) :
    Respects request.count (request.nothing allocated) := by
  constructor
  · intro text htext
    cases htext
  · exact Nat.zero_le _

theorem respects_copyOut (request : Request) {allocated : Nat} {text : List Char} {pos : Int} :
    Respects request.count (request.copyOut allocated text text.length pos) ↔
      text.length + 1 ≤ allocated ∧
        (text.length ≤ request.count ∨ request.accessible ≤ request.count) := by
  unfold Request.copyOut
  constructor
  · intro h
    split at h
    · exact ⟨h.sbuf text rfl, .inr h.user⟩
    · exact ⟨h.sbuf text rfl, .inl h.user⟩
  · intro ⟨hsbuf, huser⟩
    have hprinted : ∀ text', some text = some text' → text'.length + 1 ≤ allocated := by
      intro text' htext
      cases htext
      exact hsbuf
    -- no more than `accessible` bytes arrive, whatever is copied
    split
    · next hshort =>
      apply Respects.mk hprinted
      rcases huser with huser | huser
      · exact (Nat.le_of_lt hshort).trans huser
      · exact huser
    · next hlong =>
      apply Respects.mk hprinted
      rcases huser with huser | huser
      · exact huser
      · exact (not_lt.mp hlong).trans huser

namespace Reading

def allocated : Reading → Nat
  | .jitCurrent _ _ _ _ => 240
  | .jitDelay _ _ => 24
  | _ => 2400

theorem size_lt_iff (reading : Reading) :
    reading.size + 1 ≤ reading.allocated ↔ reading.Short := by
  cases reading with
  | jitCurrent j1 j2 sec nsec =>
    have := width_currentFormat j1 j2 sec nsec
    apply iff_of_true _ trivial
    simp only [size, allocated]
    omega
  | jitDelay j0 j1 =>
    have hblank : " ".length = 1 ∧ "\n".length = 1 := by decide
    have hwidth (j : UInt64) : (long 0 j).width = intWidth j.toInt64.toInt := Nat.zero_max _
    simp only [size, allocated, Short, delayFormat, width_cons, width_nil, width_lit, hblank, hwidth]
    omega
  | jitTimer start seen =>
    have := linesWidth_le width_jitLine start seen 10
    apply iff_of_true _ trivial
    simp only [size, allocated, width_jitHeader]
    omega
  | jitTasklet first seen =>
    have := width_jitLine first.jiffies first
    have := linesWidth_le width_jitLine first.jiffies seen 10
    apply iff_of_true _ trivial
    simp only [size, allocated, width_jitHeader]
    omega
  | jiqWq param start seen =>
    have := linesWidth_le width_jiqLine start seen 5
    apply iff_of_true _ trivial
    simp only [size, allocated, width_jiqHeader]
    omega

theorem run_nothing {request : Request} {reading : Reading} (h : ¬ reading.Prints request) :
    ∃ bytes, reading.run request = some (request.nothing bytes) := by
  by_cases hkmalloc : request.kmalloc
  · cases reading with
    | jitCurrent j1 j2 sec nsec =>
      have hppos : request.ppos > 0 := not_le.mp fun hppos => h ⟨hkmalloc, hppos⟩
      exact ⟨240, congrArg some ((if_neg (not_not_intro hkmalloc)).trans (if_pos hppos))⟩
    | jitDelay j0 j1 =>
      have hppos : uint64 request.ppos ≥ request.count := not_lt.mp fun hppos => h ⟨hkmalloc, hppos⟩
      exact ⟨24, congrArg some ((if_neg (not_not_intro hkmalloc)).trans (if_pos hppos))⟩
    | jitTimer start seen => exact absurd hkmalloc h
    | jitTasklet first seen => exact absurd hkmalloc h
    | jiqWq param start seen =>
      have hppos : request.ppos > 0 := not_le.mp fun hppos => h ⟨hkmalloc, hppos⟩
      exact ⟨2400, (if_neg (not_not_intro hkmalloc)).trans (if_pos hppos)⟩
  · refine ⟨0, ?_⟩
    cases reading <;>
      simp only [run, Misc.jitCurrent, Misc.jitDelay, Misc.jitTimer, Misc.jitTasklet, Misc.jiqWq,
        if_pos hkmalloc]

theorem run_copyOut {request : Request} {reading : Reading} (h : reading.Prints request) :
    ∃ text pos, text.length = reading.size ∧
      reading.run request = some (request.copyOut reading.allocated text text.length pos) := by
  cases reading with
  | jitCurrent j1 j2 sec nsec =>
    obtain ⟨hkmalloc, hppos⟩ := h
    refine ⟨sprintf (currentFormat j1 j2 sec nsec), ?_, length_sprintf _, ?_⟩
    rotate_left
    · rw [run, Misc.jitCurrent, if_neg (not_not_intro hkmalloc), if_neg (not_lt.mpr hppos)]
      rfl
  | jitDelay j0 j1 =>
    obtain ⟨hkmalloc, hppos⟩ := h
    refine ⟨sprintf (delayFormat j0 j1), ?_, length_sprintf _, ?_⟩
    rotate_left
    · rw [run, Misc.jitDelay, if_neg (not_not_intro hkmalloc), if_neg (not_le.mpr hppos)]
      rfl
  | jitTimer start seen =>
    refine ⟨_, _, ?_, jitTimer_eq start seen request h⟩
    rw [List.length_append, length_sprintf, length_lines]
    rfl
  | jitTasklet first seen =>
    refine ⟨_, _, ?_, jitTasklet_eq first seen request h⟩
    rw [List.length_append, List.length_append, length_sprintf, length_sprintf, length_lines]
    rfl
  | jiqWq param start seen =>
    refine ⟨_, _, ?_, jiqWq_eq param start seen request h.1 (not_lt.mpr h.2)⟩
    rw [List.length_append, length_sprintf, length_lines]
    rfl

end Reading

/-- Every read ends, and it respects both buffers exactly when what it prints fits the
user's and, in `jit_delay`, its own. -/
theorem respects_iff (reading : Reading) (request : Request) :
    ∃ outcome, reading.run request = some outcome ∧
      (Respects request.count outcome ↔ reading.Fits request) := by
  by_cases hprints : reading.Prints request
  · obtain ⟨text, pos, hsize, hrun⟩ := Reading.run_copyOut hprints
    refine ⟨_, hrun, ?_⟩
    rw [respects_copyOut, hsize, reading.size_lt_iff]
    exact ⟨fun h _ => h, fun h => h hprints⟩
  · obtain ⟨bytes, hrun⟩ := Reading.run_nothing hprints
    refine ⟨_, hrun, ?_⟩
    exact iff_of_true (respects_nothing request bytes) fun h => absurd h hprints

/-- Eleven digits each, which is one character more than `sbuf` holds; and a user who
asks for one byte and gets the whole line. -/
theorem delay_overruns :
    (∃ outcome, (Reading.jitDelay 10000000000 10000000250).run ⟨true, 4096, 0, 4096, []⟩ =
        some outcome ∧ ¬ ∀ text, outcome.text = some text → text.length + 1 ≤ outcome.allocated) ∧
      ∃ outcome, (Reading.jitDelay 100 350).run ⟨true, 1, 0, 4096, []⟩ = some outcome ∧
        ¬ outcome.copied ≤ 1 := by
  constructor
  · refine ⟨_, rfl, fun h => ?_⟩
    have hlength := h "10000000000 10000000250\n".toList (by decide +kernel)
    exact absurd hlength (by decide +kernel)
  · refine ⟨_, rfl, ?_⟩
    decide +kernel

end MyDrivers.Misc
