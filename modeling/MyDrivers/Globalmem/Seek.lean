import MyDrivers.Globalmem.Device

/-! Positions of a file of `globalmem`. `globalmem_llseek` narrows an absolute offset
to an `unsigned int` before it compares it with the size. -/
namespace MyDrivers.Globalmem
open Lib Lib.Machine
open Store (Byte EINVAL EFAULT MAX_RW_COUNT)

def target (fPos offset orig : Int) : Option Int :=
  if orig = 0 then some offset else if orig = 1 then some (fPos + offset) else none

def SeeksExactly (fPos offset orig : Int) : Prop :=
  match target fPos offset orig with
  | some goal =>
      globalmemLlseek fPos offset orig =
        if 0 ≤ goal ∧ goal < GLOBALMEM_SIZE then (goal, goal) else (-EINVAL, fPos)
  | none => globalmemLlseek fPos offset orig = (-EINVAL, fPos)

/-- An absolute offset that is only inside the memory once it has been narrowed. -/
def Narrowed (offset orig : Int) : Prop :=
  orig = 0 ∧ 4294967296 ≤ offset ∧ offset % 4294967296 < GLOBALMEM_SIZE

def InFile (fPos : Int) : Prop := 0 ≤ fPos ∧ fPos ≤ GLOBALMEM_SIZE

section Seeks
variable {fPos offset orig : Int}

theorem seeks_absolute (hoffset : offset < 9223372036854775808) :
    SeeksExactly fPos offset 0 ↔ ¬ Narrowed offset 0 := by
  have hnarrow := uint32_eq offset
  have hsize : GLOBALMEM_SIZE = 4096 := rfl
  simp only [SeeksExactly, target, globalmemLlseek, Narrowed, if_true, true_and, hsize]
  by_cases hneg : offset < 0
  · have hout : ¬ (0 ≤ offset ∧ offset < ((4096 : Nat) : Int)) := by omega
    rw [if_pos hneg, if_neg hout]
    simp only [true_iff]
    omega
  · rw [if_neg hneg]
    by_cases hbelow : offset < 4294967296
    · have hsame : (uint32 offset : Int) = offset := by omega
      by_cases hin : offset < 4096
      · rw [if_neg (by omega), if_pos (by omega), hsame]
        simp only [true_iff]
        omega
      · rw [if_pos (by omega), if_neg (by omega)]
        simp only [true_iff]
        omega
    · rw [if_neg (show ¬ (0 ≤ offset ∧ offset < ((4096 : Nat) : Int)) by omega)]
      by_cases hin : offset % 4294967296 < 4096
      · rw [if_neg (by omega)]
        simp only [Prod.mk.injEq, EINVAL]
        omega
      · rw [if_pos (by omega)]
        simp only [true_iff]
        omega

theorem seeks_relative (hpos : InFile fPos) (hoffset : offset < 9223372036854775808)
    (lower : -9223372036854775808 ≤ offset) : SeeksExactly fPos offset 1 := by
  have hsize : GLOBALMEM_SIZE = 4096 := rfl
  obtain ⟨hlow, hhigh⟩ := hpos
  rw [hsize] at hhigh
  simp only [SeeksExactly, target, globalmemLlseek, one_ne_zero, if_true, if_false, hsize]
  by_cases hover : fPos + offset < 9223372036854775808
  · rw [int64_eq_self (by omega) hover]
    by_cases hneg : fPos + offset < 0
    · rw [if_pos hneg, if_neg (by omega)]
    · by_cases hin : fPos + offset < 4096
      · rw [if_neg hneg, if_neg (by omega), if_pos (by omega)]
      · rw [if_neg hneg, if_pos (by omega), if_neg (by omega)]
  · rw [if_pos (int64_overflow (by omega) (by omega)), if_neg (by omega)]

theorem seeks_elsewhere (hzero : orig ≠ 0) (hone : orig ≠ 1) : SeeksExactly fPos offset orig := by
  simp [SeeksExactly, target, globalmemLlseek, hzero, hone]

end Seeks

/-! ## Runs -/

section Runs
variable {file file' : File}

theorem llseek_inFile {fPos : Int} (h : InFile fPos) (offset orig : Int) :
    InFile (globalmemLlseek fPos offset orig).2 := by
  have hsize : GLOBALMEM_SIZE = 4096 := rfl
  unfold globalmemLlseek
  split
  · split
    · exact h
    split
    · exact h
    · constructor
      · exact Int.natCast_nonneg _
      · rw [hsize] at *
        omega
  · split
    · split
      · exact h
      split
      · exact h
      · rw [InFile, hsize] at *
        constructor <;> omega
    · exact h

theorem advance_inFile {fPos : Int} {pos size : Nat} (hfPos : fPos = pos)
    (hpos : pos < GLOBALMEM_SIZE) (hsize : size ≤ MAX_RW_COUNT) :
    InFile (int64 (fPos + clampCount pos size)) := by
  have hmem : GLOBALMEM_SIZE = 4096 := rfl
  rw [clampCount_eq hpos hsize, InFile, hmem, hfPos]
  rw [hmem] at hpos
  rw [int64_eq_self (by omega) (by omega)]
  omega

theorem InFile.pos {fPos : Int} (h : InFile fPos) : fPos = uint64 fPos := by
  have hsize : GLOBALMEM_SIZE = 4096 := rfl
  obtain ⟨hlow, hhigh⟩ := h
  rw [hsize] at hhigh
  rw [uint64_eq_toNat hlow (by omega)]
  omega

theorem read_inFile (h : InFile file.fPos) (size accessible : Nat) (hsize : size ≤ MAX_RW_COUNT) :
    InFile (globalmemRead file.mem size file.fPos accessible).pos := by
  have hpos := h.pos
  simp only [globalmemRead]
  split
  · exact h
  split
  · exact h
  · exact advance_inFile hpos (by omega) hsize

theorem write_inFile (h : InFile file.fPos) (buf : List Byte) (accessible : Nat)
    (hsize : buf.length ≤ MAX_RW_COUNT) :
    InFile (globalmemWrite file.mem buf file.fPos accessible).pos := by
  have hpos := h.pos
  simp only [globalmemWrite]
  split
  · exact h
  split
  · exact h
  · exact advance_inFile hpos (by omega) hsize

theorem step_inFile {done : Call × Int} (h : InFile file.fPos) (hstep : Step file done file') :
    InFile file'.fPos := by
  obtain ⟨call, ret⟩ := done
  have hfile : file' = (call.run file).2 := (congrArg Prod.snd hstep).symm
  rw [hfile]
  cases call with
  | read size accessible => exact read_inFile h _ _ (Nat.min_le_right _ _)
  | write buf accessible =>
    apply write_inFile h
    rw [List.length_take]
    exact Nat.min_le_left _ _
  | llseek offset orig => exact llseek_inFile h offset orig
  | ioctl cmd => exact h

/-- A seek is exact unless its absolute offset is narrowed into the memory, and no
run of calls takes a position out of the memory. -/
theorem seek_iff {fPos offset : Int} (hpos : InFile fPos)
    (hoffset : -9223372036854775808 ≤ offset ∧ offset < 9223372036854775808) (orig : Int) :
    (SeeksExactly fPos offset orig ↔ ¬ Narrowed offset orig) ∧
      ∀ mem calls file, Run Step ⟨mem, fPos⟩ calls file → InFile file.fPos := by
  constructor
  · by_cases hzero : orig = 0
    · subst hzero
      exact seeks_absolute hoffset.2
    · have hnarrowed : ¬ Narrowed offset orig := fun h => hzero h.1
      by_cases hone : orig = 1
      · subst hone
        exact iff_of_true (seeks_relative hpos hoffset.2 hoffset.1) hnarrowed
      · exact iff_of_true (seeks_elsewhere hzero hone) hnarrowed
  · intro mem calls file run
    exact run.invariant (fun _ file => InFile file.fPos) hpos
      fun _ _ _ _ _ h hstep => step_inFile h hstep

end Runs

theorem seek_end : SeeksExactly 4096 (-1) 1 :=
  (@seek_iff 4096 (-1) ⟨by decide, by decide⟩ ⟨by decide, by decide⟩ 1).1.mpr
    fun h => absurd h.1 (by decide)

/-- Offset `2 ^ 32` is beyond the end and taken for 0. -/
theorem seek_narrows :
    ¬ SeeksExactly 0 4294967296 0 ∧ globalmemLlseek 0 4294967296 0 = (0, 0) := by
  constructor
  · rw [seeks_absolute (by decide)]
    exact fun h => h ⟨rfl, by decide, by decide⟩
  · decide +kernel

end MyDrivers.Globalmem
