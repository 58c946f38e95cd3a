import MyDrivers.Globalmem.Device

/-! The memory of `globalmem` as a file: one read and one write, and the loops with
which a program reads and writes all of a string. `globalmem_write` stores its bytes
and moves the position, but returns 0, so a loop that goes by the value returned
stores the same bytes again further on. -/
namespace MyDrivers.Globalmem
open Lib Lib.Machine
open Store (Byte EINVAL EFAULT MAX_RW_COUNT)

/-- `write` until nothing is left or an error is returned, which is 0 in the first
case; with a bound on the rounds. -/
def writeAll (file : File) (bytes : List Byte) : Nat → Option (Int × File)
  | 0 => none
  | rounds + 1 =>
      if bytes = [] then some (0, file)
      else
        let buf := bytes.take MAX_RW_COUNT
        let t := globalmemWrite file.mem buf file.fPos buf.length
        if t.ret < 0 then some (t.ret, ⟨t.mem, t.pos⟩)
        else writeAll ⟨t.mem, t.pos⟩ (bytes.drop t.ret.toNat) rounds

/-- `read` until so many bytes have arrived or no more come. -/
def readAll (file : File) (size : Nat) : Nat → Option (List Byte)
  | 0 => none
  | rounds + 1 =>
      if size = 0 then some []
      else
        let count := min size MAX_RW_COUNT
        let t := globalmemRead file.mem count file.fPos count
        if t.ret ≤ 0 then some []
        else
          (readAll ⟨t.mem, t.pos⟩ (size - t.ret.toNat) rounds).map fun rest => t.bytes ++ rest

def Reads (mem : Nat → Byte) (pos size : Nat) : Prop :=
  let n := min size (GLOBALMEM_SIZE - pos)
  let t := globalmemRead mem size pos size
  t.ret = n ∧ t.pos = pos + n ∧ t.bytes = slice mem pos n ∧ t.mem = mem

def Writes (mem : Nat → Byte) (pos : Nat) (buf : List Byte) : Prop :=
  let n := min buf.length (GLOBALMEM_SIZE - pos)
  let t := globalmemWrite mem buf pos buf.length
  t.ret = n ∧ t.pos = pos + n ∧ t.mem = Ring.paste mem pos (buf.take n)

def LoopsBack (mem : Nat → Byte) (pos : Nat) (bytes : List Byte) : Prop :=
  ∃ rounds file, writeAll ⟨mem, pos⟩ bytes rounds = some (0, file) ∧
    ∃ rounds', readAll ⟨file.mem, pos⟩ bytes.length rounds' = some bytes

def BehavesAsFile (mem : Nat → Byte) (pos size : Nat) (buf : List Byte) : Prop :=
  Reads mem pos size ∧ Writes mem pos buf ∧
    (pos + buf.length ≤ GLOBALMEM_SIZE → LoopsBack mem pos buf)

section Calls
variable {mem : Nat → Byte} {pos size : Nat} {buf : List Byte}

theorem reads (hpos : pos < GLOBALMEM_SIZE) (hsize : size ≤ MAX_RW_COUNT) : Reads mem pos size := by
  rw [Reads, globalmemRead_eq hpos hsize le_rfl]
  exact ⟨rfl, rfl, rfl, rfl⟩

/-- A write does all of it but for the value it returns. -/
theorem writes_iff (hpos : pos < GLOBALMEM_SIZE) (hbuf : buf.length ≤ MAX_RW_COUNT) :
    Writes mem pos buf ↔ buf = [] := by
  rw [Writes, globalmemWrite_eq hpos hbuf le_rfl]
  simp only [and_self, and_true]
  rw [← List.length_eq_zero_iff]
  omega

theorem length_take_cap (bytes : List Byte) : (bytes.take MAX_RW_COUNT).length ≤ MAX_RW_COUNT := by
  rw [List.length_take]
  exact Nat.min_le_left _ _

/-- Every write of the loop returns 0 or an error. -/
theorem write_ret_nonpos (mem : Nat → Byte) (buf : List Byte) (ppos : Int) (accessible : Nat) :
    (globalmemWrite mem buf ppos accessible).ret ≤ 0 := by
  simp only [globalmemWrite]
  split
  · exact show -EINVAL ≤ 0 by decide
  split
  · exact show -EFAULT ≤ 0 by decide
  · exact le_rfl

/-- The loop never comes to the end of a string that is not empty. -/
theorem writeAll_fails {file file' : File} {bytes : List Byte} (hbytes : bytes ≠ []) {ret : Int}
    {rounds : Nat} (h : writeAll file bytes rounds = some (ret, file')) : ret < 0 := by
  induction rounds generalizing file with
  | zero => cases h
  | succ rounds ih =>
    rw [writeAll, if_neg hbytes] at h
    dsimp only at h
    split at h
    · next hneg =>
      cases h
      exact hneg
    · next hneg =>
      have hret := write_ret_nonpos file.mem (bytes.take MAX_RW_COUNT) file.fPos
        (bytes.take MAX_RW_COUNT).length
      have hzero : (globalmemWrite file.mem (bytes.take MAX_RW_COUNT) file.fPos
          (bytes.take MAX_RW_COUNT).length).ret = 0 := by omega
      rw [hzero] at h
      exact ih h

/-- It stores the string again and again up to the end of the memory. -/
theorem writeAll_ends {bytes : List Byte} (hbytes : bytes ≠ []) (mem : Nat → Byte) (pos : Nat)
    (hpos : pos ≤ GLOBALMEM_SIZE) :
    ∃ rounds file, writeAll ⟨mem, pos⟩ bytes rounds = some (-EINVAL, file) := by
  have hsize : GLOBALMEM_SIZE = 4096 := rfl
  have hneg : -EINVAL < 0 := by decide
  have hbuf := length_take_cap bytes
  have hlength : 0 < (bytes.take MAX_RW_COUNT).length := by
    rw [List.length_take]
    exact Nat.lt_min.mpr ⟨by decide, List.length_pos_of_ne_nil hbytes⟩
  induction hgap : GLOBALMEM_SIZE - pos using Nat.strong_induction_on generalizing mem pos with
  | _ gap ih =>
    by_cases hend : pos < GLOBALMEM_SIZE
    · obtain ⟨rounds, file, hrest⟩ := ih
        (GLOBALMEM_SIZE - (pos + min (bytes.take MAX_RW_COUNT).length (GLOBALMEM_SIZE - pos)))
        (by omega)
        (Ring.paste mem pos ((bytes.take MAX_RW_COUNT).take
          (min (bytes.take MAX_RW_COUNT).length (GLOBALMEM_SIZE - pos))))
        (pos + min (bytes.take MAX_RW_COUNT).length (GLOBALMEM_SIZE - pos)) (by omega) rfl
      refine ⟨rounds + 1, file, ?_⟩
      rw [writeAll, if_neg hbytes]
      simp only [globalmemWrite_eq hend hbuf le_rfl, lt_irrefl, if_false]
      simpa using hrest
    · have hout : pos = GLOBALMEM_SIZE := by omega
      refine ⟨1, ⟨mem, pos⟩, ?_⟩
      rw [writeAll, if_neg hbytes]
      have hbeyond : uint64 (pos : Int) ≥ GLOBALMEM_SIZE := by
        rw [uint64_natCast (by omega)]
        omega
      simp only [globalmemWrite, if_pos hbeyond, if_pos hneg]

theorem readAll_slice (mem : Nat → Byte) {pos size : Nat} (hfits : pos + size ≤ GLOBALMEM_SIZE) :
    readAll ⟨mem, pos⟩ size 2 = some (slice mem pos size) := by
  have hsize : GLOBALMEM_SIZE = 4096 := rfl
  have hcap : MAX_RW_COUNT = 2147479552 := rfl
  by_cases hzero : size = 0
  · subst hzero
    rfl
  · have hcount : min size MAX_RW_COUNT = size := by omega
    have hall : min size (GLOBALMEM_SIZE - pos) = size := by omega
    have hpositive : ¬ ((size : Int) ≤ 0) := by omega
    rw [readAll, if_neg hzero]
    simp only [hcount, globalmemRead_eq (show pos < GLOBALMEM_SIZE by omega)
      (show size ≤ MAX_RW_COUNT by omega) le_rfl, hall, hpositive, if_false]
    simp [readAll]

theorem loopsBack_iff : LoopsBack mem pos buf ↔ buf = [] := by
  constructor
  · rintro ⟨rounds, file, hwrite, -⟩
    by_contra hbuf
    exact absurd (writeAll_fails hbuf hwrite) (lt_irrefl 0)
  · rintro rfl
    exact ⟨1, ⟨mem, pos⟩, rfl, 1, rfl⟩

end Calls

/-- The memory behaves as a file towards reads, single ones and in a loop. A write
stores its bytes but says that it has not, so only the empty string is ever written. -/
theorem file_iff (mem : Nat → Byte) {pos size : Nat} {buf : List Byte}
    (hpos : pos < GLOBALMEM_SIZE) (hsize : size ≤ MAX_RW_COUNT)
    (hbuf : buf.length ≤ MAX_RW_COUNT) :
    (BehavesAsFile mem pos size buf ↔ buf = []) ∧
      Reads mem pos size ∧
      (pos + size ≤ GLOBALMEM_SIZE →
        ∃ rounds, readAll ⟨mem, pos⟩ size rounds = some (slice mem pos size)) ∧
      (buf ≠ [] → ∃ rounds file, writeAll ⟨mem, pos⟩ buf rounds = some (-EINVAL, file)) := by
  have hreads : Reads mem pos size := reads hpos hsize
  refine ⟨⟨?_, ?_⟩, hreads, fun hfits => ⟨2, readAll_slice mem hfits⟩, fun hne =>
    writeAll_ends hne mem pos hpos.le⟩
  · rintro ⟨-, hwrites, -⟩
    exact (writes_iff hpos hbuf).mp hwrites
  · intro hnil
    exact ⟨hreads, (writes_iff hpos hbuf).mpr hnil, fun _ => loopsBack_iff.mpr hnil⟩

theorem file_empty : BehavesAsFile (fun _ => 0) 0 16 [] :=
  (file_iff (fun _ => 0) (by decide) (by decide) (by decide)).1.mpr rfl

/-- One byte is stored and 0 returned, and the loop ends in `-EINVAL`. -/
theorem write_returns_zero :
    ¬ Writes (fun _ => 0) 0 [7] ∧ ¬ LoopsBack (fun _ => 0) 0 [7] ∧
      (globalmemWrite (fun _ => 0) [7] 0 1).ret = 0 := by
  refine ⟨?_, ?_, ?_⟩
  · rw [writes_iff (by decide) (by decide)]
    exact nofun
  · rw [loopsBack_iff]
    exact nofun
  · decide +kernel

end MyDrivers.Globalmem
