import MyDrivers.Lib.Ring
import MyDrivers.Lib.Runs
import MyDrivers.Store.Device

/-! The device of `globalmem/globalmem.c`. An address is counted from `dev->mem`; the
first `GLOBALMEM_SIZE` bytes are its own, the others belong to somebody else. -/
namespace MyDrivers.Globalmem
open Lib Lib.Machine
open Store (Byte copyFromUser copyFromUser_full EINVAL EFAULT MAX_RW_COUNT)

def GLOBALMEM_SIZE : Nat := 0x1000
def MEM_CLEAR : Nat := 0x1

structure File where
  mem : Nat → Byte
  fPos : Int

/-- `mem[pos .. pos + n)`. -/
def slice (mem : Nat → Byte) (pos n : Nat) : List Byte :=
  (List.range n).map fun k => mem (pos + k)

/-- The count that is left after the test against the end of the memory, in the
`unsigned int` it is kept in. -/
def clampCount (pos size : Nat) : Nat :=
  if uint64 ((pos + size : Nat) : Int) ≥ GLOBALMEM_SIZE then
    uint32 ((GLOBALMEM_SIZE : Int) - pos)
  else uint32 size

/-- What a call returns and `*ppos` afterwards, with the memory it leaves and the
bytes that reached the user. -/
structure Transfer where
  ret : Int
  pos : Int
  mem : Nat → Byte
  bytes : List Byte

/-- `globalmem_read`; the user's buffer takes `accessible` bytes. -/
def globalmemRead (mem : Nat → Byte) (size : Nat) (ppos : Int) (accessible : Nat) : Transfer :=
  let pos := uint64 ppos
  if pos ≥ GLOBALMEM_SIZE then ⟨-EINVAL, ppos, mem, []⟩
  else
    let count := clampCount pos size
    let bytes := slice mem pos count
    if accessible < count then ⟨-EFAULT, ppos, mem, bytes.take accessible⟩
    else ⟨count, int64 (ppos + count), mem, bytes⟩

/-- `globalmem_write`; the first `accessible` bytes of `buf` can be read. -/
def globalmemWrite (mem : Nat → Byte) (buf : List Byte) (ppos : Int) (accessible : Nat) :
    Transfer :=
  let pos := uint64 ppos
  if pos ≥ GLOBALMEM_SIZE then ⟨-EINVAL, ppos, mem, []⟩
  else
    let count := clampCount pos buf.length
    let mem := Ring.paste mem pos (copyFromUser buf count accessible)
    if accessible < count then ⟨-EFAULT, ppos, mem, []⟩
    else
      -- `ret` is assigned but not returned
      ⟨0, int64 (ppos + count), mem, []⟩

/-- `globalmem_llseek`: the value returned and `filp->f_pos` afterwards. -/
def globalmemLlseek (fPos offset orig : Int) : Int × Int :=
  if orig = 0 then
    if offset < 0 then (-EINVAL, fPos)
    else if uint32 offset ≥ GLOBALMEM_SIZE then (-EINVAL, fPos)
    else (uint32 offset, uint32 offset)
  else if orig = 1 then
    if int64 (fPos + offset) < 0 then (-EINVAL, fPos)
    else if int64 (fPos + offset) ≥ GLOBALMEM_SIZE then (-EINVAL, fPos)
    else (int64 (fPos + offset), int64 (fPos + offset))
  else (-EINVAL, fPos)

def globalmemIoctl (mem : Nat → Byte) (cmd : Nat) : Int × (Nat → Byte) :=
  if cmd = MEM_CLEAR then (0, fun k => if k < GLOBALMEM_SIZE then 0 else mem k)
  else (-EINVAL, mem)

/-! ## One file -/

inductive Call where
  | read (size accessible : Nat)
  | write (buf : List Byte) (accessible : Nat)
  | llseek (offset orig : Int)
  | ioctl (cmd : Nat)

/-- A system call on the file: the VFS bounds the count. -/
def Call.run (file : File) : Call → Int × File
  | .read size accessible =>
      let t := globalmemRead file.mem (min size MAX_RW_COUNT) file.fPos accessible
      (t.ret, ⟨t.mem, t.pos⟩)
  | .write buf accessible =>
      let t := globalmemWrite file.mem (buf.take MAX_RW_COUNT) file.fPos accessible
      (t.ret, ⟨t.mem, t.pos⟩)
  | .llseek offset orig =>
      let (ret, fPos) := globalmemLlseek file.fPos offset orig
      (ret, ⟨file.mem, fPos⟩)
  | .ioctl cmd =>
      let (ret, mem) := globalmemIoctl file.mem cmd
      (ret, ⟨mem, file.fPos⟩)

def Step (file : File) (done : Call × Int) (file' : File) : Prop :=
  done.1.run file = (done.2, file')

/-! ## The count -/

section Count
variable {pos size : Nat}

theorem clampCount_eq (hpos : pos < GLOBALMEM_SIZE) (hsize : size ≤ MAX_RW_COUNT) :
    clampCount pos size = min size (GLOBALMEM_SIZE - pos) := by
  have hpos' : pos < 4096 := hpos
  have hsize' : size ≤ 2147479552 := hsize
  have hsizeEq : GLOBALMEM_SIZE = 4096 := rfl
  rw [clampCount, uint64_natCast (by omega), hsizeEq]
  by_cases hend : pos + size ≥ 4096
  · have hcast : ((4096 : Nat) : Int) - pos = ((4096 - pos : Nat) : Int) := by omega
    rw [if_pos hend, hcast, uint32_natCast (by omega)]
    omega
  · rw [if_neg hend, uint32_natCast (by omega)]
    omega

end Count

section Transfers
variable {mem : Nat → Byte} {pos size accessible : Nat} {buf : List Byte}

theorem globalmemRead_eq (hpos : pos < GLOBALMEM_SIZE) (hsize : size ≤ MAX_RW_COUNT)
    (haccessible : size ≤ accessible) :
    globalmemRead mem size pos accessible =
      let n := min size (GLOBALMEM_SIZE - pos)
      ⟨n, pos + n, mem, slice mem pos n⟩ := by
  have hpos' : pos < 4096 := hpos
  have hn : min size (GLOBALMEM_SIZE - pos) ≤ 4096 - pos := Nat.min_le_right _ _
  have hfault : ¬ accessible < min size (GLOBALMEM_SIZE - pos) := by omega
  have hinside : ¬ pos ≥ GLOBALMEM_SIZE := by omega
  simp only [globalmemRead]
  rw [uint64_natCast (by omega), if_neg hinside, clampCount_eq hpos hsize, if_neg hfault]
  rw [int64_eq_self (by omega) (by omega)]

theorem globalmemWrite_eq (hpos : pos < GLOBALMEM_SIZE) (hsize : buf.length ≤ MAX_RW_COUNT)
    (haccessible : buf.length ≤ accessible) :
    globalmemWrite mem buf pos accessible =
      let n := min buf.length (GLOBALMEM_SIZE - pos)
      ⟨0, pos + n, Ring.paste mem pos (buf.take n), []⟩ := by
  have hpos' : pos < 4096 := hpos
  have hn : min buf.length (GLOBALMEM_SIZE - pos) ≤ 4096 - pos := Nat.min_le_right _ _
  have hfault : ¬ accessible < min buf.length (GLOBALMEM_SIZE - pos) := by omega
  have hinside : ¬ pos ≥ GLOBALMEM_SIZE := by omega
  simp only [globalmemWrite]
  rw [uint64_natCast (by omega), if_neg hinside, clampCount_eq hpos hsize, if_neg hfault,
    copyFromUser_full (Nat.le_of_not_lt hfault)]
  rw [int64_eq_self (by omega) (by omega)]

end Transfers

end MyDrivers.Globalmem
