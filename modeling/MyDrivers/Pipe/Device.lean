import MyDrivers.Lib.Ring
import MyDrivers.Store.Device

/-! The pipe device (`scull/pipe.c`). A pointer is an address and `NULL` is 0.
The `fasync` list only decides who is sent `SIGIO`; it is left out, as are the
messages to the log. -/
namespace MyDrivers.Pipe
open Lib Lib.Machine
open Store (Byte copyFromUser EAGAIN ENOMEM EFAULT ERESTARTSYS O_NONBLOCK)

structure FMode where
  read : Bool
  write : Bool
  deriving DecidableEq, Repr

structure ScullPipe where
  buffer : Nat
  /-- `end` -/
  endp : Nat
  buffersize : Int
  rp : Nat
  wp : Nat
  nreaders : Int
  nwriters : Int
  deriving DecidableEq, Repr

/-- A device together with the memory its buffer lies in. -/
structure Backed where
  dev : ScullPipe
  mem : Nat → Byte

/-- What a `kmalloc` that succeeds finds: an object that lies inside the address
space, and memory with any contents. -/
structure Fresh (size : Nat) where
  addr : Nat
  mem : Nat → Byte
  nonnull : 0 < addr
  inside : addr + size < 18446744073709551616

/-! Four bytes at address 16 are such an object. -/

theorem sixteen_nonnull : 0 < 16 := by decide

theorem sixteen_inside : 16 + 4 < 18446744073709551616 := by decide

def freshFour : Fresh 4 := ⟨16, fun _ => 0, sixteen_nonnull, sixteen_inside⟩

/-- What one locked section of a call comes to: the value returned (`none` when
the process goes to sleep), the bytes that reached the user's buffer, and the
objects that `kmalloc` and `kfree` handled. -/
structure Reply where
  ret : Option Int
  bytes : List Byte
  alloc : Option Nat
  freed : Option Nat
  deriving DecidableEq, Repr

def Reply.returns (ret : Int) : Reply := ⟨some ret, [], none, none⟩

def Reply.sleeps : Reply := ⟨none, [], none, none⟩

/-- The device `scull_p_init` sets up for `scull_p_buffer`. -/
def scullPInitDev (size : Nat) : ScullPipe := ⟨0, 0, size, 0, 0, 0, 0⟩

/-! ## scull_p_open and scull_p_release -/

def ScullPipe.allocated (dev : ScullPipe) {size : Nat} (fresh : Fresh size) : ScullPipe :=
  { dev with buffer := fresh.addr, endp := fresh.addr + size, rp := fresh.addr, wp := fresh.addr }

def ScullPipe.count (dev : ScullPipe) (mode : FMode) (change : Int) : ScullPipe :=
  { dev with
    nreaders := if mode.read then int32 (dev.nreaders + change) else dev.nreaders
    nwriters := if mode.write then int32 (dev.nwriters + change) else dev.nwriters }

/-- `scull_p_open` once it holds the semaphore. -/
def scullPOpenLocked {size : Nat} (mode : FMode) (kmalloc : Option (Fresh size)) (pipe : Backed) :
    Reply × Backed :=
  if pipe.dev.buffer = 0 then
    match kmalloc with
    | none => (.returns (-ENOMEM), pipe)
    | some fresh =>
        ({ Reply.returns 0 with alloc := some fresh.addr },
          ⟨(pipe.dev.allocated fresh).count mode 1, fresh.mem⟩)
  else (.returns 0, { pipe with dev := pipe.dev.count mode 1 })

def scullPOpen {size : Nat} (mode : FMode) (interrupted : Bool) (kmalloc : Option (Fresh size))
    (pipe : Backed) : Reply × Backed :=
  if interrupted then (.returns (-ERESTARTSYS), pipe)
  else scullPOpenLocked mode kmalloc pipe

/-- `scull_p_release` once it holds the semaphore; `kfree(NULL)` does nothing. -/
def scullPReleaseLocked (mode : FMode) (pipe : Backed) : Reply × Backed :=
  let dev := pipe.dev.count mode (-1)
  if int32 (dev.nreaders + dev.nwriters) = 0 then
    ({ Reply.returns 0 with freed := if dev.buffer = 0 then none else some dev.buffer },
      { pipe with dev := { dev with buffer := 0 } })
  else (.returns 0, { pipe with dev := dev })

def scullPRelease (mode : FMode) (interrupted : Bool) (pipe : Backed) : Reply × Backed :=
  if interrupted then (.returns (-ERESTARTSYS), pipe)
  else scullPReleaseLocked mode pipe

/-! ## scull_p_read -/

/-- `count = (count > bound) ? bound : count`, in `size_t`. -/
def clamp (count : Nat) (bound : Int) : Nat :=
  if count > uint64 bound then uint64 bound else count

def readCount (dev : ScullPipe) (count : Nat) : Nat :=
  if dev.rp < dev.wp then clamp count (dev.wp - dev.rp)
  else clamp count (dev.endp - dev.rp)

def ScullPipe.advanceRp (dev : ScullPipe) (count : Nat) : ScullPipe :=
  { dev with rp := if dev.rp + count = dev.endp then dev.buffer else dev.rp + count }

/-- `scull_p_read` once it holds the semaphore and has found data; the user's
buffer takes `accessible` bytes. -/
def scullPReadLocked (count accessible : Nat) (pipe : Backed) : Reply × Backed :=
  let count := readCount pipe.dev count
  let bytes := (List.range count).map fun k => pipe.mem (pipe.dev.rp + k)
  if accessible < count then ({ Reply.returns (-EFAULT) with bytes := bytes.take accessible }, pipe)
  else
    ({ Reply.returns (int64 count) with bytes := bytes },
      { pipe with dev := pipe.dev.advanceRp count })

/-- One locked section of `scull_p_read`: the first one, or one after the
process has been woken. An empty pipe sends the caller away or to sleep. -/
def scullPRead (fFlags count : Nat) (interrupted : Bool) (accessible : Nat) (pipe : Backed) :
    Reply × Backed :=
  if interrupted then (.returns (-ERESTARTSYS), pipe)
  else if pipe.dev.rp = pipe.dev.wp then
    if fFlags = O_NONBLOCK then (.returns (-EAGAIN), pipe) else (.sleeps, pipe)
  else scullPReadLocked count accessible pipe

/-! ## scull_p_write -/

def spacefree (dev : ScullPipe) : Int :=
  if dev.wp = dev.rp then int32 (dev.buffersize - 1)
  else int32 (((dev.rp : Int) + dev.buffersize - dev.wp).tmod dev.buffersize - 1)

def writeCount (dev : ScullPipe) (count : Nat) : Nat :=
  let freeSpaceSize := spacefree dev
  let count :=
    if dev.rp > dev.wp then clamp count (dev.rp - dev.wp)
    else clamp count (dev.endp - dev.wp)
  clamp count freeSpaceSize

def ScullPipe.advanceWp (dev : ScullPipe) (count : Nat) : ScullPipe :=
  { dev with wp := if dev.wp + count = dev.endp then dev.buffer else dev.wp + count }

/-- `scull_p_write` once it holds the semaphore and has found space. -/
def scullPWriteLocked (buff : List Byte) (accessible : Nat) (pipe : Backed) : Reply × Backed :=
  let count := writeCount pipe.dev buff.length
  let pipe := { pipe with
    mem := Ring.paste pipe.mem pipe.dev.wp (copyFromUser buff count accessible) }
  if accessible < count then (.returns (-EFAULT), pipe)
  else (.returns (int64 count), { pipe with dev := pipe.dev.advanceWp count })

/-- One locked section of `scull_p_write` with `scull_getwritespace`. -/
def scullPWrite (fFlags : Nat) (buff : List Byte) (interrupted : Bool) (accessible : Nat)
    (pipe : Backed) : Reply × Backed :=
  if interrupted then (.returns (-ERESTARTSYS), pipe)
  else if spacefree pipe.dev = 0 then
    if fFlags &&& O_NONBLOCK ≠ 0 then (.returns (-EAGAIN), pipe) else (.sleeps, pipe)
  else scullPWriteLocked buff accessible pipe

/-! ## The pointers -/

@[simp] theorem buffer_count (dev : ScullPipe) (mode : FMode) (change : Int) :
    (dev.count mode change).buffer = dev.buffer := rfl

@[simp] theorem buffer_advanceRp (dev : ScullPipe) (count : Nat) :
    (dev.advanceRp count).buffer = dev.buffer := rfl

@[simp] theorem buffer_advanceWp (dev : ScullPipe) (count : Nat) :
    (dev.advanceWp count).buffer = dev.buffer := rfl

/-- Both pointers stand before `end`. This outlives the buffer: `kfree` leaves
the pointers where they are. -/
structure ScullPipe.Aimed (dev : ScullPipe) : Prop where
  rp : dev.rp < dev.endp
  wp : dev.wp < dev.endp
  top : dev.endp < 18446744073709551616

theorem clamp_eq {count : Nat} {bound : Int} (lower : 0 ≤ bound)
    (upper : bound < 18446744073709551616) : clamp count bound = min count bound.toNat := by
  unfold clamp
  rw [uint64_eq_toNat lower upper]
  split <;> omega

theorem clamp_le (count : Nat) (bound : Int) : clamp count bound ≤ count := by
  unfold clamp
  split <;> omega

theorem clamp_pos {count : Nat} {bound : Int} (hcount : 0 < count)
    (lower : -2147483648 ≤ bound) (upper : bound < 18446744073709551616) (hne : bound ≠ 0) :
    0 < clamp count bound := by
  unfold clamp
  by_cases hneg : bound < 0
  · have := uint64_of_neg (x := bound) (by omega) hneg
    split <;> omega
  · rw [uint64_eq_toNat (by omega) upper]
    split <;> omega

theorem spacefree_bounds (dev : ScullPipe) :
    -2147483648 ≤ spacefree dev ∧ spacefree dev < 2147483648 := by
  unfold spacefree
  split <;> exact int32_bounds _

def ScullPipe.ahead (dev : ScullPipe) : Nat :=
  if dev.rp < dev.wp then dev.wp - dev.rp else dev.endp - dev.rp

def ScullPipe.gap (dev : ScullPipe) : Nat :=
  if dev.rp > dev.wp then dev.rp - dev.wp else dev.endp - dev.wp

theorem readCount_eq {dev : ScullPipe} (aimed : dev.Aimed) (count : Nat) :
    readCount dev count = min count dev.ahead := by
  obtain ⟨hrp, hwp, htop⟩ := aimed
  unfold readCount ScullPipe.ahead
  split
  · rw [clamp_eq (by omega) (by omega)]
    congr 1
    omega
  · rw [clamp_eq (by omega) (by omega)]
    congr 1
    omega

theorem writeCount_eq {dev : ScullPipe} (aimed : dev.Aimed) (count : Nat) :
    writeCount dev count = clamp (min count dev.gap) (spacefree dev) := by
  obtain ⟨hrp, hwp, htop⟩ := aimed
  have hgap : (if dev.rp > dev.wp then clamp count (dev.rp - dev.wp)
      else clamp count (dev.endp - dev.wp)) = min count dev.gap := by
    unfold ScullPipe.gap
    split
    · rw [clamp_eq (by omega) (by omega)]
      congr 1
      omega
    · rw [clamp_eq (by omega) (by omega)]
      congr 1
      omega
  simp only [writeCount, hgap]

theorem ahead_pos {dev : ScullPipe} (aimed : dev.Aimed) : 0 < dev.ahead := by
  have := aimed.rp
  unfold ScullPipe.ahead
  split <;> omega

theorem gap_pos {dev : ScullPipe} (aimed : dev.Aimed) : 0 < dev.gap := by
  have := aimed.wp
  unfold ScullPipe.gap
  split <;> omega

theorem readCount_pos {dev : ScullPipe} (aimed : dev.Aimed) {count : Nat} (hcount : 0 < count) :
    0 < readCount dev count := by
  have := ahead_pos aimed
  rw [readCount_eq aimed]
  omega

theorem writeCount_pos {dev : ScullPipe} (aimed : dev.Aimed) {count : Nat} (hcount : 0 < count)
    (hspace : spacefree dev ≠ 0) : 0 < writeCount dev count := by
  have hbounds := spacefree_bounds dev
  have hgap := gap_pos aimed
  rw [writeCount_eq aimed]
  exact clamp_pos (by omega) hbounds.1 (by omega) hspace

theorem readCount_le (dev : ScullPipe) (count : Nat) : readCount dev count ≤ count := by
  unfold readCount
  split <;> exact clamp_le _ _

theorem writeCount_le (dev : ScullPipe) (count : Nat) : writeCount dev count ≤ count := by
  unfold writeCount
  apply (clamp_le _ _).trans
  split <;> exact clamp_le _ _

theorem readCount_lt {dev : ScullPipe} (aimed : dev.Aimed) (count : Nat) :
    readCount dev count < 18446744073709551616 := by
  have hahead : dev.ahead ≤ dev.endp := by
    have := aimed.wp
    unfold ScullPipe.ahead
    split <;> omega
  rw [readCount_eq aimed]
  exact ((Nat.min_le_right _ _).trans hahead).trans_lt aimed.top

theorem writeCount_lt {dev : ScullPipe} (aimed : dev.Aimed) (count : Nat) :
    writeCount dev count < 18446744073709551616 := by
  have hgap : dev.gap ≤ dev.endp := by
    have := aimed.rp
    unfold ScullPipe.gap
    split <;> omega
  rw [writeCount_eq aimed]
  exact (((clamp_le _ _).trans (Nat.min_le_right _ _)).trans hgap).trans_lt aimed.top

end MyDrivers.Pipe
