import MyDrivers.Lib.Machine
import MyDrivers.Lib.Traced

/-! The data of a scull device (`common_scull/scull.h`). A `next` chain is the
list of its nodes and a pointer into it is a position; every object carries its
address and the allocator it came from. -/
namespace MyDrivers.Store
open Lib Lib.Machine

abbrev Byte := UInt8
abbrev Addr := Nat

def EPERM : Int := 1
def EAGAIN : Int := 11
def ENOMEM : Int := 12
def EFAULT : Int := 14
def EBUSY : Int := 16
def EINVAL : Int := 22
def ENOTTY : Int := 25
def ERESTARTSYS : Int := 512

def O_ACCMODE : Nat := 0o3
def O_WRONLY : Nat := 0o1
def O_RDWR : Nat := 0o2
def O_NONBLOCK : Nat := 0o4000

/-- The largest count that the VFS passes on. -/
def MAX_RW_COUNT : Nat := 0x7ffff000

def QUANTUM_SIZE : Int := 1024
def QSET_SIZE : Int := 1000

inductive ScullType where
  | basic
  | c
  | p
  deriving DecidableEq, Repr

inductive Allocator where
  | kmalloc
  | cache
  | pages (order : Nat)
  deriving DecidableEq, Repr

/-- A data block, as large as its allocator made it. -/
structure Block where
  addr : Addr
  via : Allocator
  bytes : List Byte
  deriving DecidableEq, Repr

/-- The `void** data` of a node, with one slot per pointer allocated. -/
structure SlotArray where
  addr : Addr
  slots : List (Option Block)
  deriving DecidableEq, Repr

structure ScullQset where
  addr : Addr
  data : Option SlotArray
  deriving DecidableEq, Repr

structure ScullDev where
  data : List ScullQset
  quantum : Int
  qset : Int
  size : Int
  order : Nat
  type : ScullType
  deriving DecidableEq, Repr

/-- The two module globals, the object size of `scull_cache` and `PAGE_SIZE`. -/
structure Globals where
  scullQuantum : Int
  scullQsetN : Int
  cacheSize : Nat
  pageSize : Nat
  deriving DecidableEq, Repr

/-- What a call does to memory, in the order in which it does it. -/
inductive Event where
  | divide (divisor : Int)
  /-- `p->next`, with the position of `p` in its list (`none` for `NULL`). -/
  | follow (pointer : Option Nat)
  /-- `data[index]` in an array allocated with `slots` pointers. -/
  | slot (index : Int) (slots : Nat)
  /-- `memset` or a user copy of `len` bytes from offset `start` of a block. -/
  | bytes (start : Int) (len : Nat) (size : Nat)
  | alloc (addr : Addr) (via : Allocator)
  | free (addr : Addr) (via : Allocator)
  deriving DecidableEq, Repr

/-- Whether the kernel survives the event with its other objects intact. -/
def Event.allowed : Event → Bool
  | .divide divisor => divisor ≠ 0
  | .follow pointer => pointer.isSome
  | .slot index slots => 0 ≤ index ∧ index < slots
  | .bytes start len size => 0 ≤ start ∧ start + len ≤ size
  | .alloc _ _ => true
  | .free _ _ => true

abbrev touch (e : Event) : Traced Event Unit := Traced.guarded Event.allowed e

/-- The results of the allocations a call is going to make, first one first. -/
abbrev Supply := Nat → Option Addr

def Supply.drop (supply : Supply) (n : Nat) : Supply := fun k => supply (k + n)

@[simp] theorem Supply.drop_zero (supply : Supply) : supply.drop 0 = supply := rfl

@[simp] theorem Supply.drop_drop (supply : Supply) (m n : Nat) :
    (supply.drop m).drop n = supply.drop (n + m) := by
  funext k
  simp [Supply.drop, Nat.add_assoc]

/-- The choices of the kernel and the user during one call: whether the wait
for the semaphore is interrupted, what the allocators return and with what
contents, and how many bytes of the user's buffer can be copied. -/
structure Env where
  interrupted : Bool
  supply : Supply
  junk : Nat → Byte
  accessible : Nat

/-- One allocation, of a size that its allocator can give. -/
def Event.grant? (supply : Supply) (via : Allocator) : Traced Event (Option Addr × Supply) :=
  match supply 0 with
  | none => pure (none, supply.drop 1)
  | some addr => do
      Traced.emit (.alloc addr via)
      pure (some addr, supply.drop 1)

/-- One allocation; no `kmalloc` of half the address space succeeds. -/
def Event.alloc? (supply : Supply) (via : Allocator) (size : Nat) :
    Traced Event (Option Addr × Supply) :=
  if via = .kmalloc ∧ 2 ^ 63 ≤ size then pure (none, supply.drop 1) else Event.grant? supply via

/-- What `copy_from_user` stores of `n` bytes of `buff` when the first `accessible` of
them can be read: it fills up with zeros behind a fault. -/
def copyFromUser (buff : List Byte) (n accessible : Nat) : List Byte :=
  buff.take (min n accessible) ++ List.replicate (n - accessible) 0

section CopyFromUser
variable {buff : List Byte} {n accessible : Nat}

theorem copyFromUser_full (h : n ≤ accessible) : copyFromUser buff n accessible = buff.take n := by
  simp [copyFromUser, h]

theorem length_copyFromUser (h : n ≤ buff.length) : (copyFromUser buff n accessible).length = n := by
  rw [copyFromUser, List.length_append, List.length_take, List.length_replicate]
  omega

theorem getD_copyFromUser (hn : n ≤ buff.length) {k : Nat} (hk : k < n) :
    (copyFromUser buff n accessible).getD k 0 = if k < accessible then buff.getD k 0 else 0 := by
  have htaken : (buff.take (min n accessible)).length = min n accessible := by
    rw [List.length_take]
    omega
  simp only [copyFromUser, List.getD_eq_getElem?_getD, List.getElem?_append, htaken]
  split
  · next hread =>
    rw [if_pos (by omega), List.getElem?_take_of_lt (by omega)]
  · next hfault =>
    rw [if_neg (by omega), List.getElem?_replicate]
    split <;> rfl

end CopyFromUser

/-! ## Geometry -/

/-- The arithmetic of a position never divides by zero for these settings: both
are positive and their product is not a multiple of `2 ^ 32`. -/
def Divides (quantum qset : Int) : Prop :=
  1 ≤ quantum ∧ quantum < 2147483648 ∧ 1 ≤ qset ∧ qset < 2147483648 ∧
    int32 (quantum * qset) ≠ 0

/-- Both settings are positive and the size of an item fits an `int`. -/
def Sound (quantum qset : Int) : Prop :=
  1 ≤ quantum ∧ 1 ≤ qset ∧ quantum * qset < 2147483648

instance (quantum qset : Int) : Decidable (Divides quantum qset) :=
  inferInstanceAs (Decidable (_ ∧ _))

instance (quantum qset : Int) : Decidable (Sound quantum qset) :=
  inferInstanceAs (Decidable (_ ∧ _))

theorem Sound.item_pos {quantum qset : Int} (h : Sound quantum qset) : 0 < quantum * qset :=
  Int.mul_pos (by have := h.1; omega) (by have := h.2.1; omega)

theorem Sound.quantum_pos {quantum qset : Nat} (h : Sound quantum qset) : 0 < quantum :=
  Int.natCast_pos.mp h.1

theorem Sound.qset_pos {quantum qset : Nat} (h : Sound quantum qset) : 0 < qset :=
  Int.natCast_pos.mp h.2.1

theorem Sound.int32_eq {quantum qset : Int} (h : Sound quantum qset) :
    int32 (quantum * qset) = quantum * qset :=
  int32_eq_self (by have := h.item_pos; omega) h.2.2

theorem Sound.divides {quantum qset : Int} (h : Sound quantum qset) : Divides quantum qset := by
  obtain ⟨hquantum, hqset, hitem⟩ := h
  have hleft : quantum * 1 ≤ quantum * qset := Int.mul_le_mul_of_nonneg_left hqset (by omega)
  have hright : 1 * qset ≤ quantum * qset := Int.mul_le_mul_of_nonneg_right hquantum (by omega)
  refine ⟨hquantum, by omega, hqset, by omega, ?_⟩
  rw [Sound.int32_eq ⟨hquantum, hqset, hitem⟩]
  omega

theorem Sound.toNat {quantum qset : Int} (h : Sound quantum qset) :
    ∃ q s : Nat, quantum = q ∧ qset = s ∧ quantum.toNat = q ∧ qset.toNat = s ∧ Sound q s := by
  obtain ⟨q, hq⟩ := Int.eq_ofNat_of_zero_le (show 0 ≤ quantum by
    have := h.1
    omega)
  obtain ⟨s, hs⟩ := Int.eq_ofNat_of_zero_le (show 0 ≤ qset by
    have := h.2.1
    omega)
  subst hq hs
  exact ⟨q, s, rfl, rfl, Int.toNat_natCast q, Int.toNat_natCast s, h⟩

end MyDrivers.Store
