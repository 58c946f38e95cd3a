import MyDrivers.Store.Device

/-! The functions of `common_scull/base_scull.c` that act on one device, and the
`scull_open` its modules share. A read or a write is split where the source
takes the semaphore: the snapshot reads the device before that point and the
locked part works from the snapshot. -/
namespace MyDrivers.Store
open Lib Lib.Machine

def freedVia (dev : ScullDev) : Allocator :=
  match dev.type with
  | .basic => .kmalloc
  | .c => .cache
  | .p => .pages dev.order

def scullFree (dev : ScullDev) (block : Block) : Traced Event Unit :=
  Traced.emit (.free block.addr (freedVia dev))

/-- The size of the object `scull_alloc` asks its allocator for. -/
def blockSize (g : Globals) (dev : ScullDev) : Nat :=
  match dev.type with
  | .basic => uint64 dev.quantum
  | .c => g.cacheSize
  | .p => g.pageSize * 2 ^ dev.order

def scullAlloc (g : Globals) (dev : ScullDev) (supply : Supply) (junk : Nat → Byte) :
    Traced Event (Option Block × Supply) := do
  let (addr, supply) ← Event.alloc? supply (freedVia dev) (blockSize g dev)
  pure (addr.map fun addr => ⟨addr, freedVia dev, (List.range (blockSize g dev)).map junk⟩, supply)

/-! ## scull_trim -/

def trimSlots (dev : ScullDev) (array : SlotArray) : List Nat → Traced Event Unit
  | [] => pure ()
  | i :: rest => do
      touch (.slot i array.slots.length)
      match array.slots[i]?.join with
      | some block => scullFree dev block
      | none => pure ()
      trimSlots dev array rest

def trimNodes (dev : ScullDev) : List ScullQset → Traced Event Unit
  | [] => pure ()
  | dptr :: next => do
      match dptr.data with
      | some array =>
          trimSlots dev array (List.range dev.qset.toNat)
          Traced.emit (.free array.addr .kmalloc)
      | none => pure ()
      Traced.emit (.free dptr.addr .kmalloc)
      trimNodes dev next

def scullTrim (g : Globals) (dev : ScullDev) : Traced Event ScullDev := do
  trimNodes dev dev.data
  pure { dev with size := 0, data := [], qset := g.scullQsetN, quantum := g.scullQuantum }

/-! ## scull_follow -/

def sizeofQset : Nat := 16

/-- The node a walk arrived at (`none` for `NULL`) and the list it left. -/
structure Followed where
  node : Option Nat
  head : List ScullQset
  supply : Supply

def next (head : List ScullQset) (qs : Nat) : Option Nat :=
  if qs + 1 < head.length then some (qs + 1) else none

/-- `prev->next = qs` for a fresh, zeroed node. -/
def appendNode (head : List ScullQset) (prev : Option Nat) (supply : Supply) :
    Traced Event Followed := do
  let (qs, supply) ← Event.alloc? supply .kmalloc sizeofQset
  match qs with
  | none => pure ⟨none, head, supply⟩
  | some addr =>
      touch (.follow prev)
      let position := prev.getD 0 + 1
      pure ⟨some position, head.take position ++ [⟨addr, none⟩], supply⟩

/-- The `while (item >= 0)` loop, with the number of rounds left. -/
def followLoop (head : List ScullQset) (prev qs : Option Nat) (supply : Supply) :
    Nat → Traced Event Followed
  | 0 => pure ⟨prev, head, supply⟩
  | rounds + 1 => do
      let found ← match qs with
        | some _ => pure ⟨qs, head, supply⟩
        | none => appendNode head prev supply
      match found.node with
      | none => pure found
      | some node =>
          followLoop found.head found.node (next found.head node) found.supply rounds

def scullFollow (head : List ScullQset) (item : Int) (supply : Supply) :
    Traced Event Followed := do
  match head with
  | _ :: _ => followLoop head none (some 0) supply (item + 1).toNat
  | [] =>
      let (qs, supply) ← Event.alloc? supply .kmalloc sizeofQset
      match qs with
      | none => pure ⟨none, [], supply⟩
      | some addr => followLoop [⟨addr, none⟩] none (some 0) supply (item + 1).toNat

/-! ## Splitting a position -/

structure Address where
  item : Int
  sPos : Int
  qPos : Int
  deriving DecidableEq, Repr

/-- `item`, `s_pos` and `q_pos` of a position, with the `int`s of the source. -/
def address (itemsize quantum pos : Int) : Traced Event Address := do
  touch (.divide itemsize)
  let item := int32 (pos.tdiv itemsize)
  let rest := int32 (pos.tmod itemsize)
  touch (.divide quantum)
  pure ⟨item, rest.tdiv quantum, rest.tmod quantum⟩

/-- What a read or write returns, the device it leaves, `*f_pos` afterwards and
the bytes that reached the user or the device. -/
structure Transfer where
  ret : Int
  dev : ScullDev
  pos : Int
  bytes : List Byte
  deriving DecidableEq, Repr

def slotsAt (head : List ScullQset) (node : Nat) : Option SlotArray :=
  head[node]?.bind (·.data)

def SlotArray.blockAt (array : SlotArray) (sPos : Int) : Option Block :=
  array.slots[sPos.toNat]?.join

/-! ## scull_read -/

structure ReadSnapshot where
  quantum : Int
  qset : Int
  leftQuantity : Int
  deriving DecidableEq, Repr

def readSnapshot (dev : ScullDev) (pos : Int) : ReadSnapshot :=
  ⟨dev.quantum, dev.qset, int64 (dev.size - pos)⟩

/-- The clamps on the count of a read, first by the file and then by the block. -/
def readCount (snap : ReadSnapshot) (qPos : Int) (count : Nat) : Nat :=
  let left := uint64 snap.leftQuantity
  let count := if count > left then left else count
  let room := uint64 (int32 (snap.quantum - qPos))
  if count > room then room else count

/-- Copy `count` bytes of a block to the user. -/
def copyOut (dev : ScullDev) (addr : Address) (block : Block) (count : Nat) (pos : Int)
    (accessible : Nat) : Traced Event Transfer := do
  touch (.bytes addr.qPos count block.bytes.length)
  let bytes := (block.bytes.drop addr.qPos.toNat).take count
  if accessible < count then
    return ⟨-EFAULT, dev, pos, bytes.take accessible⟩
  return ⟨int64 count, dev, int64 (pos + count), bytes⟩

def scullReadLocked (snap : ReadSnapshot) (dev : ScullDev) (count : Nat) (pos : Int)
    (env : Env) : Traced Event Transfer := do
  if env.interrupted then
    return ⟨-ERESTARTSYS, dev, pos, []⟩
  if pos ≥ dev.size then
    return ⟨0, dev, pos, []⟩
  let addr ← address (int32 (snap.quantum * snap.qset)) snap.quantum pos
  let dptr ← scullFollow dev.data addr.item env.supply
  match dptr.node.bind (slotsAt dptr.head) with
  | none => return ⟨0, { dev with data := dptr.head }, pos, []⟩
  | some array =>
      touch (.slot addr.sPos array.slots.length)
      match array.blockAt addr.sPos with
      | none => return ⟨0, { dev with data := dptr.head }, pos, []⟩
      | some block =>
          copyOut { dev with data := dptr.head } addr block (readCount snap addr.qPos count) pos
            env.accessible

def scullRead (dev : ScullDev) (count : Nat) (pos : Int) (env : Env) : Traced Event Transfer :=
  scullReadLocked (readSnapshot dev pos) dev count pos env

/-! ## scull_write -/

structure WriteSnapshot where
  qset : Int
  quantum : Int
  deriving DecidableEq, Repr

def writeSnapshot (dev : ScullDev) : WriteSnapshot := ⟨dev.qset, dev.quantum⟩

/-- `dptr->data = array`. -/
def setSlots (head : List ScullQset) (node : Nat) (array : SlotArray) : List ScullQset :=
  head.modify node fun dptr => { dptr with data := some array }

/-- `dptr->data[s_pos] = block`. -/
def setBlock (head : List ScullQset) (node : Nat) (array : SlotArray) (sPos : Int)
    (block : Block) : List ScullQset :=
  setSlots head node { array with slots := array.slots.set sPos.toNat (some block) }

/-- Overwrite bytes of a block, as `memset` and `copy_from_user` do. -/
def Block.store (block : Block) (start : Nat) (bytes : List Byte) : Block :=
  { block with
    bytes := block.bytes.take start ++ bytes ++ block.bytes.drop (start + bytes.length) }

/-- Give the node a zeroed array of `qset` slots if it has none. -/
def ensureSlots (qset : Int) (head : List ScullQset) (node : Nat) (supply : Supply) :
    Traced Event (Option SlotArray × List ScullQset × Supply) := do
  match slotsAt head node with
  | some array => return (some array, head, supply)
  | none =>
      let size := uint64 (8 * qset)
      let (addr, supply) ← Event.alloc? supply .kmalloc size
      match addr with
      | none => return (none, head, supply)
      | some addr =>
          let array : SlotArray := ⟨addr, List.replicate (size / 8) none⟩
          return (some array, setSlots head node array, supply)

/-- Give the slot a block whose first `quantum` bytes are zero if it has none. -/
def ensureBlock (g : Globals) (dev : ScullDev) (quantum : Int) (head : List ScullQset)
    (node : Nat) (array : SlotArray) (sPos : Int) (supply : Supply) (junk : Nat → Byte) :
    Traced Event (Option Block × List ScullQset) := do
  match array.blockAt sPos with
  | some block => return (some block, head)
  | none =>
      let (block, _) ← scullAlloc g dev supply junk
      match block with
      | none => return (none, head)
      | some block =>
          touch (.bytes 0 (uint64 quantum) block.bytes.length)
          let block := block.store 0 (List.replicate (uint64 quantum) 0)
          return (some block, setBlock head node array sPos block)

/-- Clamp the count to the block and copy the user's bytes into it. -/
def copyIn (dev : ScullDev) (head : List ScullQset) (node : Nat) (array : SlotArray)
    (addr : Address) (block : Block) (buff : List Byte) (pos : Int) (accessible : Nat) :
    Traced Event Transfer := do
  let room := uint64 (int32 (dev.quantum - addr.qPos))
  let count := if buff.length > room then room else buff.length
  touch (.bytes addr.qPos count block.bytes.length)
  -- A faulting copy has already overwritten what it was to overwrite.
  let bytes := copyFromUser buff count accessible
  let head := setBlock head node array addr.sPos (block.store addr.qPos.toNat bytes)
  if accessible < count then
    return ⟨-EFAULT, { dev with data := head }, pos, bytes⟩
  return ⟨int64 count, { dev with data := head, size := int64 (dev.size + count) },
    int64 (pos + count), bytes⟩

def scullWriteLocked (g : Globals) (snap : WriteSnapshot) (dev : ScullDev) (buff : List Byte)
    (pos : Int) (env : Env) : Traced Event Transfer := do
  if env.interrupted then
    return ⟨-ERESTARTSYS, dev, pos, []⟩
  let addr ← address (int32 (snap.qset * snap.quantum)) snap.quantum pos
  let dptr ← scullFollow dev.data addr.item env.supply
  match dptr.node with
  | none => return ⟨-ENOMEM, { dev with data := dptr.head }, pos, []⟩
  | some node =>
      let (array, head, supply) ← ensureSlots snap.qset dptr.head node dptr.supply
      match array with
      | none => return ⟨-ENOMEM, { dev with data := head }, pos, []⟩
      | some array =>
          touch (.slot addr.sPos array.slots.length)
          let (block, head) ←
            ensureBlock g dev snap.quantum head node array addr.sPos supply env.junk
          match block with
          | none => return ⟨-ENOMEM, { dev with data := head }, pos, []⟩
          | some block => copyIn dev head node array addr block buff pos env.accessible

def scullWrite (g : Globals) (dev : ScullDev) (buff : List Byte) (pos : Int) (env : Env) :
    Traced Event Transfer :=
  scullWriteLocked g (writeSnapshot dev) dev buff pos env

/-! ## scull_open and scull_init -/

def scullOpen (g : Globals) (dev : ScullDev) (fFlags : Nat) : Traced Event ScullDev :=
  if fFlags &&& O_ACCMODE = O_WRONLY then scullTrim g dev else pure dev

/-- An element of `scull_devices` as the `scull_init` of its module sets it up. -/
def scullInitDev (g : Globals) (type : ScullType) (order : Nat) : ScullDev where
  data := []
  quantum :=
    match type with
    | .basic | .c => g.scullQuantum
    | .p => int32 (g.pageSize * 2 ^ order)
  qset := g.scullQsetN
  size := 0
  order :=
    match type with
    | .basic | .c => 0
    | .p => order
  type := type

end MyDrivers.Store
