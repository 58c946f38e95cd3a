import MyDrivers.Store.Follow

/-! The locked part of `scull_write`. Under a snapshot that fits the device every
access stays inside its object, and the cells change only where the bytes of the
call go. `quantum` is the snapshot's block size and `room` the device's. -/
namespace MyDrivers.Store
open Lib Lib.Machine

variable {quantum room qset : Nat}

theorem uint64_room {qPos : Int} (hlow : 0 ≤ qPos) (hhigh : qPos < quantum)
    (hquantum : (quantum : Int) < 2147483648) :
    uint64 (int32 (quantum - qPos)) = quantum - qPos.toNat := by
  rw [int32_eq_self (by omega) (by omega), uint64_eq_toNat (by omega) (by omega)]
  omega

theorem blockIn_eq_blockAt {head : List ScullQset} {node : Nat} {array : SlotArray}
    (harray : slotsAt head node = some array) (sPos : Int) :
    blockIn head node sPos.toNat = array.blockAt sPos := by
  simp [blockIn, SlotArray.blockAt, harray]

/-! ## Arrays and blocks on demand -/

def absent {α : Type} (object : Option α) : Nat := if object.isNone then 1 else 0

theorem Supply.enough_absent {α : Type} (object : Option α) (obtainable : Prop) (supply : Supply) :
    (object.isSome ∨ obtainable) ∧ supply.Enough (absent object) ↔
      object.isSome ∨ obtainable ∧ (supply 0).isSome := by
  cases object with
  | none => simp [absent, supply.enough_succ 0, Supply.enough_zero]
  | some value => simp [absent, supply.enough_zero]

structure SlotsReady (size : Int) (head : List ScullQset) (node : Nat) (supply : Supply)
    (array : Option SlotArray) (after : List ScullQset) (rest : Supply) : Prop where
  blocks : ∀ i s, blockIn after i s = blockIn head i s
  shaped : ∀ quantum rows, uint64 (8 * size) / 8 = rows → Shaped quantum rows head →
    Shaped quantum rows after
  placed : ∀ a, array = some a → slotsAt after node = some a
  failed : array = none → after = head
  ready : array.isSome ↔ ((slotsAt head node).isSome ∨
    Obtainable .kmalloc (uint64 (8 * size))) ∧ supply.Enough (absent (slotsAt head node))
  supplied : array.isSome → rest = supply.drop (absent (slotsAt head node))

theorem ensureSlots_safe (width rows size : Int) {head : List ScullQset} {node : Nat}
    (hnode : node < head.length) (supply : Supply) :
    (ensureSlots size head node supply).Safe (Within width rows) fun r =>
      SlotsReady size head node supply r.1 r.2.1 r.2.2 := by
  unfold ensureSlots
  cases harray : slotsAt head node with
  | some array =>
    exact .pure ⟨fun _ _ => rfl, fun _ _ _ h => h, fun a ha => by cases ha; exact harray,
      by simp, by simp [harray, absent, supply.enough_zero], fun _ => by simp [harray, absent]⟩
  | none =>
    refine .bind (alloc?_safe width rows supply .kmalloc (uint64 (8 * size))) ?_
    rintro ⟨addr, rest⟩ ⟨hrest, haddr⟩
    obtain rfl : rest = supply.drop 1 := hrest
    cases addr with
    | none =>
      refine .pure ⟨fun _ _ => rfl, fun _ _ _ h => h, by simp, fun _ => rfl, ?_, by simp⟩
      rw [Supply.enough_absent]
      simpa [harray] using haddr
    | some addr =>
      have hblocks (count i s : Nat) :
          blockIn (setSlots head node ⟨addr, List.replicate count none⟩) i s =
            blockIn head i s := by
        unfold blockIn
        rw [slotsAt_setSlots]
        by_cases hi : i = node
        · subst hi
          simp only [hnode, and_self, if_true, harray, Option.bind_some, Option.bind_none]
          rw [List.getElem?_replicate]
          split <;> rfl
        · simp [hi]
      refine .pure ⟨hblocks _, fun q rows hrows hshaped => ⟨fun i other hother => ?_,
        fun i s block hblock => ?_⟩, ?_, by simp, ?_, fun _ => ?_⟩
      · rw [slotsAt_setSlots] at hother
        split at hother
        · cases hother
          simpa using hrows
        · exact hshaped.slots i other hother
      · rw [hblocks] at hblock
        exact hshaped.blocks i s block hblock
      · rintro a ⟨rfl⟩
        rw [slotsAt_setSlots, if_pos ⟨rfl, hnode⟩]
      · rw [Supply.enough_absent]
        simpa [harray] using haddr
      · simp [harray, absent]

theorem ensureBlock_returns (g : Globals) (dev : ScullDev) (size : Int) {head : List ScullQset}
    {node : Nat} {array : SlotArray} (harray : slotsAt head node = some array) (sPos : Int)
    (supply : Supply) (junk : Nat → Byte) :
    (ensureBlock g dev size head node array sPos supply junk).Returns fun r =>
      (r.1.isSome ↔ ((blockIn head node sPos.toNat).isSome ∨
        Obtainable (freedVia dev) (blockSize g dev)) ∧
          supply.Enough (absent (blockIn head node sPos.toNat))) := by
  have hlookup := blockIn_eq_blockAt harray sPos
  simp only [Supply.enough_absent]
  unfold ensureBlock
  cases hblock : array.blockAt sPos with
  | some block => exact .pure (by simp [hlookup, hblock])
  | none =>
    unfold scullAlloc
    simp only [bind_assoc]
    refine .bind _ (alloc?_safe 0 0 supply (freedVia dev) (blockSize g dev)).returns ?_
    rintro ⟨addr, rest⟩ ⟨-, haddr⟩
    rw [hlookup, hblock]
    cases addr with
    | none => exact .pure (by simpa using haddr)
    | some addr =>
      simp only [pure_bind]
      exact .skip fun _ => .pure (by simpa using haddr)

structure BlockReady (quantum room : Nat) (head : List ScullQset) (node : Nat)
    (array : SlotArray) (sPos : Int) (block : Option Block) (after : List ScullQset) :
    Prop where
  failed : block = none → after = head
  large : ∀ b, block = some b → room ≤ b.bytes.length
  content : ∀ b, block = some b → ∀ offset < quantum,
    b.bytes.getD offset 0 = cell head node sPos.toNat offset
  replaced : ∀ b, block = some b → ∀ b',
    setBlock after node array sPos b' = setBlock head node array sPos b'

theorem ensureBlock_safe {g : Globals} {dev : ScullDev} (hquantum : (quantum : Int) < 2147483648)
    (hle : quantum ≤ room) (hfits : room ≤ blockSize g dev) {head : List ScullQset}
    (hshaped : Shaped room qset head) {node : Nat} {array : SlotArray}
    (harray : slotsAt head node = some array) (sPos : Int) (supply : Supply) (junk : Nat → Byte) :
    (ensureBlock g dev quantum head node array sPos supply junk).Safe (Within room qset)
      fun r => BlockReady quantum room head node array sPos r.1 r.2 := by
  have hlookup := blockIn_eq_blockAt harray sPos
  unfold ensureBlock
  cases hblock : array.blockAt sPos with
  | some block =>
    rw [hblock] at hlookup
    refine .pure ⟨by simp, ?_, ?_, fun _ _ _ => rfl⟩
    · rintro b ⟨rfl⟩
      exact hshaped.blocks _ _ _ hlookup
    · rintro b ⟨rfl⟩ offset -
      simp [cell, hlookup]
  | none =>
    rw [hblock] at hlookup
    unfold scullAlloc
    simp only [bind_assoc]
    refine .bind (alloc?_safe room qset supply (freedVia dev) (blockSize g dev)) ?_
    rintro ⟨addr, rest⟩ -
    simp only [pure_bind]
    cases addr with
    | none => exact .pure ⟨fun _ => rfl, by simp, by simp, by simp⟩
    | some addr =>
      have hzero : uint64 (quantum : Int) = quantum := uint64_natCast (by omega)
      simp only [Option.map_some, hzero]
      have hfit : 0 + (List.replicate quantum (0 : Byte)).length ≤
          ((List.range (blockSize g dev)).map junk).length := by simpa using hle.trans hfits
      refine .bind (touch_safe ⟨le_refl _, by simpa using hle, by simpa using hfits⟩)
        fun _ _ => .pure ?_
      refine ⟨by simp, ?_, ?_, ?_⟩
      · rintro b ⟨rfl⟩
        rw [length_store _ _ _ hfit]
        simpa using hfits
      · rintro b ⟨rfl⟩ offset hoffset
        rw [getD_store _ _ _ _ hfit, if_pos (by simpa using hoffset)]
        simp [cell, hlookup, hoffset]
      · rintro b ⟨rfl⟩ b'
        exact setBlock_setBlock _ _ _ _ _ _

/-! ## The copy -/

structure Stored (quantum : Nat) (before after : List ScullQset) (addr : Address)
    (bytes : List Byte) : Prop where
  cells : ∀ i s offset, offset < quantum → cell after i s offset =
    if ((i : Int) = addr.item ∧ s = addr.sPos.toNat) ∧
        addr.qPos.toNat ≤ offset ∧ offset < addr.qPos.toNat + bytes.length then
      bytes.getD (offset - addr.qPos.toNat) 0
    else cell before i s offset
  kept : ∀ i s, (blockIn before i s).isSome → (blockIn after i s).isSome

theorem Stored.refl {before after : List ScullQset} (h : ∀ i s, blockIn after i s = blockIn before i s)
    (addr : Address) : Stored quantum before after addr [] := by
  refine ⟨fun i s offset _ => ?_, fun i s hblock => by rw [h]; exact hblock⟩
  rw [if_neg (by rw [List.length_nil]; omega)]
  simp only [cell, h]

theorem Stored.from_blocks {start before after : List ScullQset} {addr : Address}
    {bytes : List Byte} (h : Stored quantum before after addr bytes)
    (hstart : ∀ i s, blockIn before i s = blockIn start i s) :
    Stored quantum start after addr bytes := by
  refine ⟨fun i s offset hoffset => ?_, fun i s hblock => h.kept i s (by rw [hstart]; exact hblock)⟩
  rw [h.cells i s offset hoffset]
  simp only [cell, hstart]

theorem stored_setBlock {head : List ScullQset} {node : Nat} {array : SlotArray} {addr : Address}
    {block : Block} {bytes : List Byte} (hnode : (node : Int) = addr.item)
    (harray : slotsAt head node = some array) (hslot : addr.sPos.toNat < array.slots.length)
    (hcontent : ∀ offset < quantum,
      block.bytes.getD offset 0 = cell head node addr.sPos.toNat offset)
    (hfit : addr.qPos.toNat + bytes.length ≤ block.bytes.length) :
    Stored quantum head
      (setBlock head node array addr.sPos (block.store addr.qPos.toNat bytes)) addr bytes := by
  refine ⟨fun i s offset hoffset => ?_, fun i s hblock => ?_⟩
  · rw [cell_setBlock harray hslot, getD_store _ _ _ _ hfit, hcontent offset hoffset]
    by_cases hplace : i = node ∧ s = addr.sPos.toNat
    · obtain ⟨rfl, rfl⟩ := hplace
      simp [hnode]
    · rw [if_neg hplace, if_neg]
      rintro ⟨⟨hi, hs⟩, -⟩
      exact hplace ⟨by omega, hs⟩
  · rw [blockIn_setBlock harray hslot]
    split
    · rfl
    · exact hblock

def clamped (dev : ScullDev) (addr : Address) (buff : List Byte) : Nat :=
  min buff.length (uint64 (int32 (dev.quantum - addr.qPos)))

def copied (dev : ScullDev) (head : List ScullQset) (node : Nat) (array : SlotArray)
    (addr : Address) (block : Block) (buff : List Byte) (pos : Int) (accessible : Nat) :
    Transfer :=
  let count := clamped dev addr buff
  let after (bytes : List Byte) :=
    setBlock head node array addr.sPos (block.store addr.qPos.toNat bytes)
  let bytes := copyFromUser buff count accessible
  if accessible < count then ⟨-EFAULT, { dev with data := after bytes }, pos, bytes⟩
  else
    ⟨int64 count, { dev with data := after bytes, size := int64 (dev.size + count) },
      int64 (pos + count), bytes⟩

theorem copyIn_eq (dev : ScullDev) (head : List ScullQset) (node : Nat) (array : SlotArray)
    (addr : Address) (block : Block) (buff : List Byte) (pos : Int) (accessible : Nat) :
    copyIn dev head node array addr block buff pos accessible =
      touch (.bytes addr.qPos (clamped dev addr buff) block.bytes.length) >>= fun _ =>
        pure (copied dev head node array addr block buff pos accessible) := by
  have hclamp (room : Nat) : (if buff.length > room then room else buff.length) =
      min buff.length room := by
    split <;> omega
  unfold copyIn copied
  simp only [hclamp]
  change touch (.bytes addr.qPos (clamped dev addr buff) block.bytes.length) >>= _ = _
  unfold clamped
  congr 1
  funext _
  split <;> rfl

/-! ## The locked part of scull_write -/

/-- The three ways a write that was not interrupted returns. -/
inductive WriteOutcome (room : Nat) (dev : ScullDev) (buff : List Byte) (pos : Int)
    (accessible : Nat) (addr : Address) (t : Transfer) : Prop where
  | noMemory (ret : t.ret = -ENOMEM) (bytes : t.bytes = []) (size : t.dev.size = dev.size)
      (pos : t.pos = pos)
  | fault (ret : t.ret = -EFAULT) (item : 0 ≤ addr.item)
      (short : accessible < min buff.length (room - addr.qPos.toNat))
      (bytes : t.bytes =
        copyFromUser buff (min buff.length (room - addr.qPos.toNat)) accessible) (size : t.dev.size = dev.size)
      (pos : t.pos = pos)
  | done (count : Nat) (hcount : count = min buff.length (room - addr.qPos.toNat))
      (item : 0 ≤ addr.item) (ret : t.ret = count) (bytes : t.bytes = buff.take count)
      (size : t.dev.size = int64 (dev.size + count)) (pos : t.pos = int64 (pos + count))
      (block : (blockIn t.dev.data addr.item.toNat addr.sPos.toNat).isSome)

structure Written (quantum room qset : Nat) (dev : ScullDev) (buff : List Byte) (pos : Int)
    (env : Env) (addr : Address) (t : Transfer) : Prop where
  geometry : t.dev = { dev with data := t.dev.data, size := t.dev.size }
  shaped : Shaped room qset t.dev.data
  stored : Stored quantum dev.data t.dev.data addr t.bytes
  outcome : WriteOutcome room dev buff pos env.accessible addr t

theorem copied_written {dev : ScullDev} {head : List ScullQset} {node : Nat} {array : SlotArray}
    {addr : Address} {block : Block} {buff : List Byte} {pos : Int} {env : Env}
    (hroom : (room : Int) < 2147483648) (hdev : dev.quantum = room)
    (haddr : InGeometry room qset addr) (hnode : (node : Int) = addr.item)
    (hshaped : Shaped room qset head) (harray : slotsAt head node = some array)
    (hlarge : room ≤ block.bytes.length)
    (hcontent : ∀ offset < quantum,
      block.bytes.getD offset 0 = cell head node addr.sPos.toNat offset)
    (hhead : ∀ i s, blockIn head i s = blockIn dev.data i s) :
    Written quantum room qset dev buff pos env addr
      (copied dev head node array addr block buff pos env.accessible) := by
  obtain ⟨hslow, hshigh, hqlow, hqhigh⟩ := haddr
  have harrayLength := hshaped.slots node array harray
  have hslot : addr.sPos.toNat < array.slots.length := by omega
  have hcount : clamped dev addr buff = min buff.length (room - addr.qPos.toNat) := by
    rw [clamped, hdev, uint64_room hqlow hqhigh hroom]
  -- what the copy leaves, for any bytes that fit the rest of the block
  have hcopied (bytes : List Byte) (hbytes : bytes.length ≤ room - addr.qPos.toNat) :
      Shaped room qset
          (setBlock head node array addr.sPos (block.store addr.qPos.toNat bytes)) ∧
        Stored quantum dev.data
          (setBlock head node array addr.sPos (block.store addr.qPos.toNat bytes)) addr bytes := by
    have hfit : addr.qPos.toNat + bytes.length ≤ block.bytes.length := by omega
    refine ⟨shaped_setBlock hshaped harray hslot ?_, ?_⟩
    · rw [length_store _ _ _ hfit]
      exact hlarge
    · exact (stored_setBlock hnode harray hslot hcontent hfit).from_blocks hhead
  unfold copied
  simp only [hcount]
  generalize hn : min buff.length (room - addr.qPos.toNat) = count
  have hcountLe : count ≤ room - addr.qPos.toNat := hn ▸ Nat.min_le_right _ _
  have hitem : 0 ≤ addr.item := by omega
  have hlength : (copyFromUser buff count env.accessible).length = count :=
    length_copyFromUser (hn ▸ Nat.min_le_left _ _)
  obtain ⟨hafter, hstored⟩ := hcopied _ (hlength.le.trans hcountLe)
  split
  · next hshort => exact ⟨rfl, hafter, hstored, .fault rfl hitem (hn ▸ hshort) (hn ▸ rfl) rfl rfl⟩
  · next hlong =>
    rw [copyFromUser_full (Nat.le_of_not_lt hlong)] at hafter hstored ⊢
    have hret : int64 (count : Int) = count := int64_eq_self (by omega) (by omega)
    refine ⟨rfl, hafter, hstored, .done count hn.symm (by omega) hret rfl rfl rfl ?_⟩
    rw [show addr.item.toNat = node by omega, blockIn_setBlock harray hslot, if_pos ⟨rfl, rfl⟩]
    rfl

theorem scullWriteLocked_safe {g : Globals} {dev : ScullDev} {buff : List Byte} {pos : Int}
    {env : Env} (hroom : (room : Int) < 2147483648) (hqset : (qset : Int) < 2147483648)
    (hle : quantum ≤ room) (hdev : dev.quantum = room) (hshaped : Shaped room qset dev.data)
    (hfits : room ≤ blockSize g dev) (hrun : env.interrupted = false)
    {known : Address → Prop} (hknown : ∀ addr, known addr → InGeometry quantum qset addr)
    (haddress : (address (int32 (qset * quantum)) quantum pos).Safe (Within room qset) known) :
    (scullWriteLocked g ⟨qset, quantum⟩ dev buff pos env).Safe (Within room qset) fun t =>
      ∃ addr, known addr ∧ Written quantum room qset dev buff pos env addr t := by
  have hrows : uint64 (8 * (qset : Int)) / 8 = qset := by
    rw [uint64_eq_toNat (by omega) (by omega)]
    omega
  unfold scullWriteLocked
  rw [hrun, if_neg Bool.false_ne_true]
  refine .bind haddress fun addr haddr => ?_
  obtain ⟨hslow, hshigh, hqlow, hqhigh⟩ := hknown addr haddr
  have hin : InGeometry room qset addr := ⟨hslow, hshigh, hqlow, by omega⟩
  refine .bind (scullFollow_safe room qset dev.data addr.item env.supply) fun dptr hwalk => ?_
  have hhead : ∀ i s, blockIn dptr.head i s = blockIn dev.data i s := hwalk.extended.blockIn
  cases hnode : dptr.node with
  | none =>
    exact .pure ⟨addr, haddr, rfl, hwalk.extended.shaped hshaped, .refl hhead addr,
      .noMemory rfl rfl rfl rfl⟩
  | some node =>
    obtain ⟨hitem, hlength⟩ := hwalk.reached node hnode
    have hinside : node < dptr.head.length := by omega
    refine .bind (ensureSlots_safe room qset qset hinside dptr.supply) ?_
    rintro ⟨array, head, supply⟩ hslots
    have hhead' : ∀ i s, blockIn head i s = blockIn dev.data i s := fun i s =>
      (hslots.blocks i s).trans (hhead i s)
    have hshaped' : Shaped room qset head :=
      hslots.shaped room qset hrows (hwalk.extended.shaped hshaped)
    cases array with
    | none =>
      exact .pure ⟨addr, haddr, rfl, hshaped', .refl hhead' addr, .noMemory rfl rfl rfl rfl⟩
    | some array =>
      have harray := hslots.placed array rfl
      have harrayLength := hshaped'.slots node array harray
      refine .bind (touch_safe ⟨hslow, hshigh, by omega⟩) fun _ _ => ?_
      refine .bind (ensureBlock_safe (by omega) hle hfits hshaped' harray addr.sPos supply
        env.junk) ?_
      rintro ⟨block, after⟩ hready
      cases block with
      | none =>
        have hafter : after = head := hready.failed rfl
        subst hafter
        exact .pure ⟨addr, haddr, rfl, hshaped', .refl hhead' addr, .noMemory rfl rfl rfl rfl⟩
      | some block =>
        have hlarge := hready.large block rfl
        have hcount : clamped dev addr buff ≤ room - addr.qPos.toNat := by
          rw [clamped, hdev, uint64_room hqlow hin.2.2.2 hroom]
          exact Nat.min_le_right _ _
        have hcopied : copied dev after node array addr block buff pos env.accessible =
            copied dev head node array addr block buff pos env.accessible := by
          simp only [copied, hready.replaced block rfl]
        change (copyIn dev after node array addr block buff pos env.accessible).Safe _ _
        rw [copyIn_eq, hcopied]
        refine .bind (touch_safe ⟨hqlow, by omega, by omega⟩) fun _ _ => .pure ?_
        exact ⟨addr, haddr, copied_written hroom hdev hin hitem hshaped' harray hlarge
          (hready.content block rfl) hhead'⟩

theorem scullWriteLocked_geometry (g : Globals) (snap : WriteSnapshot) (dev : ScullDev)
    (buff : List Byte) (pos : Int) (env : Env) :
    (scullWriteLocked g snap dev buff pos env).Returns fun t =>
      t.dev = { dev with data := t.dev.data, size := t.dev.size } := by
  unfold scullWriteLocked
  split
  · exact .pure rfl
  refine .skip fun addr => .skip fun dptr => ?_
  cases dptr.node with
  | none => exact .pure rfl
  | some node =>
    refine .skip ?_
    rintro ⟨array, head, supply⟩
    cases array with
    | none => exact .pure rfl
    | some array =>
      refine .skip fun _ => .skip ?_
      rintro ⟨block, after⟩
      cases block with
      | none => exact .pure rfl
      | some block =>
        change (copyIn dev after node array addr block buff pos env.accessible).Returns _
        rw [copyIn_eq]
        refine .skip fun _ => .pure ?_
        unfold copied
        dsimp only
        split <;> rfl

theorem scullWrite_interrupted (g : Globals) (dev : ScullDev) (buff : List Byte) (pos : Int)
    {env : Env} (hrun : env.interrupted = true) :
    scullWrite g dev buff pos env = pure ⟨-ERESTARTSYS, dev, pos, []⟩ := by
  unfold scullWrite scullWriteLocked
  rw [hrun, if_pos rfl]

theorem scullWrite_safe {g : Globals} {dev : ScullDev} (hdivides : Divides quantum qset)
    (hquantum : dev.quantum = quantum) (hqset : dev.qset = qset)
    (hshaped : Shaped quantum qset dev.data) (hfits : quantum ≤ blockSize g dev)
    (buff : List Byte) {pos : Int} (hpos : 0 ≤ pos) {env : Env} (hrun : env.interrupted = false) :
    (scullWrite g dev buff pos env).Safe (Within quantum qset) fun t =>
      ∃ addr, Located quantum qset pos addr ∧
        Written quantum quantum qset dev buff pos env addr t := by
  unfold scullWrite writeSnapshot
  rw [hquantum, hqset]
  have haddress := address_located quantum qset hdivides hpos
  rw [Int.mul_comm] at haddress
  exact scullWriteLocked_safe hdivides.2.1 hdivides.2.2.2.1 (le_refl _) hquantum hshaped hfits
    hrun (fun addr h => h.1) haddress

/-! ## When a write succeeds -/

/-- The write gets past every check and stores the bytes it was given: it is not
interrupted, the item is not negative, every object it lacks can be allocated
and the user's bytes can be read. -/
structure Completes (g : Globals) (dev : ScullDev) (buff : List Byte) (pos : Int) (env : Env)
    (addr : Address) : Prop where
  running : env.interrupted = false
  located : (address (int32 (dev.qset * dev.quantum)) dev.quantum pos).result = some addr
  item : 0 ≤ addr.item
  array : (slotsAt dev.data addr.item.toNat).isSome ∨
    Obtainable .kmalloc (uint64 (8 * dev.qset))
  block : (blockIn dev.data addr.item.toNat addr.sPos.toNat).isSome ∨
    Obtainable (freedVia dev) (blockSize g dev)
  supplied : env.supply.Enough (missing dev.data addr.item +
    absent (slotsAt dev.data addr.item.toNat) +
    absent (blockIn dev.data addr.item.toNat addr.sPos.toNat))
  readable : clamped dev addr buff ≤ env.accessible

/-- A write either completes and moves the size and the position by the same
amount, or fails and leaves both. -/
inductive WriteEffect (g : Globals) (dev : ScullDev) (buff : List Byte) (pos : Int) (env : Env)
    (t : Transfer) : Prop where
  | completed (addr : Address) (completes : Completes g dev buff pos env addr)
      (ret : t.ret = int64 (clamped dev addr buff))
      (size : t.dev.size = int64 (dev.size + clamped dev addr buff))
      (pos : t.pos = int64 (pos + clamped dev addr buff))
  | failed (incomplete : ∀ addr, ¬ Completes g dev buff pos env addr) (ret : t.ret < 0)
      (size : t.dev.size = dev.size) (pos : t.pos = pos)

section Completes
variable {g : Globals} {dev : ScullDev} {buff : List Byte} {pos : Int} {env : Env}
  {addr addr' : Address} {t : Transfer}

theorem Completes.unique (h : Completes g dev buff pos env addr)
    (h' : Completes g dev buff pos env addr') : addr' = addr := by
  have hsame := h'.located
  rw [h.located] at hsame
  cases hsame
  rfl

theorem Completes.effect (h : Completes g dev buff pos env addr)
    (heffect : WriteEffect g dev buff pos env t) :
    t.ret = int64 (clamped dev addr buff) ∧ t.dev.size = int64 (dev.size + clamped dev addr buff) ∧
      t.pos = int64 (pos + clamped dev addr buff) := by
  cases heffect with
  | failed incomplete => exact absurd h (incomplete addr)
  | completed other completes ret size pos =>
    rw [h.unique completes] at ret size pos
    exact ⟨ret, size, pos⟩

theorem Written.done (h : Written quantum room qset dev buff pos env addr t) (hret : 0 ≤ t.ret) :
    ∃ count, count = min buff.length (room - addr.qPos.toNat) ∧ t.bytes = buff.take count ∧
      (blockIn t.dev.data addr.item.toNat addr.sPos.toNat).isSome := by
  cases h.outcome with
  | noMemory ret =>
    rw [ret] at hret
    exact absurd hret (by decide)
  | fault ret =>
    rw [ret] at hret
    exact absurd hret (by decide)
  | done count hcount item ret bytes size pos block => exact ⟨count, hcount, bytes, block⟩

end Completes

theorem SlotsReady.after_walk {head after : List ScullQset} {item size : Int} {node : Nat}
    {supply rest : Supply} {found : Followed} {array : Option SlotArray}
    (h : SlotsReady size found.head node found.supply array after rest)
    (hwalk : Walked head item supply found) (hnode : found.node = some node) :
    (array.isSome ↔ ((slotsAt head node).isSome ∨ Obtainable .kmalloc (uint64 (8 * size))) ∧
      (supply.drop (missing head item)).Enough (absent (slotsAt head node))) ∧
    (array.isSome → rest = supply.drop (missing head item + absent (slotsAt head node))) := by
  have hitem := (hwalk.reached node hnode).1
  have hmissing := hwalk.enough (by simp [hnode])
  have hsupply := (hwalk.complete hmissing (by omega)).2
  have hready := h.ready
  have hrest := h.supplied
  rw [hwalk.extended.slotsAt, hsupply] at hready hrest
  rw [Supply.drop_drop, Nat.add_comm] at hrest
  exact ⟨hready, hrest⟩

theorem scullWrite_effect (g : Globals) (dev : ScullDev) (buff : List Byte) (pos : Int)
    (env : Env) : (scullWrite g dev buff pos env).Returns fun t =>
      t.dev = { dev with data := t.dev.data, size := t.dev.size } ∧
        WriteEffect g dev buff pos env t := by
  have hnegative : -ERESTARTSYS < 0 ∧ -ENOMEM < 0 ∧ -EFAULT < 0 := by decide
  obtain ⟨hinterrupted, hmemory, hfault⟩ := hnegative
  unfold scullWrite writeSnapshot scullWriteLocked
  cases hrun : env.interrupted with
  | true =>
    rw [if_pos rfl]
    refine .pure ⟨rfl, .failed (fun addr h => ?_) hinterrupted rfl rfl⟩
    have := h.running
    simp [hrun] at this
  | false =>
    rw [if_neg Bool.false_ne_true]
    refine .bind (fun addr => (address (int32 (dev.qset * dev.quantum)) dev.quantum pos).result =
      some addr) (fun addr h => h) fun addr haddr => ?_
    -- a check that fails at this address fails at every one
    have hfails (hfailed : ¬ Completes g dev buff pos env addr) :
        ∀ other, ¬ Completes g dev buff pos env other := by
      intro other h
      have hsame := h.located
      rw [haddr] at hsame
      cases hsame
      exact hfailed h
    refine .bind _ (scullFollow_safe 0 0 dev.data addr.item env.supply).returns
      fun dptr hwalk => ?_
    cases hnode : dptr.node with
    | none =>
      refine .pure ⟨rfl, .failed (hfails fun h => ?_) hmemory rfl rfl⟩
      have hsupplied := h.supplied
      rw [Supply.enough_add, Supply.enough_add] at hsupplied
      exact (hwalk.complete hsupplied.1.1 h.item).1 hnode
    | some node =>
      obtain ⟨hitem, hlength⟩ := hwalk.reached node hnode
      have hindex : addr.item.toNat = node := by omega
      have hmissing := hwalk.enough (by simp [hnode])
      have hinside : node < dptr.head.length := by omega
      refine .bind _ (ensureSlots_safe 0 0 dev.qset hinside dptr.supply).returns ?_
      rintro ⟨array, head, supply⟩ hslots
      obtain ⟨hready, hrest⟩ := hslots.after_walk hwalk hnode
      cases array with
      | none =>
        refine .pure ⟨rfl, .failed (hfails fun h => ?_) hmemory rfl rfl⟩
        have hsupplied := h.supplied
        rw [Supply.enough_add, Supply.enough_add, hindex] at hsupplied
        have harray := h.array
        rw [hindex] at harray
        have := hready.mpr ⟨harray, hsupplied.1.2⟩
        simp at this
      | some array =>
        obtain ⟨harray, henough⟩ := hready.mp rfl
        have hplaced : slotsAt head node = some array := hslots.placed array rfl
        have hrest : supply = _ := hrest rfl
        have hblockIn : blockIn head node addr.sPos.toNat =
            blockIn dev.data node addr.sPos.toNat :=
          (hslots.blocks _ _).trans (hwalk.extended.blockIn _ _)
        refine .skip fun _ => ?_
        refine .bind _ (ensureBlock_returns g dev dev.quantum hplaced addr.sPos supply
          env.junk) ?_
        rintro ⟨block, after⟩ hblock
        rw [hblockIn, hrest] at hblock
        cases block with
        | none =>
          refine .pure ⟨rfl, .failed (hfails fun h => ?_) hmemory rfl rfl⟩
          have hsupplied := h.supplied
          rw [Supply.enough_add, hindex] at hsupplied
          have hobtain := h.block
          rw [hindex] at hobtain
          have := hblock.mpr ⟨hobtain, hsupplied.2⟩
          simp at this
        | some block =>
          obtain ⟨hobtain, hlast⟩ := hblock.mp rfl
          change (copyIn dev after node array addr block buff pos env.accessible).Returns _
          rw [copyIn_eq]
          refine .skip fun _ => .pure ?_
          unfold copied
          by_cases hshort : env.accessible < clamped dev addr buff
          · simp only [if_pos hshort]
            refine ⟨trivial, .failed (hfails fun h => ?_) hfault rfl rfl⟩
            exact absurd h.readable (Nat.not_le.mpr hshort)
          · simp only [if_neg hshort]
            refine ⟨trivial, .completed addr ⟨hrun, haddr, by omega, ?_, ?_, ?_,
              Nat.le_of_not_lt hshort⟩ rfl rfl rfl⟩
            · rw [hindex]
              exact harray
            · rw [hindex]
              exact hobtain
            · rw [Supply.enough_add, Supply.enough_add, hindex]
              exact ⟨⟨hmissing, henough⟩, hlast⟩

end MyDrivers.Store
