import MyDrivers.Store.Calls

/-! What a call returns does not depend on where the allocators place its objects,
and on a device whose blocks are as large as its quantum not on what was there
before. -/
namespace MyDrivers.Store
open Lib Lib.Machine

def Block.bare (block : Block) : Block := { block with addr := 0 }

def SlotArray.bare (array : SlotArray) : SlotArray :=
  ⟨0, array.slots.map (Option.map Block.bare)⟩

def ScullQset.bare (dptr : ScullQset) : ScullQset := ⟨0, dptr.data.map SlotArray.bare⟩

/-- The device with every object at address 0. -/
def ScullDev.bare (dev : ScullDev) : ScullDev :=
  { dev with data := dev.data.map ScullQset.bare }

def Supply.bare (supply : Supply) : Supply := fun n => (supply n).map fun _ => (0 : Nat)

def Env.bare (env : Env) : Env :=
  { env with supply := env.supply.bare, junk := fun _ => 0 }

def Transfer.bare (t : Transfer) : Transfer := { t with dev := t.dev.bare }

def Followed.bare (r : Followed) : Followed :=
  ⟨r.node, r.head.map ScullQset.bare, r.supply.bare⟩

@[simp] theorem Supply.bare_drop (supply : Supply) (n : Nat) :
    (supply.drop n).bare = supply.bare.drop n := rfl

@[simp] theorem length_bare (array : SlotArray) : array.bare.slots.length = array.slots.length := by
  simp [SlotArray.bare]

theorem slot_bare (array : SlotArray) (i : Nat) :
    array.bare.slots[i]?.join = (array.slots[i]?.join).map Block.bare := by
  simp only [SlotArray.bare, List.getElem?_map]
  cases array.slots[i]? <;> rfl

@[simp] theorem slotsAt_bare (head : List ScullQset) (node : Nat) :
    slotsAt (head.map ScullQset.bare) node = (slotsAt head node).map SlotArray.bare := by
  simp only [slotsAt, List.getElem?_map]
  cases head[node]? <;> rfl

theorem alloc?_bare (supply : Supply) (via : Allocator) (size : Nat) :
    Traced.Mirrors (fun r => (r.1.map fun _ => (0 : Nat), r.2.bare)) (Event.alloc? supply via size)
      (Event.alloc? supply.bare via size) := by
  unfold Event.alloc? Event.grant?
  split
  · exact .pure (none, supply.drop 1)
  · cases h : supply 0 with
    | none => simp [Supply.bare, h, Traced.Mirrors]
    | some addr =>
      simp [Supply.bare, h, Traced.Mirrors]
      rfl

/-! ## scull_trim and scull_follow -/

theorem trimSlots_bare (dev : ScullDev) (array : SlotArray) (indices : List Nat) :
    Traced.Mirrors id (trimSlots dev array indices) (trimSlots dev.bare array.bare indices) := by
  induction indices with
  | nil => exact .pure ()
  | cons i rest ih =>
    unfold trimSlots
    rw [length_bare, slot_bare]
    refine .after _ fun _ => ?_
    cases array.slots[i]?.join with
    | none => exact ih
    | some block => exact .bind (.emit _ _) fun _ => ih

theorem trimNodes_bare (dev : ScullDev) (head : List ScullQset) :
    Traced.Mirrors id (trimNodes dev head) (trimNodes dev.bare (head.map ScullQset.bare)) := by
  induction head with
  | nil => exact .pure ()
  | cons dptr next ih =>
    unfold trimNodes
    cases h : dptr.data with
    | none =>
      simp only [List.map_cons, ScullQset.bare, h, Option.map_none]
      exact .bind (.emit _ _) fun _ => ih
    | some array =>
      simp only [List.map_cons, ScullQset.bare, h, Option.map_some]
      exact .bind (trimSlots_bare dev array _) fun _ =>
        .bind (.emit _ _) fun _ => .bind (.emit _ _) fun _ => ih

theorem scullTrim_bare (g : Globals) (dev : ScullDev) :
    Traced.Mirrors ScullDev.bare (scullTrim g dev) (scullTrim g dev.bare) :=
  .bind (trimNodes_bare dev dev.data) fun _ =>
    .pure { dev with size := 0, data := [], qset := g.scullQsetN, quantum := g.scullQuantum }

theorem scullOpen_bare (g : Globals) (dev : ScullDev) (fFlags : Nat) :
    Traced.Mirrors ScullDev.bare (scullOpen g dev fFlags) (scullOpen g dev.bare fFlags) := by
  unfold scullOpen
  split
  · exact scullTrim_bare g dev
  · exact .pure dev

theorem appendNode_bare (head : List ScullQset) (prev : Option Nat) (supply : Supply) :
    Traced.Mirrors Followed.bare (appendNode head prev supply)
      (appendNode (head.map ScullQset.bare) prev supply.bare) := by
  refine .bind (alloc?_bare supply .kmalloc sizeofQset) ?_
  rintro ⟨qs, supply⟩
  cases qs with
  | none => exact .pure (Followed.mk none head supply)
  | some addr =>
    refine .after _ fun _ => ?_
    simp only [← List.map_take]
    have hafter : (head.take (prev.getD 0 + 1)).map ScullQset.bare ++ [ScullQset.mk 0 none] =
        (head.take (prev.getD 0 + 1) ++ [ScullQset.mk addr none]).map ScullQset.bare := by
      rw [List.map_append]
      rfl
    rw [hafter]
    exact .pure (Followed.mk (some (prev.getD 0 + 1))
      (head.take (prev.getD 0 + 1) ++ [ScullQset.mk addr none]) supply)

theorem next_bare (head : List ScullQset) (qs : Nat) :
    next (head.map ScullQset.bare) qs = next head qs := by
  simp [next]

theorem followLoop_bare (rounds : Nat) (head : List ScullQset) (prev qs : Option Nat)
    (supply : Supply) :
    Traced.Mirrors Followed.bare (followLoop head prev qs supply rounds)
      (followLoop (head.map ScullQset.bare) prev qs supply.bare rounds) := by
  induction rounds generalizing head prev qs supply with
  | zero => exact .pure (Followed.mk prev head supply)
  | succ rounds ih =>
    have hrest (head : List ScullQset) (node : Nat) (supply : Supply) :
        Traced.Mirrors Followed.bare
          (followLoop head (some node) (next head node) supply rounds)
          (followLoop (head.map ScullQset.bare) (some node) (next (head.map ScullQset.bare) node)
            supply.bare rounds) := by
      rw [next_bare]
      exact ih head (some node) (next head node) supply
    cases qs with
    | none =>
      refine .bind (appendNode_bare head prev supply) ?_
      rintro ⟨node, longer, rest⟩
      cases node with
      | none => exact .pure (Followed.mk none longer rest)
      | some node => exact hrest longer node rest
    | some node => exact hrest head node supply

theorem scullFollow_bare (head : List ScullQset) (item : Int) (supply : Supply) :
    Traced.Mirrors Followed.bare (scullFollow head item supply)
      (scullFollow (head.map ScullQset.bare) item supply.bare) := by
  cases head with
  | cons dptr rest => exact followLoop_bare _ (dptr :: rest) none (some 0) supply
  | nil =>
    refine .bind (alloc?_bare supply .kmalloc sizeofQset) ?_
    rintro ⟨qs, supply⟩
    cases qs with
    | none => exact .pure (Followed.mk none [] supply)
    | some addr => exact followLoop_bare _ [ScullQset.mk addr none] none (some 0) supply

/-! ## scull_read -/

theorem blockAt_bare (array : SlotArray) (sPos : Int) :
    array.bare.blockAt sPos = (array.blockAt sPos).map Block.bare :=
  slot_bare array sPos.toNat

theorem copyOut_bare (dev : ScullDev) (addr : Address) (block : Block) (count : Nat) (pos : Int)
    (accessible : Nat) :
    Traced.Mirrors Transfer.bare (copyOut dev addr block count pos accessible)
      (copyOut dev.bare addr block.bare count pos accessible) := by
  refine .after _ fun _ => ?_
  split
  · exact .pure (Transfer.mk ..)
  · exact .pure (Transfer.mk ..)

theorem scullRead_bare (dev : ScullDev) (count : Nat) (pos : Int) (env : Env) :
    Traced.Mirrors Transfer.bare (scullRead dev count pos env)
      (scullRead dev.bare count pos env.bare) := by
  unfold scullRead scullReadLocked
  by_cases hinterrupted : env.interrupted = true
  · rw [if_pos hinterrupted, if_pos (show env.bare.interrupted = true from hinterrupted)]
    exact .pure (Transfer.mk ..)
  rw [if_neg hinterrupted, if_neg (show ¬ env.bare.interrupted = true from hinterrupted)]
  by_cases hend : pos ≥ dev.size
  · rw [if_pos hend, if_pos (show pos ≥ dev.bare.size from hend)]
    exact .pure (Transfer.mk ..)
  rw [if_neg hend, if_neg (show ¬ pos ≥ dev.bare.size from hend)]
  refine .after _ fun addr => ?_
  refine .bind (scullFollow_bare dev.data addr.item env.supply) ?_
  rintro ⟨node, head, supply⟩
  have hslots : node.bind (slotsAt (head.map ScullQset.bare)) =
      (node.bind (slotsAt head)).map SlotArray.bare := by
    cases node with
    | none => rfl
    | some node => exact slotsAt_bare head node
  simp only [Followed.bare, hslots]
  cases node.bind (slotsAt head) with
  | none => exact .pure (Transfer.mk ..)
  | some array =>
    simp only [Option.map_some, length_bare, blockAt_bare]
    refine .after _ fun _ => ?_
    cases array.blockAt addr.sPos with
    | none => exact .pure (Transfer.mk ..)
    | some block => exact copyOut_bare { dev with data := head } addr block _ pos env.accessible

/-! ## scull_write -/

theorem setSlots_bare (head : List ScullQset) (node : Nat) (array : SlotArray) :
    (setSlots head node array).map ScullQset.bare =
      setSlots (head.map ScullQset.bare) node array.bare := by
  apply List.ext_getElem?
  intro n
  simp only [setSlots, List.getElem?_map, List.getElem?_modify]
  cases head[n]? with
  | none => rfl
  | some dptr => by_cases hn : node = n <;> simp [hn, ScullQset.bare]

theorem setBlock_bare (head : List ScullQset) (node : Nat) (array : SlotArray) (sPos : Int)
    (block : Block) :
    (setBlock head node array sPos block).map ScullQset.bare =
      setBlock (head.map ScullQset.bare) node array.bare sPos block.bare := by
  unfold setBlock
  rw [setSlots_bare]
  simp [SlotArray.bare, List.map_set]

theorem ensureSlots_bare (qset : Int) (head : List ScullQset) (node : Nat) (supply : Supply) :
    Traced.Mirrors
      (fun r => (r.1.map SlotArray.bare, r.2.1.map ScullQset.bare, r.2.2.bare))
      (ensureSlots qset head node supply)
      (ensureSlots qset (head.map ScullQset.bare) node supply.bare) := by
  unfold ensureSlots
  rw [slotsAt_bare]
  cases slotsAt head node with
  | some array => exact .pure (some array, head, supply)
  | none =>
    refine .bind (alloc?_bare supply .kmalloc (uint64 (8 * qset))) ?_
    rintro ⟨addr, supply⟩
    cases addr with
    | none => exact .pure (none, head, supply)
    | some addr =>
      have harray : (SlotArray.mk addr (List.replicate (uint64 (8 * qset) / 8) none)).bare =
          ⟨0, List.replicate (uint64 (8 * qset) / 8) none⟩ := by
        simp [SlotArray.bare]
      simp only [Option.map_some, ← harray, ← setSlots_bare]
      exact .pure (some (SlotArray.mk addr (List.replicate (uint64 (8 * qset) / 8) none)),
        setSlots head node (SlotArray.mk addr (List.replicate (uint64 (8 * qset) / 8) none)), supply)

theorem store_bare (block : Block) (start : Nat) (bytes : List Byte) :
    (block.store start bytes).bare = block.bare.store start bytes := rfl

theorem cleared_bare (addr : Addr) (via : Allocator) (size : Nat) (junk : Nat → Byte) :
    (Block.store ⟨addr, via, (List.range size).map junk⟩ 0 (List.replicate size 0)).bare =
      Block.store ⟨0, via, (List.range size).map fun _ => 0⟩ 0 (List.replicate size 0) := by
  have hnothing (content : Nat → Byte) : ((List.range size).map content).drop size = [] := by
    apply List.drop_eq_nil_of_le
    simp
  simp [Block.store, Block.bare, hnothing]

theorem ensureBlock_bare (g : Globals) {dev : ScullDev} {quantum : Int}
    (hwhole : blockSize g dev = uint64 quantum) (head : List ScullQset) (node : Nat)
    (array : SlotArray) (sPos : Int) (supply : Supply) (junk : Nat → Byte) :
    Traced.Mirrors (fun r => (r.1.map Block.bare, r.2.map ScullQset.bare))
      (ensureBlock g dev quantum head node array sPos supply junk)
      (ensureBlock g dev.bare quantum (head.map ScullQset.bare) node array.bare sPos supply.bare
        fun _ => 0) := by
  unfold ensureBlock
  rw [blockAt_bare]
  cases array.blockAt sPos with
  | some block => exact .pure (some block, head)
  | none =>
    unfold scullAlloc
    simp only [bind_assoc]
    refine .bind (alloc?_bare supply (freedVia dev) (blockSize g dev)) ?_
    rintro ⟨addr, supply⟩
    simp only [pure_bind]
    cases addr with
    | none => exact .pure (none, head)
    | some addr =>
      have hvia : freedVia dev.bare = freedVia dev := rfl
      have hsize : blockSize g dev.bare = blockSize g dev := rfl
      simp only [Option.map_some, hvia, hsize, ← hwhole, List.length_map, List.length_range]
      refine .after _ fun _ => ?_
      rw [← cleared_bare addr (freedVia dev) (blockSize g dev) junk, ← setBlock_bare]
      exact .pure (some (Block.store _ 0 (List.replicate (blockSize g dev) 0)),
        setBlock head node array sPos (Block.store _ 0 (List.replicate (blockSize g dev) 0)))

theorem copyIn_bare (dev : ScullDev) (head : List ScullQset) (node : Nat) (array : SlotArray)
    (addr : Address) (block : Block) (buff : List Byte) (pos : Int) (accessible : Nat) :
    Traced.Mirrors Transfer.bare (copyIn dev head node array addr block buff pos accessible)
      (copyIn dev.bare (head.map ScullQset.bare) node array.bare addr block.bare buff pos
        accessible) := by
  have hquantum : dev.bare.quantum = dev.quantum := rfl
  unfold copyIn
  simp only [hquantum]
  generalize (if buff.length > uint64 (int32 (dev.quantum - addr.qPos)) then
    uint64 (int32 (dev.quantum - addr.qPos)) else buff.length) = count
  refine .after _ fun _ => ?_
  simp only [← store_bare, ← setBlock_bare]
  split
  · exact .pure (Transfer.mk ..)
  · exact .pure (Transfer.mk ..)

theorem scullWrite_bare (g : Globals) {dev : ScullDev} (hwhole : blockSize g dev = uint64 dev.quantum)
    (buff : List Byte) (pos : Int) (env : Env) :
    Traced.Mirrors Transfer.bare (scullWrite g dev buff pos env)
      (scullWrite g dev.bare buff pos env.bare) := by
  unfold scullWrite scullWriteLocked
  by_cases hinterrupted : env.interrupted = true
  · rw [if_pos hinterrupted, if_pos (show env.bare.interrupted = true from hinterrupted)]
    exact .pure (Transfer.mk ..)
  rw [if_neg hinterrupted, if_neg (show ¬ env.bare.interrupted = true from hinterrupted)]
  refine .after _ fun addr => ?_
  refine .bind (scullFollow_bare dev.data addr.item env.supply) ?_
  rintro ⟨node, head, supply⟩
  cases node with
  | none => exact .pure (Transfer.mk ..)
  | some node =>
    refine .bind (ensureSlots_bare dev.qset head node supply) ?_
    rintro ⟨array, head, supply⟩
    cases array with
    | none => exact .pure (Transfer.mk ..)
    | some array =>
      simp only [Option.map_some, length_bare]
      refine .after _ fun _ => ?_
      refine .bind (ensureBlock_bare g hwhole head node array addr.sPos supply env.junk) ?_
      rintro ⟨block, head⟩
      cases block with
      | none => exact .pure (Transfer.mk ..)
      | some block => exact copyIn_bare dev head node array addr block buff pos env.accessible

end MyDrivers.Store
