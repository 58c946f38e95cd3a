import MyDrivers.Store.Base

/-! The bytes a device stores, and the shape its lists keep. `cell` reads one
byte by node, slot and offset; whatever is absent counts as zeros. The lemmas
say what each piece of `scull_follow` and `scull_write` does to the cells. -/
namespace MyDrivers.Store
open Lib Lib.Machine

def blockIn (head : List ScullQset) (node slot : Nat) : Option Block :=
  (slotsAt head node).bind fun array => array.slots[slot]?.join

def cell (head : List ScullQset) (node slot offset : Nat) : Byte :=
  match blockIn head node slot with
  | none => 0
  | some block => block.bytes.getD offset 0

/-- The byte stored for logical position `x`, by exact division. -/
def byteAt (dev : ScullDev) (x : Nat) : Byte :=
  let quantum := dev.quantum.toNat
  let itemsize := quantum * dev.qset.toNat
  cell dev.data (x / itemsize) (x % itemsize / quantum) (x % quantum)

/-- Every array has `qset` slots and every block at least `quantum` bytes. -/
structure Shaped (quantum qset : Nat) (head : List ScullQset) : Prop where
  slots : ∀ node array, slotsAt head node = some array → array.slots.length = qset
  blocks : ∀ node slot block, blockIn head node slot = some block →
    quantum ≤ block.bytes.length

theorem shaped_nil (quantum qset : Nat) : Shaped quantum qset [] :=
  ⟨by simp [slotsAt], by simp [blockIn, slotsAt]⟩

/-! ## Extending the list -/

def Extends (head longer : List ScullQset) : Prop :=
  ∃ fresh, longer = head ++ fresh ∧ ∀ n ∈ fresh, n.data = none

theorem Extends.refl (head : List ScullQset) : Extends head head := ⟨[], by simp, by simp⟩

theorem Extends.snoc {head longer : List ScullQset} (h : Extends head longer) (addr : Addr) :
    Extends head (longer ++ [⟨addr, none⟩]) := by
  obtain ⟨fresh, rfl, hfresh⟩ := h
  refine ⟨fresh ++ [⟨addr, none⟩], by simp, ?_⟩
  intro n hn
  rcases List.mem_append.mp hn with hn | hn
  · exact hfresh n hn
  · rw [List.mem_singleton.mp hn]

theorem Extends.trans {first second third : List ScullQset} (h : Extends first second)
    (h' : Extends second third) : Extends first third := by
  obtain ⟨fresh, rfl, hfresh⟩ := h
  obtain ⟨more, rfl, hmore⟩ := h'
  refine ⟨fresh ++ more, by simp, ?_⟩
  intro n hn
  rcases List.mem_append.mp hn with hn | hn
  · exact hfresh n hn
  · exact hmore n hn

theorem Extends.length_le {head longer : List ScullQset} (h : Extends head longer) :
    head.length ≤ longer.length := by
  obtain ⟨fresh, rfl, -⟩ := h
  simp

theorem Extends.slotsAt {head longer : List ScullQset} (h : Extends head longer) (node : Nat) :
    slotsAt longer node = slotsAt head node := by
  obtain ⟨fresh, rfl, hfresh⟩ := h
  unfold Store.slotsAt
  by_cases hnode : node < head.length
  · rw [List.getElem?_append_left hnode]
  · have habsent : head[node]? = none := List.getElem?_eq_none (Nat.le_of_not_lt hnode)
    rw [List.getElem?_append_right (by omega), habsent]
    cases hget : fresh[node - head.length]? with
    | none => rfl
    | some n => exact hfresh n (List.mem_of_getElem? hget)

theorem Extends.blockIn {head longer : List ScullQset} (h : Extends head longer)
    (node slot : Nat) : blockIn longer node slot = blockIn head node slot := by
  simp only [Store.blockIn, h.slotsAt]

theorem Extends.cell {head longer : List ScullQset} (h : Extends head longer)
    (node slot offset : Nat) : cell longer node slot offset = cell head node slot offset := by
  simp only [Store.cell, h.blockIn]

theorem Extends.shaped {quantum qset : Nat} {head longer : List ScullQset}
    (h : Extends head longer) (hshaped : Shaped quantum qset head) :
    Shaped quantum qset longer := by
  refine ⟨fun node array harray => ?_, fun node slot block hblock => ?_⟩
  · rw [h.slotsAt] at harray
    exact hshaped.slots node array harray
  · rw [h.blockIn] at hblock
    exact hshaped.blocks node slot block hblock

/-! ## Replacing a slot array or a block -/

theorem slotsAt_setSlots (head : List ScullQset) (node : Nat) (array : SlotArray) (i : Nat) :
    slotsAt (setSlots head node array) i =
      if i = node ∧ node < head.length then some array else slotsAt head i := by
  unfold slotsAt setSlots
  rw [List.getElem?_modify]
  by_cases hi : node = i
  · subst hi
    by_cases hlength : node < head.length
    · simp [hlength]
    · simp [hlength]
  · simp [hi, Ne.symm hi]

theorem setSlots_setSlots (head : List ScullQset) (node : Nat) (first second : SlotArray) :
    setSlots (setSlots head node first) node second = setSlots head node second := by
  unfold setSlots
  apply List.ext_getElem?
  intro i
  simp only [List.getElem?_modify]
  by_cases hi : node = i
  · simp [hi, Function.comp_def]
  · simp [hi]

theorem setBlock_setBlock (head : List ScullQset) (node : Nat) (array : SlotArray) (sPos : Int)
    (first second : Block) :
    setBlock (setBlock head node array sPos first) node array sPos second =
      setBlock head node array sPos second :=
  setSlots_setSlots head node _ _

theorem blockIn_setBlock {head : List ScullQset} {node : Nat} {array : SlotArray} {sPos : Int}
    (harray : slotsAt head node = some array) (hslot : sPos.toNat < array.slots.length)
    (block : Block) (i s : Nat) :
    blockIn (setBlock head node array sPos block) i s =
      if i = node ∧ s = sPos.toNat then some block else blockIn head i s := by
  have hnode : node < head.length := by
    by_contra hge
    simp [slotsAt, List.getElem?_eq_none (Nat.le_of_not_lt hge)] at harray
  unfold blockIn setBlock
  rw [slotsAt_setSlots]
  by_cases hi : i = node
  · subst hi
    by_cases hs : s = sPos.toNat
    · subst hs
      simp [hnode, hslot]
    · simp [hnode, hs, harray, Ne.symm hs]
  · simp [hi]

theorem cell_setBlock {head : List ScullQset} {node : Nat} {array : SlotArray} {sPos : Int}
    (harray : slotsAt head node = some array) (hslot : sPos.toNat < array.slots.length)
    (block : Block) (i s offset : Nat) :
    cell (setBlock head node array sPos block) i s offset =
      if i = node ∧ s = sPos.toNat then block.bytes.getD offset 0 else cell head i s offset := by
  unfold cell
  rw [blockIn_setBlock harray hslot]
  by_cases hplace : i = node ∧ s = sPos.toNat
  · simp only [if_pos hplace]
  · simp only [if_neg hplace]

theorem shaped_setBlock {quantum qset : Nat} {head : List ScullQset} {node : Nat}
    {array : SlotArray} {sPos : Int} {block : Block} (hshaped : Shaped quantum qset head)
    (harray : slotsAt head node = some array) (hslot : sPos.toNat < array.slots.length)
    (hblock : quantum ≤ block.bytes.length) :
    Shaped quantum qset (setBlock head node array sPos block) := by
  refine ⟨fun i other hother => ?_, fun i s other hother => ?_⟩
  · rw [setBlock, slotsAt_setSlots] at hother
    split at hother
    · cases hother
      simpa using hshaped.slots node array harray
    · exact hshaped.slots i other hother
  · rw [blockIn_setBlock harray hslot] at hother
    split at hother
    · cases hother
      exact hblock
    · exact hshaped.blocks i s other hother

theorem getD_store (block : Block) (start : Nat) (bytes : List Byte) (offset : Nat)
    (hfit : start + bytes.length ≤ block.bytes.length) :
    (block.store start bytes).bytes.getD offset 0 =
      if start ≤ offset ∧ offset < start + bytes.length then bytes.getD (offset - start) 0
      else block.bytes.getD offset 0 := by
  have hstart : (block.bytes.take start).length = start := by
    rw [List.length_take]
    omega
  simp only [Block.store, List.getD_eq_getElem?_getD]
  by_cases hbefore : offset < start
  · rw [List.append_assoc, List.getElem?_append_left (by omega), List.getElem?_take_of_lt hbefore,
      if_neg (by omega)]
  · by_cases hinside : offset < start + bytes.length
    · rw [List.append_assoc, List.getElem?_append_right (by omega), hstart,
        List.getElem?_append_left (by omega), if_pos (by omega)]
    · rw [List.getElem?_append_right (by rw [List.length_append]; omega), List.length_append,
        hstart, List.getElem?_drop, if_neg (by omega)]
      congr 2
      omega

theorem length_store (block : Block) (start : Nat) (bytes : List Byte)
    (hfit : start + bytes.length ≤ block.bytes.length) :
    (block.store start bytes).bytes.length = block.bytes.length := by
  simp only [Block.store, List.length_append, List.length_take, List.length_drop]
  omega

end MyDrivers.Store
