import Mathlib.Algebra.Order.Group.Multiset
import Mathlib.Tactic.Abel
import MyDrivers.Lib.Ledger
import MyDrivers.Store.Barren
import MyDrivers.Store.Calls

/-! The objects of a device. Nodes and arrays come from `kmalloc`, blocks from the
allocator of the device's type; what has been allocated and not yet freed is what
can be reached from `dev->data`, and each object can be reached once. -/
namespace MyDrivers.Store
open Lib Lib.Machine

/-- An object, by its address and the allocator it came from. -/
abbrev Object := Addr × Allocator

def Event.entry : Event → Option (Entry Object)
  | .alloc addr via => some (.acquire (addr, via))
  | .free addr via => some (.release (addr, via))
  | _ => none

def Block.object (block : Block) : Object := (block.addr, block.via)

def SlotArray.blocks (array : SlotArray) : List Object :=
  array.slots.filterMap fun slot => slot.map Block.object

def SlotArray.reachable (array : SlotArray) : Multiset Object :=
  (array.addr, .kmalloc) ::ₘ (array.blocks : Multiset Object)

def ScullQset.reachable (dptr : ScullQset) : Multiset Object :=
  (dptr.addr, .kmalloc) ::ₘ (dptr.data.map SlotArray.reachable).getD 0

def reachable : List ScullQset → Multiset Object
  | [] => 0
  | dptr :: next => dptr.reachable + reachable next

/-- `trim` finds all blocks, and hands each back to the allocator it came from. -/
structure Tidy (dev : ScullDev) (head : List ScullQset) : Prop where
  slots : ∀ node array, slotsAt head node = some array → array.slots.length = dev.qset.toNat
  blocks : ∀ node slot block, blockIn head node slot = some block → block.via = freedVia dev

@[simp] theorem reachable_nil : reachable [] = 0 := rfl

@[simp] theorem reachable_cons (dptr : ScullQset) (rest : List ScullQset) :
    reachable (dptr :: rest) = dptr.reachable + reachable rest := rfl

@[simp] theorem reachable_append (head rest : List ScullQset) :
    reachable (head ++ rest) = reachable head + reachable rest := by
  induction head with
  | nil => simp
  | cons dptr head ih => simp [ih, add_assoc]

theorem reachable_bare (addr : Addr) : reachable [⟨addr, none⟩] = {(addr, .kmalloc)} := rfl

theorem tidy_nil (dev : ScullDev) : Tidy dev [] :=
  ⟨by simp [slotsAt], by simp [blockIn, slotsAt]⟩

theorem Extends.tidy {dev : ScullDev} {head longer : List ScullQset} (h : Extends head longer)
    (tidy : Tidy dev head) : Tidy dev longer := by
  refine ⟨fun node array harray => ?_, fun node slot block hblock => ?_⟩
  · rw [h.slotsAt] at harray
    exact tidy.slots node array harray
  · rw [h.blockIn] at hblock
    exact tidy.blocks node slot block hblock

/-! ## What an assignment makes reachable -/

theorem reachable_setSlots_absent {head : List ScullQset} {node : Nat} {array : SlotArray}
    (hnode : node < head.length) (absent : slotsAt head node = none) :
    reachable (setSlots head node array) = array.reachable + reachable head := by
  induction head generalizing node with
  | nil => cases hnode
  | cons dptr head ih =>
    cases node with
    | zero =>
      have hdata : dptr.data = none := absent
      simp [setSlots, ScullQset.reachable, hdata, Multiset.add_cons]
    | succ node =>
      have hrest := ih (Nat.lt_of_succ_lt_succ hnode) absent
      simp only [setSlots, List.modify_succ_cons, reachable_cons] at hrest ⊢
      rw [hrest]
      exact add_left_comm _ _ _

theorem reachable_setSlots {head : List ScullQset} {node : Nat} {old : SlotArray}
    (present : slotsAt head node = some old) (array : SlotArray) :
    reachable (setSlots head node array) + old.reachable = array.reachable + reachable head := by
  induction head generalizing node with
  | nil => simp [slotsAt] at present
  | cons dptr head ih =>
    cases node with
    | zero =>
      have hdata : dptr.data = some old := present
      simp only [setSlots, List.modify_zero_cons, reachable_cons, ScullQset.reachable, hdata,
        Option.map_some, Option.getD_some, Multiset.cons_add, Multiset.add_cons]
      congr 1
      abel
    | succ node =>
      have hrest := ih present
      simp only [setSlots, List.modify_succ_cons, reachable_cons] at hrest ⊢
      rw [add_assoc, hrest]
      exact add_left_comm _ _ _

theorem blocks_set {slots : List (Option Block)} {i : Nat} (hi : i < slots.length)
    (block : Block) :
    ((slots.set i (some block)).filterMap fun slot => slot.map Block.object : Multiset Object) +
        (((slots[i]?.join).map fun b => {b.object}).getD 0) =
      block.object ::ₘ (slots.filterMap fun slot => slot.map Block.object : Multiset Object) := by
  induction slots generalizing i with
  | nil => cases hi
  | cons slot slots ih =>
    cases i with
    | zero =>
      cases slot with
      | none => simp
      | some old =>
        simp only [List.set_cons_zero, List.filterMap_cons, Option.map_some,
          List.getElem?_cons_zero, Option.join_some, Option.getD_some, ← Multiset.cons_coe,
          ← Multiset.singleton_add]
        abel
    | succ i =>
      have hrest := ih (Nat.lt_of_succ_lt_succ hi)
      cases slot with
      | none => simpa using hrest
      | some old =>
        simp only [List.set_cons_succ, List.filterMap_cons, Option.map_some,
          List.getElem?_cons_succ, ← Multiset.cons_coe, Multiset.cons_add] at hrest ⊢
        rw [hrest]
        exact Multiset.cons_swap _ _ _

theorem array_set {array : SlotArray} {sPos : Int} (hslot : sPos.toNat < array.slots.length)
    (block : Block) :
    SlotArray.reachable { array with slots := array.slots.set sPos.toNat (some block) } +
        ((array.blockAt sPos).map fun b => {b.object}).getD 0 =
      block.object ::ₘ array.reachable := by
  have hblocks := blocks_set hslot block
  simp only [SlotArray.reachable, SlotArray.blocks, SlotArray.blockAt, Multiset.cons_add] at hblocks ⊢
  rw [hblocks]
  exact Multiset.cons_swap _ _ _

section SetBlock
variable {head : List ScullQset} {node : Nat} {array : SlotArray} {sPos : Int} {block : Block}

theorem reachable_setBlock (present : slotsAt head node = some array)
    (hslot : sPos.toNat < array.slots.length) :
    reachable (setBlock head node array sPos block) +
        ((array.blockAt sPos).map fun b => {b.object}).getD 0 =
      block.object ::ₘ reachable head := by
  have hslots := reachable_setSlots present
    { array with slots := array.slots.set sPos.toNat (some block) }
  have hset := array_set hslot block
  generalize ((array.blockAt sPos).map fun b => ({b.object} : Multiset Object)).getD 0 = old
    at hset ⊢
  apply add_right_cancel (b := array.reachable)
  calc reachable (setBlock head node array sPos block) + old + array.reachable
      = reachable (setBlock head node array sPos block) + array.reachable + old := by abel
    _ = SlotArray.reachable { array with slots := array.slots.set sPos.toNat (some block) } +
          old + reachable head := by
        rw [setBlock, hslots]
        abel
    _ = block.object ::ₘ reachable head + array.reachable := by
        rw [hset]
        simp only [Multiset.cons_add]
        rw [add_comm]

theorem reachable_setBlock_absent (present : slotsAt head node = some array)
    (hslot : sPos.toNat < array.slots.length) (absent : array.blockAt sPos = none) :
    reachable (setBlock head node array sPos block) = block.object ::ₘ reachable head := by
  have h : reachable (setBlock head node array sPos block) + _ = _ := reachable_setBlock present hslot
  simpa [absent] using h

theorem reachable_setBlock_same (present : slotsAt head node = some array)
    (hslot : sPos.toNat < array.slots.length) {old : Block} (hold : array.blockAt sPos = some old)
    (same : block.object = old.object) :
    reachable (setBlock head node array sPos block) = reachable head := by
  have h : reachable (setBlock head node array sPos block) + _ = _ := reachable_setBlock present hslot
  rw [hold, same] at h
  simp only [Option.map_some, Option.getD_some] at h
  rw [← Multiset.singleton_add, add_comm] at h
  exact add_left_cancel h

theorem tidy_setBlock {dev : ScullDev} (tidy : Tidy dev head)
    (present : slotsAt head node = some array) (hslot : sPos.toNat < array.slots.length)
    (via : block.via = freedVia dev) : Tidy dev (setBlock head node array sPos block) := by
  refine ⟨fun i other hother => ?_, fun i s other hother => ?_⟩
  · rw [setBlock, slotsAt_setSlots] at hother
    split at hother
    · cases hother
      simpa using tidy.slots node array present
    · exact tidy.slots i other hother
  · rw [blockIn_setBlock present hslot] at hother
    split at hother
    · cases hother
      exact via
    · exact tidy.blocks i s other hother

end SetBlock

/-! ## Allocations -/

section Accounts
variable {held : Multiset Object}

theorem grant?_accounts (supply : Supply) (via : Allocator) :
    (Event.grant? supply via).Accounts Event.entry held fun r after =>
      after = (r.1.map fun addr => {(addr, via)}).getD 0 + held := by
  unfold Event.grant?
  cases supply 0 with
  | none => exact .pure (zero_add held).symm
  | some addr =>
    refine .bind _ (@Traced.Accounts.acquire _ _ _ _ _ _ (addr, via) rfl) ?_
    rintro _ _ rfl
    exact .pure (Multiset.singleton_add _ _).symm

theorem alloc?_accounts (supply : Supply) (via : Allocator) (size : Nat) :
    (Event.alloc? supply via size).Accounts Event.entry held fun r after =>
      after = (r.1.map fun addr => {(addr, via)}).getD 0 + held := by
  unfold Event.alloc?
  split
  · exact .pure (zero_add held).symm
  · exact grant?_accounts supply via

theorem appendNode_accounts {head : List ScullQset} (hhead : 0 < head.length) (supply : Supply) :
    (appendNode head (some (head.length - 1)) supply).Accounts Event.entry (reachable head)
      fun found after => after = reachable found.head := by
  unfold appendNode
  refine .bind _ (alloc?_accounts supply .kmalloc sizeofQset) ?_
  rintro ⟨qs, rest⟩ _ rfl
  cases qs with
  | none => exact .pure (zero_add _)
  | some addr =>
    refine .bind _ (.guarded rfl) ?_
    rintro _ _ ⟨-, rfl⟩
    apply Traced.Accounts.pure
    have hposition : (some (head.length - 1)).getD 0 + 1 = head.length := by
      simp only [Option.getD_some]
      omega
    change {(addr, .kmalloc)} + reachable head =
      reachable (head.take ((some (head.length - 1)).getD 0 + 1) ++ [⟨addr, none⟩])
    rw [hposition, List.take_length, reachable_append, reachable_bare, add_comm]

/-- As in `followLoop_safe`, by induction on the rounds left. -/
theorem followLoop_accounts (rounds : Nat) :
    ∀ (head : List ScullQset) (passed : Nat) (prev : Option Nat) (supply : Supply),
      0 < head.length → passed ≤ head.length →
      prev = (if passed = 0 then none else some (passed - 1)) →
      (followLoop head prev (if passed < head.length then some passed else none) supply
        rounds).Accounts Event.entry (reachable head) fun found after =>
          after = reachable found.head := by
  induction rounds with
  | zero =>
    intro head passed prev supply _ _ _
    exact .pure rfl
  | succ rounds ih =>
    intro head passed prev supply hhead hpassed hprev
    unfold followLoop
    by_cases hinside : passed < head.length
    · simp only [if_pos hinside, pure_bind]
      exact ih head (passed + 1) (some passed) supply hhead hinside (by simp)
    · have hend : passed = head.length := by omega
      have hprev' : prev = some (head.length - 1) := by rw [hprev, if_neg (by omega), hend]
      simp only [if_neg hinside, hprev']
      refine .bind _ ((appendNode_accounts hhead supply).returns
        (appendNode_safe 0 0 hhead supply).returns) ?_
      rintro ⟨node, longer, rest⟩ after ⟨⟨-, happended⟩, hafter⟩
      simp only at happended hafter
      cases node with
      | none => exact .pure hafter
      | some node =>
        obtain ⟨hnode, -, addr, hlonger⟩ := happended
        have hlength : longer.length = node + 1 := by simp [hlonger, hnode]
        subst hafter
        simp only [next]
        exact ih longer (node + 1) (some node) rest (by omega) (by omega) (by simp)

theorem scullFollow_accounts (head : List ScullQset) (item : Int) (supply : Supply) :
    (scullFollow head item supply).Accounts Event.entry (reachable head) fun found after =>
      after = reachable found.head := by
  cases head with
  | cons first others =>
    exact followLoop_accounts (item + 1).toNat (first :: others) 0 none supply (by simp)
      (Nat.zero_le _) rfl
  | nil =>
    refine .bind _ (alloc?_accounts supply .kmalloc sizeofQset) ?_
    rintro ⟨qs, rest⟩ _ rfl
    cases qs with
    | none => exact .pure rfl
    | some addr =>
      exact followLoop_accounts (item + 1).toNat [⟨addr, none⟩] 0 none rest (by simp)
        (Nat.zero_le _) rfl

theorem ensureSlots_accounts (qset : Int) {head : List ScullQset} {node : Nat}
    (hnode : node < head.length) (supply : Supply) :
    (ensureSlots qset head node supply).Accounts Event.entry (reachable head) fun r after =>
      after = reachable r.2.1 := by
  unfold ensureSlots
  cases harray : slotsAt head node with
  | some array => exact .pure rfl
  | none =>
    refine .bind _ (alloc?_accounts supply .kmalloc (uint64 (8 * qset))) ?_
    rintro ⟨addr, rest⟩ _ rfl
    cases addr with
    | none => exact .pure (zero_add _)
    | some addr =>
      apply Traced.Accounts.pure
      rw [reachable_setSlots_absent hnode harray]
      simp [SlotArray.reachable, SlotArray.blocks]

structure Placed (dev : ScullDev) (head : List ScullQset) (node : Nat) (array : SlotArray)
    (sPos : Int) (block : Option Block) (after : List ScullQset) : Prop where
  failed : block = none → after = head
  replaced : ∀ b, block = some b → ∀ b', setBlock after node array sPos b' =
    setBlock head node array sPos b'
  via : (∀ b, array.blockAt sPos = some b → b.via = freedVia dev) →
    ∀ b, block = some b → b.via = freedVia dev
  /-- Whatever takes the place of the block is reachable in its stead. -/
  reachable : ∀ b, block = some b → ∀ b' : Block, b'.object = b.object →
    reachable (setBlock head node array sPos b') = reachable after

theorem ensureBlock_accounts (g : Globals) (dev : ScullDev) (quantum : Int)
    {head : List ScullQset} {node : Nat} {array : SlotArray} {sPos : Int}
    (present : slotsAt head node = some array) (hslot : sPos.toNat < array.slots.length)
    (supply : Supply) (junk : Nat → Byte) :
    (ensureBlock g dev quantum head node array sPos supply junk).Accounts Event.entry
      (reachable head) fun r after =>
        after = reachable r.2 ∧ Placed dev head node array sPos r.1 r.2 := by
  unfold ensureBlock
  cases hblock : array.blockAt sPos with
  | some block =>
    refine .pure ⟨rfl, ⟨by simp, fun _ _ _ => rfl, ?_, ?_⟩⟩
    · rintro hvia b ⟨rfl⟩
      exact hvia block hblock
    · rintro b ⟨rfl⟩ b' hsame
      exact reachable_setBlock_same present hslot hblock hsame
  | none =>
    unfold scullAlloc
    simp only [bind_assoc]
    refine .bind _ (alloc?_accounts supply (freedVia dev) (blockSize g dev)) ?_
    rintro ⟨addr, rest⟩ _ rfl
    simp only [pure_bind]
    cases addr with
    | none =>
      exact .pure ⟨zero_add _, ⟨fun _ => rfl, by simp, by simp, by simp⟩⟩
    | some addr =>
      simp only [Option.map_some]
      refine .bind _ (.guarded rfl) ?_
      rintro _ _ ⟨-, rfl⟩
      apply Traced.Accounts.pure
      refine ⟨?_, ⟨by simp, ?_, ?_, ?_⟩⟩
      · rw [reachable_setBlock_absent present hslot hblock]
        simp [Block.store, Block.object]
      · rintro b ⟨rfl⟩ b'
        exact setBlock_setBlock _ _ _ _ _ _
      · rintro - b ⟨rfl⟩
        rfl
      · rintro b ⟨rfl⟩ b' hsame
        rw [reachable_setBlock_absent present hslot hblock,
          reachable_setBlock_absent present hslot hblock, hsame]

/-! ## The locked parts -/

theorem address_accounts (itemsize quantum pos : Int) :
    (address itemsize quantum pos).Accounts Event.entry held fun _ after => after = held := by
  refine .bind _ (.guarded rfl) ?_
  rintro _ _ ⟨-, rfl⟩
  refine .bind _ (.guarded rfl) ?_
  rintro _ _ ⟨-, rfl⟩
  exact .pure rfl

theorem scullReadLocked_accounts (snap : ReadSnapshot) (dev : ScullDev) (count : Nat) (pos : Int)
    (env : Env) : (scullReadLocked snap dev count pos env).Accounts Event.entry
      (reachable dev.data) fun t after => after = reachable t.dev.data := by
  unfold scullReadLocked
  split
  · exact .pure rfl
  split
  · exact .pure rfl
  refine .bind _ (address_accounts _ _ _) ?_
  rintro addr _ rfl
  refine .bind _ (scullFollow_accounts dev.data addr.item env.supply) ?_
  rintro dptr _ rfl
  split
  · exact .pure rfl
  · refine .bind _ (.guarded rfl) ?_
    rintro _ _ ⟨-, rfl⟩
    split
    · exact .pure rfl
    · unfold copyOut
      refine .bind _ (.guarded rfl) ?_
      rintro _ _ ⟨-, rfl⟩
      split
      · exact .pure rfl
      · exact .pure rfl

theorem ensureSlots_tidy {dev : ScullDev} (hsetting : Setting dev.qset) {head : List ScullQset}
    {node : Nat} (hnode : node < head.length) (tidy : Tidy dev head) (supply : Supply) :
    (ensureSlots dev.qset head node supply).Returns fun r => Tidy dev r.2.1 := by
  by_cases hqset : 0 ≤ dev.qset
  · refine (ensureSlots_safe 0 0 dev.qset hnode supply).returns.mono fun r hslots => ?_
    have hshaped : Shaped 0 dev.qset.toNat head := ⟨tidy.slots, fun _ _ _ _ => Nat.zero_le _⟩
    refine ⟨(hslots.shaped 0 _ (uint64_slots hqset hsetting.2) hshaped).slots, ?_⟩
    intro i s block hblock
    rw [hslots.blocks] at hblock
    exact tidy.blocks i s block hblock
  · unfold ensureSlots
    cases slotsAt head node with
    | some array => exact .pure tidy
    | none =>
      have hnone := not_obtainable_of_neg (x := 8 * dev.qset)
        (by have := hsetting.1; omega) (by omega)
      refine .bind _ (alloc?_safe 0 0 supply .kmalloc (uint64 (8 * dev.qset))).returns ?_
      rintro ⟨addr, rest⟩ ⟨-, haddr⟩
      cases addr with
      | none => exact .pure tidy
      | some addr => exact absurd (haddr.mp rfl).1 hnone

theorem scullWriteLocked_accounts (g : Globals) {snap : WriteSnapshot} {dev : ScullDev}
    (tidy : Tidy dev dev.data) (hsetting : Setting dev.qset) (current : snap.qset = dev.qset)
    (buff : List Byte) (pos : Int) (env : Env) :
    (scullWriteLocked g snap dev buff pos env).Accounts Event.entry (reachable dev.data)
      fun t after => after = reachable t.dev.data ∧ Tidy dev t.dev.data := by
  obtain ⟨qset, quantum⟩ := snap
  obtain rfl : qset = dev.qset := current
  unfold scullWriteLocked
  split
  · exact .pure ⟨rfl, tidy⟩
  refine .bind _ (address_accounts _ _ _) ?_
  rintro addr _ rfl
  refine .bind _ ((scullFollow_accounts dev.data addr.item env.supply).returns
    (scullFollow_safe 0 0 dev.data addr.item env.supply).returns) ?_
  rintro dptr _ ⟨hwalk, rfl⟩
  have hgrown := hwalk.extended.tidy tidy
  cases hnode : dptr.node with
  | none => exact .pure ⟨rfl, hgrown⟩
  | some node =>
    obtain ⟨-, hlength⟩ := hwalk.reached node hnode
    have hinside : node < dptr.head.length := by omega
    refine .bind _ (((ensureSlots_accounts dev.qset hinside dptr.supply).returns
      (ensureSlots_safe 0 0 dev.qset hinside dptr.supply).returns).returns
      (ensureSlots_tidy hsetting hinside hgrown dptr.supply)) ?_
    rintro ⟨array, head, supply⟩ _ ⟨htidy, hslots, rfl⟩
    cases array with
    | none => exact .pure ⟨rfl, htidy⟩
    | some array =>
      have hplaced : slotsAt head node = some array := hslots.placed array rfl
      refine .bind _ (.guarded rfl) ?_
      rintro _ _ ⟨hallowed, rfl⟩
      have hslot : addr.sPos.toNat < array.slots.length := by
        simp only [Event.allowed, decide_eq_true_eq] at hallowed
        omega
      refine .bind _ (ensureBlock_accounts g dev quantum hplaced hslot supply env.junk) ?_
      rintro ⟨block, final⟩ _ ⟨rfl, hready⟩
      cases block with
      | none =>
        have hfinal : final = head := hready.failed rfl
        exact .pure ⟨rfl, hfinal ▸ htidy⟩
      | some block =>
        have hvia : block.via = freedVia dev := by
          refine hready.via (fun b hb => ?_) block rfl
          exact htidy.blocks _ _ _ ((blockIn_eq_blockAt hplaced addr.sPos).trans hb)
        change (copyIn dev final node array addr block buff pos env.accessible).Accounts _ _ _
        rw [copyIn_eq]
        refine .bind _ (.guarded rfl) ?_
        rintro _ _ ⟨-, rfl⟩
        apply Traced.Accounts.pure
        -- the copy leaves the block where it is
        have hcopied (bytes : List Byte) :
            reachable final = reachable
                (setBlock final node array addr.sPos (block.store addr.qPos.toNat bytes)) ∧
              Tidy dev
                (setBlock final node array addr.sPos (block.store addr.qPos.toNat bytes)) := by
          rw [hready.replaced block rfl]
          refine ⟨?_, tidy_setBlock htidy hplaced hslot hvia⟩
          exact (hready.reachable block rfl (block.store addr.qPos.toNat bytes) rfl).symm
        unfold copied
        dsimp only
        split
        · exact hcopied _
        · exact hcopied _

theorem range_blocks (slots : List (Option Block)) :
    ((List.range slots.length).filterMap fun i => (slots[i]?.join).map Block.object) =
      slots.filterMap fun slot => slot.map Block.object := by
  have hslots : (List.range slots.length).map (fun i => slots[i]?.join) = slots := by
    apply List.ext_getElem
    · simp
    · intro i hi _
      rw [List.length_map, List.length_range] at hi
      simp [hi]
  calc ((List.range slots.length).filterMap fun i => (slots[i]?.join).map Block.object)
      = ((List.range slots.length).map fun i => slots[i]?.join).filterMap
          fun slot => slot.map Block.object := by rw [List.filterMap_map]; rfl
    _ = slots.filterMap fun slot => slot.map Block.object := by rw [hslots]

theorem trimSlots_accounts {dev : ScullDev} {array : SlotArray}
    (hvia : ∀ (sPos : Nat) (block : Block), array.slots[sPos]?.join = some block → block.via = freedVia dev)
    (indices : List Nat) (rest : Multiset Object) :
    (trimSlots dev array indices).Accounts Event.entry
      ((indices.filterMap fun i => (array.slots[i]?.join).map Block.object : Multiset Object) + rest)
      fun _ after => after = rest := by
  induction indices with
  | nil => exact .pure (zero_add _)
  | cons i indices ih =>
    refine .bind _ (.guarded rfl) ?_
    rintro _ _ ⟨-, rfl⟩
    cases hblock : array.slots[i]?.join with
    | none => simpa [hblock] using ih
    | some block =>
      have hobject : Block.object block = (block.addr, freedVia dev) := by
        rw [Block.object, hvia i block hblock]
      simp only [List.filterMap_cons, hblock, Option.map_some, ← Multiset.cons_coe,
        Multiset.cons_add, hobject]
      refine .bind _ (.release rfl) ?_
      rintro _ _ rfl
      exact ih

theorem trimNodes_accounts {dev : ScullDev} {head : List ScullQset} (tidy : Tidy dev head)
    (rest : Multiset Object) :
    (trimNodes dev head).Accounts Event.entry (reachable head + rest) fun _ after =>
      after = rest := by
  induction head with
  | nil => exact .pure (zero_add _)
  | cons dptr head ih =>
    have hrest := ih ⟨fun node => tidy.slots (node + 1), fun node => tidy.blocks (node + 1)⟩
    unfold trimNodes
    cases hdata : dptr.data with
    | none =>
      simp only [reachable_cons, ScullQset.reachable, hdata, Option.map_none, Option.getD_none,
        Multiset.cons_add, zero_add]
      refine .bind _ (.release rfl) ?_
      rintro _ _ rfl
      exact hrest
    | some array =>
      have hslots : array.slots.length = dev.qset.toNat := tidy.slots 0 array hdata
      have hvia : ∀ (sPos : Nat) (block : Block), array.slots[sPos]?.join = some block →
          block.via = freedVia dev := by
        intro sPos block hblock
        refine tidy.blocks 0 sPos block ?_
        simp [blockIn, slotsAt, hdata, hblock]
      have hobjects : reachable (dptr :: head) + rest =
          (((List.range dev.qset.toNat).filterMap fun i =>
            (array.slots[i]?.join).map Block.object : List Object) : Multiset Object) +
          ((array.addr, .kmalloc) ::ₘ (dptr.addr, .kmalloc) ::ₘ (reachable head + rest)) := by
        rw [← hslots, range_blocks]
        simp only [reachable_cons, ScullQset.reachable, hdata, Option.map_some,
          Option.getD_some, SlotArray.reachable, SlotArray.blocks, ← Multiset.singleton_add]
        abel
      rw [hobjects]
      refine .bind _ (trimSlots_accounts hvia _ _) ?_
      rintro _ _ rfl
      refine .bind _ (.release rfl) ?_
      rintro _ _ rfl
      refine .bind _ (.release rfl) ?_
      rintro _ _ rfl
      exact hrest

theorem scullTrim_accounts (g : Globals) {dev : ScullDev} (tidy : Tidy dev dev.data) :
    (scullTrim g dev).Accounts Event.entry (reachable dev.data) fun t after =>
      after = 0 ∧ t = trimmed g dev := by
  have hnodes := trimNodes_accounts tidy 0
  rw [add_zero] at hnodes
  refine .bind _ hnodes ?_
  rintro _ _ rfl
  exact .pure ⟨rfl, rfl⟩

theorem trimSlots_ends {dev : ScullDev} {array : SlotArray} (indices : List Nat)
    (hindices : ∀ i ∈ indices, i < array.slots.length) :
    (trimSlots dev array indices).result = some () := by
  induction indices with
  | nil => rfl
  | cons i indices ih =>
    have hrest := ih fun j hj => hindices j (List.mem_cons_of_mem _ hj)
    have hi := hindices i (List.mem_cons_self ..)
    unfold trimSlots
    rw [Traced.result_bind, Traced.result_guarded (by simp [Event.allowed]; omega),
      Option.bind_some]
    split
    · exact hrest
    · exact hrest

theorem trimNodes_ends {dev : ScullDev} {head : List ScullQset} (tidy : Tidy dev head) :
    (trimNodes dev head).result = some () := by
  induction head with
  | nil => rfl
  | cons dptr head ih =>
    have hrest := ih ⟨fun node => tidy.slots (node + 1), fun node => tidy.blocks (node + 1)⟩
    unfold trimNodes
    cases hdata : dptr.data with
    | none => simpa using hrest
    | some array =>
      have hslots : array.slots.length = dev.qset.toNat := tidy.slots 0 array hdata
      have htrim : (trimSlots dev array (List.range dev.qset.toNat)).result = some () :=
        trimSlots_ends _ fun i hi => hslots ▸ List.mem_range.mp hi
      simpa [htrim] using hrest

theorem scullTrim_ends (g : Globals) {dev : ScullDev} (tidy : Tidy dev dev.data) :
    (scullTrim g dev).result = some (trimmed g dev) := by
  rw [scullTrim, Traced.result_bind, trimNodes_ends tidy]
  rfl

/-! ## Any call -/

structure Orderly (fits : Int → Int → Prop) (s : Session) : Prop where
  globals : fits s.globals.scullQuantum s.globals.scullQsetN
  dev : fits s.dev.quantum s.dev.qset
  tidy : Tidy s.dev s.dev.data

variable {fits : Int → Int → Prop} {s : Session}

theorem orderly_transfer (h : Orderly fits s) {dev : ScullDev}
    (geometry : dev = { s.dev with data := dev.data, size := dev.size })
    (tidy : Tidy s.dev dev.data) : Orderly fits ⟨s.globals, dev⟩ := by
  have hquantum : dev.quantum = s.dev.quantum := by rw [geometry]
  have hqset : dev.qset = s.dev.qset := by rw [geometry]
  have hvia : freedVia dev = freedVia s.dev := by rw [geometry]; rfl
  refine ⟨h.globals, ?_, ?_, ?_⟩
  · simp only [hquantum, hqset]
    exact h.dev
  · simp only [hqset]
    exact tidy.slots
  · simp only [hvia]
    exact tidy.blocks

theorem open_orderly (h : Orderly fits s) (fFlags : Nat) :
    (scullOpen s.globals s.dev fFlags).Accounts Event.entry (reachable s.dev.data)
      fun dev after => after = reachable dev.data ∧ Orderly fits ⟨s.globals, dev⟩ := by
  unfold scullOpen
  split
  · intro dev hdev
    obtain ⟨after, hsettle, rfl, rfl⟩ := scullTrim_accounts s.globals h.tidy dev hdev
    exact ⟨0, hsettle, rfl, h.globals, h.globals, tidy_nil _⟩
  · exact .pure ⟨rfl, h⟩

theorem read_orderly (h : Orderly fits s) (snap : ReadSnapshot) (count : Nat) (pos : Int)
    (env : Env) :
    (scullReadLocked snap s.dev count pos env).Accounts Event.entry (reachable s.dev.data)
      fun t after => after = reachable t.dev.data ∧ Orderly fits ⟨s.globals, t.dev⟩ := by
  refine ((scullReadLocked_accounts snap s.dev count pos env).returns
    (scullReadLocked_effect snap s.dev count pos env)).mono ?_
  rintro t _ ⟨⟨hgeometry, hextends⟩, rfl⟩
  have hsize : t.dev.size = s.dev.size := by rw [hgeometry]
  refine ⟨rfl, orderly_transfer h ?_ (hextends.tidy h.tidy)⟩
  rw [hsize]
  exact hgeometry

theorem write_orderly (h : Orderly fits s) (hfits : ∀ quantum qset, fits quantum qset → Setting qset)
    {snap : WriteSnapshot} (current : snap.qset = s.dev.qset) (buff : List Byte) (pos : Int)
    (env : Env) :
    (scullWriteLocked s.globals snap s.dev buff pos env).Accounts Event.entry
      (reachable s.dev.data) fun t after =>
        after = reachable t.dev.data ∧ Orderly fits ⟨s.globals, t.dev⟩ := by
  refine ((scullWriteLocked_accounts s.globals h.tidy (hfits _ _ h.dev) current buff pos env).returns
    (scullWriteLocked_geometry s.globals snap s.dev buff pos env)).mono ?_
  rintro t _ ⟨hgeometry, rfl, htidy⟩
  exact ⟨rfl, orderly_transfer h hgeometry htidy⟩

/-- Every call, whatever fails in it, leaves allocated exactly what can be reached. -/
theorem call_accounts (h : Orderly fits s) (hfits : ∀ quantum qset, fits quantum qset → Setting qset)
    (call : Call)
    (hioctl : match call with
      | .scullIoctl call =>
          let g := (Store.scullIoctl s.globals call).globals
          fits g.scullQuantum g.scullQsetN
      | _ => True) :
    (call.run s).Accounts Event.entry (reachable s.dev.data) fun r after =>
      after = reachable r.1.dev.data ∧ Orderly fits r.1 := by
  cases call with
  | scullOpen fFlags =>
    refine .bind _ (open_orderly h fFlags) ?_
    rintro dev _ ⟨rfl, hafter⟩
    exact .pure ⟨rfl, hafter⟩
  | scullRead count pos env =>
    refine .bind _ (read_orderly h (readSnapshot s.dev pos) count pos env) ?_
    rintro t _ ⟨rfl, hafter⟩
    exact .pure ⟨rfl, hafter⟩
  | scullWrite buff pos env =>
    refine .bind _ (write_orderly h hfits rfl buff pos env) ?_
    rintro t _ ⟨rfl, hafter⟩
    exact .pure ⟨rfl, hafter⟩
  | scullIoctl call => exact .pure ⟨rfl, hioctl, h.dev, h.tidy⟩

end Accounts

end MyDrivers.Store
