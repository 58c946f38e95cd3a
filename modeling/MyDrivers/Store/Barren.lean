import MyDrivers.Store.Ioctl
import MyDrivers.Store.Writes

/-! Devices that cannot get a block: their settings ask an allocator for an
object it cannot give, or for less than a block holds. Every write on them fails
and none leaves a block behind. -/
namespace MyDrivers.Store
open Lib Lib.Machine

/-- No block anywhere, and arrays of `qset` slots. -/
structure Barren (qset : Int) (head : List ScullQset) : Prop where
  shaped : Shaped 0 qset.toNat head
  slots : qset < 0 → ∀ node, slotsAt head node = none
  blocks : ∀ node slot, blockIn head node slot = none

theorem barren_nil (qset : Int) : Barren qset [] :=
  ⟨shaped_nil _ _, fun _ _ => rfl, fun _ _ => rfl⟩

theorem Extends.barren {qset : Int} {head longer : List ScullQset} (h : Extends head longer)
    (hbarren : Barren qset head) : Barren qset longer := by
  refine ⟨h.shaped hbarren.shaped, fun hqset node => ?_, fun node slot => ?_⟩
  · rw [h.slotsAt]
    exact hbarren.slots hqset node
  · rw [h.blockIn]
    exact hbarren.blocks node slot

theorem uint64_slots {qset : Int} (hlow : 0 ≤ qset) (hhigh : qset < 2147483648) :
    uint64 (8 * qset) / 8 = qset.toNat := by
  rw [uint64_eq_toNat (by omega) (by omega)]
  omega

theorem not_obtainable_of_neg {x : Int} (hlow : -9223372036854775808 ≤ x) (hneg : x < 0) :
    ¬ Obtainable .kmalloc (uint64 x) := by
  intro h
  have hsmall := h rfl
  have hlarge := uint64_of_neg hlow hneg
  omega

structure Fruitless (dev : ScullDev) (t : Transfer) : Prop where
  ret : t.ret < 0
  geometry : t.dev = { dev with data := t.dev.data }
  barren : Barren dev.qset t.dev.data

section Write
variable {good : Event → Prop} {g : Globals} {dev : ScullDev} {room qset : Int}

theorem ensureSlots_barren (hgood : ∀ e, Within room qset e → good e)
    (hsetting : Setting dev.qset) {head : List ScullQset} (hbarren : Barren dev.qset head)
    {node : Nat} (hnode : node < head.length) (supply : Supply) :
    (ensureSlots dev.qset head node supply).Keeps good fun r =>
      Barren dev.qset r.2.1 ∧
        ∀ array, r.1 = some array → 0 ≤ dev.qset ∧ slotsAt r.2.1 node = some array := by
  refine ⟨((ensureSlots_safe room qset dev.qset hnode supply).keeps hgood).events, ?_⟩
  rintro ⟨array, after, rest⟩ hreturned
  have hslots := (ensureSlots_safe room qset dev.qset hnode supply).returns _ hreturned
  by_cases hqset : 0 ≤ dev.qset
  · refine ⟨⟨?_, fun h => by omega, fun i s => ?_⟩, fun array harray => ⟨hqset, ?_⟩⟩
    · exact hslots.shaped 0 _ (uint64_slots hqset hsetting.2) hbarren.shaped
    · rw [hslots.blocks]
      exact hbarren.blocks i s
    · exact hslots.placed array harray
  · -- no array is there and none can be allocated
    have hneg : dev.qset < 0 := by omega
    have hnone : array = none := by
      have hready := hslots.ready
      have hobtain := not_obtainable_of_neg (x := 8 * dev.qset)
        (by have := hsetting.1; omega) (by omega)
      cases array with
      | none => rfl
      | some array =>
        have := hready.mp rfl
        simp [hbarren.slots hneg node, hobtain] at this
    have hafter : after = head := hslots.failed hnone
    subst hafter
    refine ⟨hbarren, fun array harray => ?_⟩
    rw [hnone] at harray
    cases harray

theorem ensureBlock_barren (hgood : ∀ e, Within room qset e → good e)
    (hfails : Obtainable (freedVia dev) (blockSize g dev) →
      blockSize g dev < uint64 dev.quantum ∧
        good (.bytes 0 (uint64 dev.quantum) (blockSize g dev)))
    {head : List ScullQset} {node : Nat} {array : SlotArray} {sPos : Int}
    (hempty : array.blockAt sPos = none) (supply : Supply) (junk : Nat → Byte) :
    (ensureBlock g dev dev.quantum head node array sPos supply junk).Keeps good fun r =>
      r.1 = none ∧ r.2 = head := by
  unfold ensureBlock scullAlloc
  simp only [hempty, bind_assoc]
  refine .bind ((alloc?_safe room qset supply (freedVia dev) (blockSize g dev)).keeps hgood) ?_
  rintro ⟨addr, rest⟩ ⟨-, haddr⟩
  simp only [pure_bind]
  cases addr with
  | none => exact .pure ⟨rfl, rfl⟩
  | some addr =>
    -- the new block is too small for the memset
    obtain ⟨hsmall, htouch⟩ := hfails (haddr.mp rfl).1
    have hlength : ((List.range (blockSize g dev)).map junk).length = blockSize g dev := by simp
    simp only [Option.map_some, hlength]
    refine .bind (.guarded htouch) fun _ hallowed => ?_
    simp only [Event.allowed, decide_eq_true_eq] at hallowed
    omega

theorem scullWrite_barren (hgood : ∀ e, Within room qset e → good e)
    (hsetting : Setting dev.qset) (hbarren : Barren dev.qset dev.data) {known : Address → Prop}
    {pos : Int}
    (haddress : (address (int32 (dev.qset * dev.quantum)) dev.quantum pos).Keeps good known)
    (hslot : 0 ≤ dev.qset → ∀ addr, known addr → good (.slot addr.sPos dev.qset.toNat))
    (hfails : 0 ≤ dev.qset → Obtainable (freedVia dev) (blockSize g dev) →
      blockSize g dev < uint64 dev.quantum ∧
        good (.bytes 0 (uint64 dev.quantum) (blockSize g dev)))
    (buff : List Byte) (env : Env) :
    (scullWrite g dev buff pos env).Keeps good (Fruitless dev) := by
  have hnegative : -ERESTARTSYS < 0 ∧ -ENOMEM < 0 := by decide
  obtain ⟨hinterrupted, hmemory⟩ := hnegative
  unfold scullWrite writeSnapshot scullWriteLocked
  split
  · exact .pure ⟨hinterrupted, rfl, hbarren⟩
  refine .bind haddress fun addr haddr => ?_
  refine .bind ((scullFollow_safe room qset dev.data addr.item env.supply).keeps hgood)
    fun dptr hwalk => ?_
  have hgrown : Barren dev.qset dptr.head := hwalk.extended.barren hbarren
  cases hnode : dptr.node with
  | none => exact .pure ⟨hmemory, rfl, hgrown⟩
  | some node =>
    obtain ⟨-, hlength⟩ := hwalk.reached node hnode
    have hinside : node < dptr.head.length := by omega
    refine .bind (ensureSlots_barren hgood hsetting hgrown hinside dptr.supply) ?_
    rintro ⟨array, head, supply⟩ ⟨hafter, hplaced⟩
    cases array with
    | none => exact .pure ⟨hmemory, rfl, hafter⟩
    | some array =>
      obtain ⟨hqset, harray⟩ := hplaced array rfl
      have hslots : array.slots.length = dev.qset.toNat := hafter.shaped.slots node array harray
      have hempty : array.blockAt addr.sPos = none :=
        (blockIn_eq_blockAt harray addr.sPos).symm.trans (hafter.blocks _ _)
      refine .bind (.guarded (by rw [hslots]; exact hslot hqset addr haddr)) fun _ _ => ?_
      refine .bind (ensureBlock_barren hgood (hfails hqset) hempty supply env.junk) ?_
      rintro ⟨block, final⟩ ⟨hblock, hfinal⟩
      simp only at hblock hfinal
      subst hblock hfinal
      exact .pure ⟨hmemory, rfl, hafter⟩

end Write

end MyDrivers.Store
