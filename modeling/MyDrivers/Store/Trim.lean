import MyDrivers.Store.Follow

/-! `scull_trim`. Its loop runs to `dev->qset`, so it stays inside the arrays when
they have that many slots. -/
namespace MyDrivers.Store
open Lib Lib.Machine

def trimmed (g : Globals) (dev : ScullDev) : ScullDev :=
  { dev with size := 0, data := [], qset := g.scullQsetN, quantum := g.scullQuantum }

section Trim
variable {quantum qset : Int} {dev : ScullDev}

theorem free_safe (addr : Addr) (via : Allocator) :
    (Traced.emit (Event.free addr via)).Safe (Within quantum qset) fun _ => True :=
  .emit trivial

theorem trimSlots_safe {array : SlotArray} (hslots : array.slots.length = qset)
    (indices : List Nat) (hindices : ∀ i ∈ indices, (i : Int) < qset) :
    (trimSlots dev array indices).Safe (Within quantum qset) fun _ => True := by
  induction indices with
  | nil => exact .pure trivial
  | cons i rest ih =>
    have hi : (i : Int) < qset := hindices i (List.mem_cons_self ..)
    have hrest := ih fun j hj => hindices j (List.mem_cons_of_mem _ hj)
    refine .bind (touch_safe ⟨by omega, hi, hslots⟩) fun _ _ => ?_
    split
    · next block _ =>
      exact .bind (free_safe block.addr (freedVia dev)) fun _ _ => hrest
    · exact hrest

theorem trimNodes_safe (hqset : dev.qset = qset) {head : List ScullQset}
    (hslots : ∀ node array, slotsAt head node = some array → array.slots.length = qset) :
    (trimNodes dev head).Safe (Within quantum qset) fun _ => True := by
  induction head with
  | nil => exact .pure trivial
  | cons dptr head ih =>
    have hrest := ih fun node array harray => hslots (node + 1) array harray
    have hfree (addr : Addr) (more : Traced Event Unit)
        (h : more.Safe (Within quantum qset) fun _ => True) :
        (Traced.emit (.free addr .kmalloc) >>= fun _ => more).Safe (Within quantum qset)
          fun _ => True :=
      .bind (free_safe addr .kmalloc) fun _ _ => h
    unfold trimNodes
    cases hdata : dptr.data with
    | none => exact hfree dptr.addr _ hrest
    | some array =>
      refine .bind (trimSlots_safe (hslots 0 array hdata) _ ?_) fun _ _ =>
        hfree array.addr _ (hfree dptr.addr _ hrest)
      intro i hi
      have := List.mem_range.mp hi
      omega

theorem scullTrim_safe (g : Globals) (hqset : dev.qset = qset)
    (hslots : ∀ node array, slotsAt dev.data node = some array → array.slots.length = qset) :
    (scullTrim g dev).Safe (Within quantum qset) fun after => after = trimmed g dev :=
  .bind (trimNodes_safe hqset hslots) fun _ _ => .pure rfl

end Trim

theorem scullTrim_returns (g : Globals) (dev : ScullDev) :
    (scullTrim g dev).Returns fun after => after = trimmed g dev :=
  .skip fun _ => .pure rfl

end MyDrivers.Store
