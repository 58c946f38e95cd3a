import MyDrivers.Store.Alias
import MyDrivers.Store.Objects
import MyDrivers.Store.Size

/-! What a write that fails leaves behind. Nodes, arrays and zeroed blocks that it
has added hold no byte that was not zero before; only a fault in the middle of the
copy shows, as the bytes copied before it and zeros behind them. -/
namespace MyDrivers.Store
open Lib Lib.Machine

def landing (dev : ScullDev) (p : Nat) : Int :=
  let itemsize := dev.quantum.toNat * dev.qset.toNat
  int32 (p / itemsize : Nat) * itemsize + (p % itemsize : Nat)

/-- The bytes of `buff` that a write at `p` asks `copy_from_user` for. -/
def reach (dev : ScullDev) (buff : List Byte) (p : Nat) : Nat :=
  min buff.length (dev.quantum.toNat - p % dev.quantum.toNat)

/-- What a failed write leaves: everything as it was, except that a copy that
faulted has stored the bytes in front of the fault and zeros from there on. -/
structure Failed (dev : ScullDev) (buff : List Byte) (p : Nat) (env : Env) (t : Transfer) :
    Prop where
  size : t.dev.size = dev.size
  pos : t.pos = p
  geometry : t.dev = { dev with data := t.dev.data }
  bytes : ∀ x : Nat, byteAt t.dev x =
    if t.ret = -EFAULT ∧ landing dev p ≤ x ∧ x < landing dev p + reach dev buff p then
      if x - landing dev p < env.accessible then buff.getD (x - landing dev p).toNat 0 else 0
    else byteAt dev x

theorem landing_eq {quantum qset : Nat} {dev : ScullDev} (hquantum : dev.quantum = quantum)
    (hqset : dev.qset = qset) {p item : Nat} (hitem : int32 (p / (quantum * qset) : Nat) = item) :
    landing dev p = (item * (quantum * qset) + p % (quantum * qset) : Nat) := by
  unfold landing
  rw [hquantum, hqset]
  simp only [Int.toNat_natCast, hitem]
  push_cast
  rfl

/-! ## One write -/

theorem scullWrite_fault (g : Globals) (dev : ScullDev) (buff : List Byte) (pos : Int)
    (env : Env) : (scullWrite g dev buff pos env).Returns fun t =>
      t.ret = -EFAULT → ∃ node slot, (blockIn t.dev.data node slot).isSome := by
  have hothers : -ERESTARTSYS ≠ -EFAULT ∧ -ENOMEM ≠ -EFAULT := by decide
  obtain ⟨hinterrupted, hmemory⟩ := hothers
  unfold scullWrite writeSnapshot scullWriteLocked
  split
  · exact .pure fun h => absurd h hinterrupted
  refine .skip fun addr => ?_
  refine .bind _ (scullFollow_safe 0 0 dev.data addr.item env.supply).returns fun dptr hwalk => ?_
  cases hnode : dptr.node with
  | none => exact .pure fun h => absurd h hmemory
  | some node =>
    obtain ⟨-, hlength⟩ := hwalk.reached node hnode
    have hinside : node < dptr.head.length := by omega
    refine .bind _ (ensureSlots_safe 0 0 dev.qset hinside dptr.supply).returns ?_
    rintro ⟨array, head, supply⟩ hslots
    cases array with
    | none => exact .pure fun h => absurd h hmemory
    | some array =>
      have hplaced : slotsAt head node = some array := hslots.placed array rfl
      refine .bind _ (@Traced.Keeps.guarded _ (fun _ => True) _ _ trivial).returns
        fun _ hallowed => ?_
      have hslot : addr.sPos.toNat < array.slots.length := by
        simp only [Event.allowed, decide_eq_true_eq] at hallowed
        omega
      refine .bind (fun r => Placed dev head node array addr.sPos r.1 r.2) ?_ ?_
      · intro r hr
        obtain ⟨-, -, -, hready⟩ :=
          ensureBlock_accounts g dev dev.quantum hplaced hslot supply env.junk r hr
        exact hready
      · rintro ⟨block, final⟩ hready
        cases block with
        | none => exact .pure fun h => absurd h hmemory
        | some block =>
          change (copyIn dev final node array addr block buff pos env.accessible).Returns _
          rw [copyIn_eq]
          refine .skip fun _ => .pure fun _ => ⟨node, addr.sPos.toNat, ?_⟩
          have hcopied (bytes : List Byte) :
              (blockIn (setBlock final node array addr.sPos (block.store addr.qPos.toNat bytes))
                node addr.sPos.toNat).isSome := by
            rw [hready.replaced block rfl, blockIn_setBlock hplaced hslot, if_pos ⟨rfl, rfl⟩]
            rfl
          unfold copied
          dsimp only
          split
          · exact hcopied _
          · exact hcopied _

theorem byteAt_barren {dev : ScullDev} {qset : Int} (h : Barren qset dev.data) (x : Nat) :
    byteAt dev x = 0 := by
  unfold byteAt cell
  simp only [h.blocks]

theorem written_failed {quantum qset : Nat} (hsound : Sound quantum qset) {dev : ScullDev}
    (hquantum : dev.quantum = quantum) (hqset : dev.qset = qset) {buff : List Byte} {p : Nat}
    {env : Env} {t : Transfer} {addr : Address} (hlocated : Located quantum qset p addr)
    (hwritten : Written quantum quantum qset dev buff p env addr t) (hret : t.ret < 0) :
    Failed dev buff p env t := by
  have hquantumPos := hsound.quantum_pos
  have hdevQuantum : t.dev.quantum = quantum := by rw [hwritten.geometry]; exact hquantum
  have hdevQset : t.dev.qset = qset := by rw [hwritten.geometry]; exact hqset
  have haddr := located_sound hsound hlocated
  have hsame (size : t.dev.size = dev.size) : t.dev = { dev with data := t.dev.data } := by
    have hgeometry := hwritten.geometry
    rw [size] at hgeometry
    exact hgeometry
  cases hwritten.outcome with
  | noMemory ret bytes size pos =>
    refine ⟨size, pos, hsame size, fun x => ?_⟩
    have hother : ¬ t.ret = -EFAULT := by
      rw [ret]
      decide
    rw [if_neg fun h => hother h.1, byteAt_eq hdevQuantum hdevQset, byteAt_eq hquantum hqset,
      hwritten.stored.cells _ _ _ (Nat.mod_lt _ hquantumPos), if_neg]
    rw [bytes, List.length_nil]
    omega
  | fault ret item short bytes size pos =>
    refine ⟨size, pos, hsame size, fun x => ?_⟩
    obtain ⟨k, hk⟩ := Int.eq_ofNat_of_zero_le item
    have hitem : int32 (p / (quantum * qset) : Nat) = k := by
      rw [haddr] at hk
      exact hk
    have hcolumn : addr.qPos.toNat = p % quantum := by
      rw [haddr]
      exact Int.toNat_natCast _
    have hreach : min buff.length (quantum - addr.qPos.toNat) = reach dev buff p := by
      rw [reach, hcolumn, hquantum, Int.toNat_natCast]
    have hlength : t.bytes.length = reach dev buff p := by
      rw [bytes, length_copyFromUser (Nat.min_le_left _ _), hreach]
    have hroom : p % quantum + t.bytes.length ≤ quantum := by
      have := Nat.mod_lt p hquantumPos
      rw [hlength, ← hreach, hcolumn]
      omega
    rw [byteAt_pasted hsound hquantum hqset hlocated hwritten hitem hroom,
      landing_eq hquantum hqset hitem]
    by_cases hbefore : x < k * (quantum * qset) + p % (quantum * qset)
    · rw [Ring.paste_of_lt hbefore, if_neg]
      omega
    · obtain ⟨j, rfl⟩ := Nat.exists_eq_add_of_le (Nat.le_of_not_lt hbefore)
      by_cases hj : j < t.bytes.length
      · have hwithin : reach dev buff p ≤ buff.length := Nat.min_le_left _ _
        have hbyte : (copyFromUser buff (reach dev buff p) env.accessible).getD j 0 = _ :=
          getD_copyFromUser hwithin (hlength ▸ hj)
        rw [← hreach, ← bytes, List.getD_eq_getElem?_getD, List.getElem?_eq_getElem hj,
          Option.getD_some] at hbyte
        have hoffset (start : Nat) : ((start + j : Nat) : Int) - (start : Nat) = (j : Nat) := by
          omega
        rw [if_pos ⟨ret, by omega, by omega⟩, hoffset, Int.toNat_natCast, Ring.paste_at hj]
        simp only [hbyte, Int.ofNat_lt]
      · rw [Ring.paste_of_le (by omega), if_neg]
        omega
  | done count hcount item ret bytes size pos block =>
    rw [ret] at hret
    exact absurd hret (Int.not_lt.mpr (Int.natCast_nonneg count))

/-! ## Reachable devices -/

/-- On every reachable device with sound settings, a write that returns a negative
value leaves size, position, geometry and every stored byte alone, except for the
bytes that a faulting copy was to store. -/
theorem write_failed {g : Globals} {type : ScullType} {order : Nat}
    {labels : List (Call × Reply)} {s : Session} (run : Run Step (.init g type order) labels s)
    (hsound : Sound s.dev.quantum s.dev.qset) {buff : List Byte} {p : Nat} {env : Env}
    {t : Transfer} (returned : (scullWrite s.globals s.dev buff p env).result = some t)
    (failed : t.ret < 0) : Failed s.dev buff p env t := by
  have hstocked := stocked_reachable run hsound
  have hpos : (0 : Int) ≤ p := Int.natCast_nonneg p
  obtain ⟨quantum, qset, hquantum, hqset, hquantumNat, hqsetNat, hsettings⟩ := hsound.toNat
  by_cases hsmall : (blockSize s.globals s.dev : Int) < s.dev.quantum
  · -- no block can be there, before or after
    have hbarren := hstocked.barren hsmall
    have hfruitless := scullWrite_small hquantum hqset hsettings hsmall hbarren buff hpos env t
      returned
    have hafter : Barren s.dev.qset t.dev.data := hfruitless.barren
    have hnofault : ¬ t.ret = -EFAULT := by
      intro hfault
      obtain ⟨node, slot, hblock⟩ := scullWrite_fault _ _ _ _ _ t returned hfault
      rw [hafter.blocks] at hblock
      cases hblock
    refine ⟨by rw [hfruitless.geometry], ?_, hfruitless.geometry, fun x => ?_⟩
    · cases (scullWrite_effect _ _ _ _ _ t returned).2 with
      | failed incomplete ret size pos => exact pos
      | completed addr completes ret size pos =>
        have hreturned := completes.located
        rw [hquantum, hqset, Int.mul_comm] at hreturned
        have hlocated := (address_located 0 0 hsettings.divides hpos).returns addr hreturned
        have hclamped := clamped_located hsettings hquantum hlocated buff
        have hwidth := hsettings.divides.2.1
        rw [ret, int64_eq_self (by omega) (by omega)] at failed
        omega
    · rw [if_neg fun h => hnofault h.1, byteAt_barren hafter, byteAt_barren hbarren]
  · cases hrun : env.interrupted with
    | true =>
      rw [scullWrite_interrupted _ _ _ _ hrun] at returned
      cases returned
      have hnofault : ¬ -ERESTARTSYS = -EFAULT := by decide
      exact ⟨rfl, rfl, rfl, fun x => (if_neg fun h => hnofault h.1).symm⟩
    | false =>
      have hshaped := hstocked.shaped
      rw [hquantumNat, hqsetNat] at hshaped
      obtain ⟨addr, hlocated, hwritten⟩ := (scullWrite_safe hsettings.divides hquantum hqset
        hshaped (by omega) buff hpos hrun).returns t returned
      exact written_failed hsettings hquantum hqset hlocated hwritten failed

def faulting : Env := { Env.calm with accessible := 1 }

def storeTwo : Call × Reply := (.scullWrite [7, 8] 0 .calm, ⟨2, 2, [7, 8]⟩)

theorem store_two : Step (.init ⟨4, 2, 64, 4096⟩ .basic 0) storeTwo (holdingTwo 7 8) :=
  ⟨by simp [storeTwo, Call.Offered], by decide +kernel⟩

theorem write_overwrites :
    ∃ t, Run Step (.init ⟨4, 2, 64, 4096⟩ .basic 0) [storeTwo] (holdingTwo 7 8) ∧
      (scullWrite (holdingTwo 7 8).globals (holdingTwo 7 8).dev [9, 9] (0 : Nat)
        faulting).result = some t ∧
      t.ret = -EFAULT ∧ byteAt (holdingTwo 7 8).dev 0 = 7 ∧ byteAt t.dev 0 = 9 ∧
      byteAt (holdingTwo 7 8).dev 1 = 8 ∧ byteAt t.dev 1 = 0 :=
  ⟨⟨-EFAULT, (holdingTwo 9 0).dev, 0, [9, 0]⟩, .single store_two, by decide +kernel, rfl,
    by decide, by decide, by decide, by decide⟩

theorem write_failed_overwrites :
    Failed (holdingTwo 7 8).dev [9, 9] 0 faulting
      ⟨-EFAULT, (holdingTwo 9 0).dev, 0, [9, 0]⟩ :=
  write_failed (.single store_two) (by decide) (by decide +kernel) (by decide)

end MyDrivers.Store
