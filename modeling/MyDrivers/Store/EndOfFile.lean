import MyDrivers.Lib.Ring
import MyDrivers.Store.Capacity
import MyDrivers.Store.FailedWrite
import MyDrivers.Store.RoundTrip

/-! Where a read comes to an end. It returns 0 at the end of the file and also in a
hole, where no block has ever been written; everywhere else it returns what was
written there last. -/
namespace MyDrivers.Store
open Lib Lib.Machine

def rewrite (content : Nat → Byte) (done : Call × Reply) : Nat → Byte :=
  match done.1 with
  | .scullOpen fFlags => if fFlags &&& O_ACCMODE = O_WRONLY then fun _ => 0 else content
  | .scullWrite buff pos _ => Ring.paste content pos.toNat (buff.take done.2.ret.toNat)
  | .scullRead _ _ _ => content
  | .scullIoctl _ => content

/-- What has been written since the last trim; a byte never written is zero. -/
def contents (labels : List (Call × Reply)) : Nat → Byte := labels.foldl rewrite fun _ => 0

@[simp] theorem contents_nil : contents [] = fun _ => 0 := rfl

@[simp] theorem contents_snoc (labels : List (Call × Reply)) (done : Call × Reply) :
    contents (labels ++ [done]) = rewrite (contents labels) done := by
  simp [contents]

/-- No block is there for position `p`: its item is negative as an `int`, or the
slot of the item is empty. -/
def Missing (dev : ScullDev) (p : Nat) : Prop :=
  let itemsize := dev.quantum.toNat * dev.qset.toNat
  let item := int32 (p / itemsize : Nat)
  item < 0 ∨ blockIn dev.data item.toNat (p % itemsize / dev.quantum.toNat) = none

/-- The user copies of writes succeed, and their items are `int`s. -/
def Delivered (s : Session) (done : Call × Reply) : Prop :=
  match done.1 with
  | .scullWrite buff pos env =>
      pos < 2147483648 * (s.dev.quantum * s.dev.qset) ∧ buff.length ≤ env.accessible
  | _ => True

structure ReadsOn (content : Nat → Byte) (dev : ScullDev) (count p : Nat) (t : Transfer) :
    Prop where
  stops : t.ret = 0 ↔ dev.size ≤ p ∨ Missing dev p
  goes : t.ret ≠ 0 → ∃ n : Nat, t.ret = n ∧ 1 ≤ n ∧ n ≤ count ∧ (n : Int) ≤ dev.size - p ∧
    t.bytes = (List.range n).map fun k => content ((landing dev p).toNat + k)

section Transfers
variable {quantum qset : Nat}

theorem item_of_lt {p : Nat} (h : (p : Int) < 2147483648 * (quantum * qset)) :
    int32 (p / (quantum * qset) : Nat) = (p / (quantum * qset) : Nat) := by
  have hlt : p / (quantum * qset) < 2147483648 := by
    apply Nat.div_lt_of_lt_mul
    rw [Nat.mul_comm]
    exact_mod_cast h
  exact int32_of_item_lt hlt

theorem byteAt_written (hsound : Sound quantum qset) {dev : ScullDev}
    (hquantum : dev.quantum = quantum) (hqset : dev.qset = qset) {buff : List Byte} {p : Nat}
    {env : Env} {t : Transfer} {addr : Address} (hlocated : Located quantum qset p addr)
    (hwritten : Written quantum quantum qset dev buff p env addr t)
    (hlow : (p : Int) < 2147483648 * (quantum * qset)) (hcopy : buff.length ≤ env.accessible)
    (x : Nat) :
    byteAt t.dev x = Ring.paste (byteAt dev) p (buff.take t.ret.toNat) x := by
  have haddr := located_sound hsound hlocated
  have hcolumn : addr.qPos.toNat = p % quantum := by rw [haddr]; exact Int.toNat_natCast _
  have hcolumnLt : p % quantum < quantum := Nat.mod_lt _ hsound.quantum_pos
  have hbytes : t.bytes = buff.take t.ret.toNat ∧ p % quantum + t.bytes.length ≤ quantum := by
    cases hwritten.outcome with
    | noMemory ret bytes =>
      have hzero : t.ret.toNat = 0 := by
        rw [ret]
        decide
      rw [hzero, bytes]
      exact ⟨rfl, by simpa using hcolumnLt.le⟩
    | fault ret item short => omega
    | done count hcount item ret bytes =>
      rw [hcolumn] at hcount
      rw [ret, Int.toNat_natCast, bytes, List.length_take]
      exact ⟨rfl, by omega⟩
  obtain ⟨hreported, hroom⟩ := hbytes
  rw [byteAt_pasted hsound hquantum hqset hlocated hwritten (item_of_lt hlow) hroom,
    Nat.div_add_mod', hreported]

theorem read_ends_at (hsound : Sound quantum qset) {dev : ScullDev} (hquantum : dev.quantum = quantum)
    (hqset : dev.qset = qset) (hshaped : Shaped quantum qset dev.data)
    (hsize : dev.size < 9223372036854775808) {count p : Nat} (hcount : 0 < count) {env : Env}
    (hrun : env.interrupted = false) (hcopy : count ≤ env.accessible) :
    (scullRead dev count p env).Safe (Within quantum qset) (ReadsOn (byteAt dev) dev count p) := by
  have hquantumPos := hsound.quantum_pos
  have hqsetPos := hsound.qset_pos
  by_cases hend : dev.size ≤ p
  · rw [scullRead_end count hrun hend]
    exact .pure ⟨iff_of_true rfl (.inl hend), fun h => absurd rfl h⟩
  · refine (scullRead_safe hsound.divides hquantum hqset hshaped count (Int.natCast_nonneg p)
      (by omega) hrun).mono ?_
    rintro t ⟨addr, hlocated, hread⟩
    have haddr := located_sound hsound hlocated
    have hmissing : Missing dev p ↔
        addr.item < 0 ∨ blockIn dev.data addr.item.toNat addr.sPos.toNat = none := by
      unfold Missing
      rw [haddr, hquantum, hqset]
      simp only [Int.toNat_natCast]
    have hcolumn : addr.qPos.toNat = p % quantum := by rw [haddr]; exact Int.toNat_natCast _
    have hcolumnLt : p % quantum < quantum := Nat.mod_lt _ hquantumPos
    have hleft : uint64 (int64 (dev.size - p)) = (dev.size - p).toNat := by
      rw [int64_eq_self (by omega) (by omega), uint64_eq_toNat (by omega) (by omega)]
    cases hread.outcome with
    | absent block ret =>
      exact ⟨iff_of_true ret (.inr (hmissing.mpr block)), fun h => absurd ret h⟩
    | fault n hn block short => omega
    | done n hn block enough ret bytes pos =>
      rw [hleft, hcolumn] at hn
      have hpresent : ¬ Missing dev p := by
        rw [hmissing]
        rintro (hneg | hnone)
        · exact absurd block.1 (Int.not_le.mpr hneg)
        · rw [hnone] at block
          cases block.2
      refine ⟨iff_of_false (by omega) (by tauto), fun _ => ⟨n, ret, by omega, by omega, by omega, ?_⟩⟩
      obtain ⟨item, hitem⟩ := Int.eq_ofNat_of_zero_le block.1
      have hwrapped : int32 (p / (quantum * qset) : Nat) = item := by
        rw [← hitem, haddr]
      have hrow : addr.sPos.toNat = p % (quantum * qset) / quantum := by
        rw [haddr]
        exact Int.toNat_natCast _
      rw [bytes, landing_eq hquantum hqset hwrapped, Int.toNat_natCast]
      unfold cells
      apply List.map_congr_left
      intro k hk
      have hk : k < n := List.mem_range.mp hk
      obtain ⟨hj, hjRow, hjColumn⟩ := landed hquantumPos hqsetPos p item k
        (by omega)
      rw [byteAt_eq hquantum hqset, hj, hjRow, hjColumn, hitem, hrow, hcolumn, Int.toNat_natCast]

end Transfers

/-! ## Runs -/

section Runs
variable {type : ScullType} {s t : Session} {labels : List (Call × Reply)}

theorem step_contents (h : Equipped type s) (hcontents : ∀ x, byteAt s.dev x = contents labels x)
    {done : Call × Reply} (delivered : Delivered s done) (hstep : Step s done t) (x : Nat) :
    byteAt t.dev x = contents (labels ++ [done]) x := by
  rw [contents_snoc]
  have hoffered := hstep.1
  cases step_cases hstep with
  | trim fFlags reply flags => simp [rewrite, flags, byteAt, trimmed, cell, blockIn, slotsAt]
  | enter fFlags reply flags => simpa [rewrite, flags] using hcontents x
  | ioctl call reply => exact hcontents x
  | read count pos env transfer returned =>
    obtain ⟨hgeometry, hextends⟩ := scullRead_effect _ _ _ _ transfer returned
    have hsame : byteAt transfer.dev x = byteAt s.dev x := by
      rw [hgeometry]
      exact hextends.cell _ _ _
    exact hsame.trans (hcontents x)
  | write buff pos env transfer returned =>
    obtain ⟨quantum, qset, hquantum, hqset, hquantumNat, hqsetNat, hsound⟩ := h.dev.toNat
    obtain ⟨p, hp⟩ := Int.eq_ofNat_of_zero_le hoffered.1
    have hcontent : byteAt s.dev = contents labels := funext hcontents
    simp only [Delivered, rewrite] at delivered ⊢
    rw [← hcontent, hp, Int.toNat_natCast]
    cases hrun : env.interrupted with
    | true =>
      rw [scullWrite_interrupted _ _ _ _ hrun] at returned
      cases returned
      have hzero : (-ERESTARTSYS).toNat = 0 := by decide
      simp [Ring.paste, hzero]
    | false =>
      have hshaped := h.shaped
      have hfits := h.fits
      rw [hquantumNat, hqsetNat] at hshaped
      rw [hquantum] at hfits
      rw [hp] at returned delivered
      rw [hquantum, hqset] at delivered
      obtain ⟨addr, hlocated, hwritten⟩ := (scullWrite_safe hsound.divides hquantum hqset hshaped
        (by exact_mod_cast hfits) buff (Int.natCast_nonneg p) hrun).returns transfer returned
      exact byteAt_written hsound hquantum hqset hlocated hwritten delivered.1 delivered.2 x

theorem run_contents {g : Globals} {order : Nat} (loaded : Loaded g order type)
    (run : Run (While Delivered (While (Permitted type) Step)) (.init g type order) labels t) :
    Equipped type t ∧ ∀ x, byteAt t.dev x = contents labels x := by
  refine run.invariant
    (fun labels t => Equipped type t ∧ ∀ x, byteAt t.dev x = contents labels x)
    ⟨equipped_init loaded, fun _ => rfl⟩ ?_
  rintro labels s done t - ⟨h, hcontents⟩ ⟨hdelivered, hpermitted, hstep⟩
  refine ⟨?_, step_contents h hcontents hdelivered hstep⟩
  exact (call_equipped h done.1 hstep.1).returns _ hstep.2 fun _ => hpermitted

/-- In every reachable state a read of at least one byte returns 0 exactly at the
end of the file and in holes; elsewhere it returns what was written last. -/
theorem read_ends {g : Globals} {order : Nat} (loaded : Loaded g order type)
    (run : Run (While Delivered (While (Permitted type) Step)) (.init g type order) labels s)
    {count p : Nat} (hcount : 0 < count) {env : Env} (running : env.interrupted = false)
    (accessible : count ≤ env.accessible) :
    ∃ t, (scullRead s.dev count p env).result = some t ∧
      ReadsOn (contents labels) s.dev count p t := by
  obtain ⟨h, hcontents⟩ := run_contents loaded run
  obtain ⟨quantum, qset, hquantum, hqset, hquantumNat, hqsetNat, hsound⟩ := h.dev.toNat
  have hshaped := h.shaped
  rw [hquantumNat, hqsetNat] at hshaped
  have hcontent : byteAt s.dev = contents labels := funext hcontents
  rw [← hcontent]
  exact (read_ends_at hsound hquantum hqset hshaped (size_lt run.forget.forget) hcount running
    accessible).ends

end Runs

def holed : Session :=
  ⟨⟨1, 1, 64, 4096⟩,
    ⟨[⟨0, none⟩, ⟨1, some ⟨2, [some ⟨3, .kmalloc, [7]⟩]⟩⟩], 1, 1, 1, 0, .basic⟩⟩

def storeAhead : Call × Reply := (.scullWrite [7] 1 .calm, ⟨1, 2, [7]⟩)

theorem read_stops_early :
    ∃ t, Run (While Delivered (While (Permitted .basic) Step)) (.init ⟨1, 1, 64, 4096⟩ .basic 0)
        [storeAhead] holed ∧
      (scullRead holed.dev 1 (0 : Nat) .calm).result = some t ∧
      t.ret = 0 ∧ ¬ holed.dev.size ≤ (0 : Nat) := by
  have ahead : Step (.init ⟨1, 1, 64, 4096⟩ .basic 0) storeAhead holed :=
    ⟨by simp [storeAhead, Call.Offered], by decide +kernel⟩
  have delivered : Delivered (.init ⟨1, 1, 64, 4096⟩ .basic 0) storeAhead := by
    simp [Delivered, storeAhead, Env.calm, Session.init, scullInitDev]
  exact ⟨⟨0, holed.dev, 0, []⟩, Run.single ⟨delivered, trivial, ahead⟩, by decide +kernel, rfl,
    by decide⟩

theorem read_ends_stored :
    ∃ t, (scullRead (holding 7 1).dev 3 (0 : Nat) .calm).result = some t ∧
      ReadsOn (contents [storeByte 7]) (holding 7 1).dev 3 0 t := by
  have loaded : Loaded ⟨4, 2, 64, 4096⟩ 0 .basic := show Sound 4 2 by decide
  have delivered : Delivered (.init ⟨4, 2, 64, 4096⟩ .basic 0) (storeByte 7) := by
    simp [Delivered, storeByte, Env.calm, Session.init, scullInitDev]
  exact read_ends loaded (Run.single ⟨delivered, trivial, store_first.2⟩) (by decide) rfl
    (by decide)

end MyDrivers.Store
