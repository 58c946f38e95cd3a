import MyDrivers.Store.Size

/-! The size of what the three modules allocate. An array is as long as
`dev->qset` and a block holds `dev->quantum` bytes, although its size is decided
by `kmalloc`, by a slab cache or by a page order, and a trim takes new settings
from the globals. -/
namespace MyDrivers.Store
open Lib Lib.Machine

/-- The globals of a module that has been loaded: the cache of `scullc` is made
for `scull_quantum`, and nothing changes the settings of `scullp`. -/
def Loaded (g : Globals) (order : Nat) : ScullType → Prop
  | .basic => Sound g.scullQuantum g.scullQsetN
  | .c => Sound g.scullQuantum g.scullQsetN ∧ (g.cacheSize : Int) = g.scullQuantum
  | .p =>
      g.scullQuantum = QUANTUM_SIZE ∧ g.scullQsetN = QSET_SIZE ∧ 4096 ≤ g.pageSize ∧
        ((g.pageSize * 2 ^ order : Nat) : Int) * QSET_SIZE < 2147483648

/-- Only `scull` has `scull_ioctl`, and only sound settings are ever set with it. -/
def Permitted (type : ScullType) (s : Session) (done : Call × Reply) : Prop :=
  match done.1 with
  | .scullIoctl call =>
      let g := (Store.scullIoctl s.globals call).globals
      type = .basic ∧ Sound g.scullQuantum g.scullQsetN
  | _ => True

/-- Every object is as large as the settings of the device say, and no call that
can come next goes past the end of one. -/
structure Capacious (s : Session) : Prop where
  slots : ∀ node array, slotsAt s.dev.data node = some array →
    (array.slots.length : Int) = s.dev.qset
  blocks : ∀ node slot block, blockIn s.dev.data node slot = some block →
    s.dev.quantum ≤ block.bytes.length
  inside : ∀ call : Call, call.Offered → ∀ e ∈ (call.run s).trace, e.allowed = true
  ends : ∀ call : Call, call.Offered → (call.run s).result.isSome

structure Equipped (type : ScullType) (s : Session) : Prop where
  kind : s.dev.type = type
  globals : Sound s.globals.scullQuantum s.globals.scullQsetN
  dev : Sound s.dev.quantum s.dev.qset
  shaped : Shaped s.dev.quantum.toNat s.dev.qset.toNat s.dev.data
  fits : s.dev.quantum ≤ blockSize s.globals s.dev
  /-- The allocator will do for the settings that a trim hands to the device. -/
  refits : s.globals.scullQuantum ≤ blockSize s.globals (trimmed s.globals s.dev)

section Calls
variable {type : ScullType} {s t : Session}

theorem Sound.le_uint64 {quantum qset : Int} (h : Sound quantum qset) :
    quantum ≤ uint64 quantum := by
  have hquantum := h.divides.2.1
  rw [uint64_eq_toNat (by have := h.1; omega) (by omega)]
  omega

theorem equipped_init {g : Globals} {order : Nat} (h : Loaded g order type) :
    Equipped type (.init g type order) := by
  cases type with
  | basic => exact ⟨rfl, h, h, shaped_nil _ _, h.le_uint64, h.le_uint64⟩
  | c => exact ⟨rfl, h.1, h.1, shaped_nil _ _, h.2.ge, h.2.ge⟩
  | p =>
    obtain ⟨hquantum, hqset, hpage, hitem⟩ := h
    have hpower : 1 ≤ 2 ^ order := Nat.one_le_two_pow
    have hblock : 4096 ≤ g.pageSize * 2 ^ order := by
      calc 4096 ≤ g.pageSize * 1 := by omega
        _ ≤ g.pageSize * 2 ^ order := Nat.mul_le_mul_left _ hpower
    have hsound : Sound g.scullQuantum g.scullQsetN := by
      rw [hquantum, hqset]
      decide
    have hexact : int32 ((g.pageSize * 2 ^ order : Nat) : Int) = (g.pageSize * 2 ^ order : Nat) := by
      unfold QSET_SIZE at hitem
      exact int32_eq_self (by omega) (by omega)
    have hint : int32 (g.pageSize * 2 ^ order) = (g.pageSize * 2 ^ order : Nat) := by
      rw [← hexact]
      push_cast
      rfl
    refine ⟨rfl, hsound, ?_, shaped_nil _ _, ?_, ?_⟩
    · simp only [Session.init, scullInitDev, hint, hqset]
      exact ⟨by omega, by decide, hitem⟩
    · simp only [Session.init, scullInitDev, hint, blockSize]
      exact le_refl _
    · simp only [Session.init, scullInitDev, blockSize, trimmed, hquantum]
      unfold QUANTUM_SIZE
      omega

theorem equipped_transfer (h : Equipped type s) {dev : ScullDev}
    (geometry : dev = { s.dev with data := dev.data, size := dev.size })
    (shaped : Shaped s.dev.quantum.toNat s.dev.qset.toNat dev.data) :
    Equipped type ⟨s.globals, dev⟩ := by
  have hquantum : dev.quantum = s.dev.quantum := by rw [geometry]
  have hqset : dev.qset = s.dev.qset := by rw [geometry]
  have hsize : blockSize s.globals dev = blockSize s.globals s.dev := by rw [geometry]; rfl
  have htrimmed : blockSize s.globals (trimmed s.globals dev) =
      blockSize s.globals (trimmed s.globals s.dev) := by rw [geometry]; rfl
  refine ⟨?_, h.globals, ?_, ?_, ?_, ?_⟩
  · rw [geometry]
    exact h.kind
  · simp only [hquantum, hqset]
    exact h.dev
  · simp only [hquantum, hqset]
    exact shaped
  · simp only [hquantum, hsize]
    exact h.fits
  · simp only [htrimmed]
    exact h.refits

theorem write_equipped (h : Equipped type s) (buff : List Byte) {pos : Int} (hpos : 0 ≤ pos)
    (env : Env) :
    (scullWrite s.globals s.dev buff pos env).Safe (Within s.dev.quantum s.dev.qset) fun t =>
      Equipped type ⟨s.globals, t.dev⟩ := by
  obtain ⟨quantum, qset, hquantum, hqset, hquantumNat, hqsetNat, hsound⟩ := h.dev.toNat
  have hshaped := h.shaped
  have hfits := h.fits
  rw [hquantumNat, hqsetNat] at hshaped
  rw [hquantum] at hfits
  cases hrun : env.interrupted with
  | true =>
    rw [scullWrite_interrupted _ _ _ _ hrun]
    exact .pure h
  | false =>
    rw [hquantum, hqset]
    refine (scullWrite_safe hsound.divides hquantum hqset hshaped (by exact_mod_cast hfits) buff
      hpos hrun).mono ?_
    rintro t ⟨addr, -, hwritten⟩
    apply equipped_transfer h hwritten.geometry
    rw [hquantumNat, hqsetNat]
    exact hwritten.shaped

theorem read_equipped (h : Equipped type s) (count : Nat) {pos : Int} (hpos : 0 ≤ pos)
    (env : Env) :
    (scullRead s.dev count pos env).Safe (Within s.dev.quantum s.dev.qset) fun t =>
      Equipped type ⟨s.globals, t.dev⟩ := by
  obtain ⟨quantum, qset, hquantum, hqset, hquantumNat, hqsetNat, hsound⟩ := h.dev.toNat
  have hshaped := h.shaped
  rw [hquantumNat, hqsetNat] at hshaped
  cases hrun : env.interrupted with
  | true =>
    rw [scullRead_interrupted _ _ _ hrun]
    exact .pure h
  | false =>
    by_cases hend : s.dev.size ≤ pos
    · rw [scullRead_end _ hrun hend]
      exact .pure h
    · rw [hquantum, hqset]
      refine (scullRead_safe hsound.divides hquantum hqset hshaped count hpos (by omega)
        hrun).mono ?_
      rintro t ⟨addr, -, hread⟩
      have hsize : t.dev.size = s.dev.size := by rw [hread.geometry]
      apply equipped_transfer h
      · rw [hsize]
        exact hread.geometry
      · rw [hquantumNat, hqsetNat]
        exact hread.extended.shaped hshaped

theorem trim_equipped (h : Equipped type s) :
    (scullTrim s.globals s.dev).Safe (Within s.dev.quantum s.dev.qset) fun dev =>
      Equipped type ⟨s.globals, dev⟩ := by
  have hqset : ((s.dev.qset.toNat : Nat) : Int) = s.dev.qset := by
    have := h.dev.2.1
    omega
  refine (scullTrim_safe s.globals rfl ?_).mono ?_
  · intro node array harray
    rw [h.shaped.slots node array harray, hqset]
  · rintro dev rfl
    exact ⟨h.kind, h.globals, h.globals, shaped_nil _ _, h.refits, h.refits⟩

theorem ioctl_equipped (h : Equipped .basic s) {call : IoctlCall}
    (hsound : Sound (scullIoctl s.globals call).globals.scullQuantum
      (scullIoctl s.globals call).globals.scullQsetN) :
    Equipped .basic ⟨(scullIoctl s.globals call).globals, s.dev⟩ := by
  refine ⟨h.kind, hsound, h.dev, h.shaped, ?_, ?_⟩
  · simp only [blockSize_scullIoctl]
    exact h.fits
  · have hbasic : (trimmed (scullIoctl s.globals call).globals s.dev).type = .basic := h.kind
    simp only [blockSize, hbasic]
    exact hsound.le_uint64

theorem call_equipped (h : Equipped type s) (call : Call) (hoffered : call.Offered) :
    (call.run s).Safe (Within s.dev.quantum s.dev.qset) fun r =>
      (∀ reply, Permitted type s (call, reply)) → Equipped type r.1 := by
  cases call with
  | scullOpen fFlags =>
    simp only [Call.run, Store.scullOpen]
    split
    · exact .bind (trim_equipped h) fun dev hdev => .pure fun _ => hdev
    · exact .pure fun _ => h
  | scullRead count pos env =>
    exact .bind (read_equipped h count hoffered.1 env) fun t ht => .pure fun _ => ht
  | scullWrite buff pos env =>
    exact .bind (write_equipped h buff hoffered.1 env) fun t ht => .pure fun _ => ht
  | scullIoctl call =>
    refine .pure fun hpermitted => ?_
    obtain ⟨rfl, hsound⟩ := hpermitted ⟨0, 0, []⟩
    exact ioctl_equipped h hsound

theorem equipped_capacious (h : Equipped type s) : Capacious s := by
  refine ⟨?_, ?_, ?_, ?_⟩
  · intro node array harray
    rw [h.shaped.slots node array harray]
    have := h.dev.2.1
    omega
  · intro node slot block hblock
    have := h.shaped.blocks node slot block hblock
    omega
  · intro call hoffered e he
    exact ((call_equipped h call hoffered).events e he).allowed
  · intro call hoffered
    obtain ⟨r, hr, -⟩ := (call_equipped h call hoffered).ends
    exact Option.isSome_iff_exists.mpr ⟨r, hr⟩

/-- At every point of every run of each module, all objects have their capacity. -/
theorem run_capacious {g : Globals} {order : Nat} (loaded : Loaded g order type)
    {labels : List (Call × Reply)}
    (run : Run (While (Permitted type) Step) (.init g type order) labels t) : Capacious t := by
  apply @equipped_capacious type
  refine run.invariant (fun _ => Equipped type) (equipped_init loaded) ?_
  rintro labels s ⟨call, reply⟩ t - h ⟨hpermitted, hoffered, hreturned⟩
  exact (call_equipped h call hoffered).returns _ hreturned fun _ => hpermitted

end Calls

theorem run_capacious_stored : Capacious (holding 7 1) := by
  have loaded : Loaded ⟨4, 2, 64, 4096⟩ 0 .basic := show Sound 4 2 by decide
  have stored : While (Permitted .basic) Step (.init ⟨4, 2, 64, 4096⟩ .basic 0) (storeByte 7)
      (holding 7 1) := ⟨trivial, store_first.2⟩
  exact run_capacious loaded (Run.single stored)

end MyDrivers.Store
