import MyDrivers.Lib.Ring
import MyDrivers.Store.Barren
import MyDrivers.Store.Size

/-! When two positions share a byte. The item of a position is its quotient by
the item size cut to an `int`: quotients from `2 ^ 32` on come back as small
items, and a write there lands on the bytes of another position. -/
namespace MyDrivers.Store
open Lib Lib.Machine

/-! ## What a run keeps -/

structure Stocked (g : Globals) (dev : ScullDev) : Prop where
  shaped : Shaped dev.quantum.toNat dev.qset.toNat dev.data
  barren : (blockSize g dev : Int) < dev.quantum → Barren dev.qset dev.data

theorem Barren.shaped_any {quantum : Nat} {qset : Int} {head : List ScullQset}
    (h : Barren qset head) : Shaped quantum qset.toNat head := by
  refine ⟨h.shaped.slots, fun node slot block hblock => ?_⟩
  rw [h.blocks] at hblock
  cases hblock

/-- On a sound device whose blocks are smaller than the quantum no write succeeds. -/
theorem scullWrite_small {g : Globals} {dev : ScullDev} {quantum qset : Nat}
    (hquantum : dev.quantum = quantum) (hqset : dev.qset = qset) (hsound : Sound quantum qset)
    (hsmall : (blockSize g dev : Int) < dev.quantum) (hbarren : Barren dev.qset dev.data)
    (buff : List Byte) {pos : Int} (hpos : 0 ≤ pos) (env : Env) :
    (scullWrite g dev buff pos env).Returns (Fruitless dev) := by
  have hdivides := hsound.divides
  have haddress := address_located quantum qset hdivides hpos
  rw [Int.mul_comm, ← hquantum, ← hqset] at haddress
  have hsetting : Setting dev.qset := by
    have := hdivides.2.2
    rw [hqset]
    exact ⟨by omega, this.2.1⟩
  have hanything : ∀ e, Within 0 0 e → True := fun _ _ => trivial
  refine (scullWrite_barren hanything hsetting hbarren (haddress.keeps fun _ _ => trivial)
    (fun _ _ _ => trivial) (fun _ _ => ⟨?_, trivial⟩) buff env).returns
  have hwidth : uint64 dev.quantum = quantum := by
    rw [hquantum, uint64_natCast (by have := hdivides.2.1; omega)]
  omega

theorem stocked_write {g : Globals} {dev : ScullDev} (hsound : Sound dev.quantum dev.qset)
    (hstocked : Stocked g dev) (buff : List Byte) {pos : Int} (hpos : 0 ≤ pos) (env : Env) :
    (scullWrite g dev buff pos env).Returns (fun t => Stocked g t.dev) := by
  obtain ⟨quantum, qset, hquantum, hqset, -, -, hsound⟩ := hsound.toNat
  by_cases hsmall : (blockSize g dev : Int) < dev.quantum
  · refine (scullWrite_small hquantum hqset hsound hsmall (hstocked.barren hsmall) buff hpos
      env).mono fun t ht => ?_
    have hbarren := ht.barren
    rw [ht.geometry]
    exact ⟨hbarren.shaped_any, fun _ => hbarren⟩
  · cases hrun : env.interrupted with
    | true =>
      rw [scullWrite_interrupted g dev buff pos hrun]
      exact .pure hstocked
    | false =>
      have hshaped : Shaped quantum qset dev.data := by
        simpa [hquantum, hqset] using hstocked.shaped
      refine (scullWrite_safe hsound.divides hquantum hqset hshaped (by omega) buff hpos
        hrun).returns.mono ?_
      rintro t ⟨addr, -, hwritten⟩
      have hshaped' := hwritten.shaped
      rw [hwritten.geometry]
      refine ⟨by simpa [hquantum, hqset] using hshaped', fun h => absurd h hsmall⟩

theorem stocked_reachable {g : Globals} {type : ScullType} {order : Nat}
    {labels : List (Call × Reply)} {s : Session} (run : Run Step (.init g type order) labels s) :
    Sound s.dev.quantum s.dev.qset → Stocked s.globals s.dev := by
  refine run.invariant
    (fun _ s => Sound s.dev.quantum s.dev.qset → Stocked s.globals s.dev)
    (fun _ => ⟨shaped_nil _ _, fun _ => barren_nil _⟩) ?_
  intro labels s done t _ hstocked hstep hsound
  have hoffered := hstep.1
  cases step_cases hstep with
  | trim => exact ⟨shaped_nil _ _, fun _ => barren_nil _⟩
  | enter => exact hstocked hsound
  | ioctl call reply =>
    have hsame := hstocked hsound
    exact ⟨hsame.shaped, fun h => hsame.barren (by rwa [blockSize_scullIoctl] at h)⟩
  | read count pos env transfer returned =>
    obtain ⟨hgeometry, hextended⟩ := scullRead_effect _ _ _ _ transfer returned
    simp only at hsound ⊢
    rw [hgeometry] at hsound ⊢
    have hbefore := hstocked hsound
    exact ⟨hextended.shaped hbefore.shaped, fun h => hextended.barren (hbefore.barren h)⟩
  | write buff pos env transfer returned =>
    have hgeometry := (scullWrite_effect _ _ _ _ _ transfer returned).1
    rw [hgeometry] at hsound
    have hbefore : Sound s.dev.quantum s.dev.qset := hsound
    exact stocked_write hbefore (hstocked hbefore) buff hoffered.1 env transfer returned

/-! ## The bytes a write reaches -/

/-- An item of a position that comes back from `int` as itself or as a negative. -/
def ItemFaithful (item : Nat) : Prop := item < 4294967296 ∨ 2147483648 ≤ item % 4294967296

theorem int32_item_cases (item : Nat) :
    (int32 item = item ∧ item < 2147483648) ∨ int32 item < 0 ∨
      (4294967296 ≤ item ∧ int32 item = (item % 4294967296 : Nat) ∧
        item % 4294967296 < 2147483648) := by
  unfold int32
  omega

theorem itemFaithful_iff (item : Nat) :
    ItemFaithful item ↔ (int32 item = item ∧ item < 2147483648) ∨ int32 item < 0 := by
  unfold ItemFaithful int32
  omega

theorem position_of_split {width rows x p : Nat} (hitem : x / (width * rows) = p / (width * rows))
    (hrow : x % (width * rows) / width = p % (width * rows) / width) :
    x + p % width = p + x % width := by
  have hx := join_split width rows x
  have hp := join_split width rows p
  rw [hitem, hrow] at hx
  omega

theorem located_sound {quantum qset : Nat} (h : Sound quantum qset) {p : Nat} {addr : Address}
    (hlocated : Located quantum qset p addr) :
    addr = ⟨int32 (p / (quantum * qset) : Nat), (p % (quantum * qset) / quantum : Nat),
      (p % quantum : Nat)⟩ := by
  have hresult := hlocated.2
  rw [address_sound h] at hresult
  exact (Option.some.inj hresult).symm

theorem byteAt_eq {dev : ScullDev} {quantum qset : Nat} (hquantum : dev.quantum = quantum)
    (hqset : dev.qset = qset) (x : Nat) :
    byteAt dev x = cell dev.data (x / (quantum * qset)) (x % (quantum * qset) / quantum)
      (x % quantum) := by
  simp [byteAt, hquantum, hqset]

theorem landed {quantum qset : Nat} (hquantum : 0 < quantum) (hqset : 0 < qset) (p item k : Nat)
    (hroom : p % quantum + k < quantum) :
    (item * (quantum * qset) + p % (quantum * qset) + k) / (quantum * qset) = item ∧
      (item * (quantum * qset) + p % (quantum * qset) + k) % (quantum * qset) / quantum =
        p % (quantum * qset) / quantum ∧
      (item * (quantum * qset) + p % (quantum * qset) + k) % quantum = p % quantum + k := by
  set start := item * (quantum * qset) + p % (quantum * qset) with hstart
  have hitemsize : 0 < quantum * qset := Nat.mul_pos hquantum hqset
  have hitem : start / (quantum * qset) = item := by
    rw [hstart, Nat.mul_comm, Nat.mul_add_div hitemsize, Nat.mod_div_self, Nat.add_zero]
  have hrest : start % (quantum * qset) = p % (quantum * qset) := by
    rw [hstart, Nat.mul_comm, Nat.mul_add_mod, Nat.mod_mod]
  have hcolumn : start % quantum = p % quantum := by
    rw [← mod_mod_width quantum qset start, hrest, mod_mod_width]
  obtain ⟨hsameItem, hsameRow, hnewColumn⟩ :=
    split_add (x := start) (k := k) hquantum hqset (by omega)
  rw [hsameItem, hsameRow, hnewColumn, hitem, hrest, hcolumn]
  exact ⟨rfl, rfl, rfl⟩

theorem landed_offset {quantum qset : Nat} (hquantum : 0 < quantum) (hqset : 0 < qset)
    {p item x : Nat}
    (hitem : x / (quantum * qset) = item)
    (hrow : x % (quantum * qset) / quantum = p % (quantum * qset) / quantum) :
    x + p % quantum = item * (quantum * qset) + p % (quantum * qset) + x % quantum := by
  obtain ⟨hstartItem, hstartRow, hstartColumn⟩ := landed hquantum hqset p item 0
    (Nat.mod_lt _ hquantum)
  have hdistance := position_of_split (hitem.trans hstartItem.symm) (hrow.trans hstartRow.symm)
  rw [hstartColumn] at hdistance
  exact hdistance

theorem byteAt_pasted {quantum qset : Nat} (hsound : Sound quantum qset) {dev : ScullDev}
    (hquantum : dev.quantum = quantum) (hqset : dev.qset = qset) {buff : List Byte} {p : Nat}
    {env : Env} {t : Transfer} {addr : Address} (hlocated : Located quantum qset p addr)
    (hwritten : Written quantum quantum qset dev buff p env addr t) {item : Nat}
    (hitem : int32 (p / (quantum * qset) : Nat) = item)
    (hroom : p % quantum + t.bytes.length ≤ quantum) (x : Nat) :
    byteAt t.dev x =
      Ring.paste (byteAt dev) (item * (quantum * qset) + p % (quantum * qset)) t.bytes x := by
  have hquantumPos := hsound.quantum_pos
  have hqsetPos := hsound.qset_pos
  have hdevQuantum : t.dev.quantum = quantum := by rw [hwritten.geometry]; exact hquantum
  have hdevQset : t.dev.qset = qset := by rw [hwritten.geometry]; exact hqset
  rw [byteAt_eq hdevQuantum hdevQset, hwritten.stored.cells _ _ _ (Nat.mod_lt _ hquantumPos),
    located_sound hsound hlocated]
  simp only [hitem, Int.toNat_natCast, Int.natCast_inj]
  by_cases hbefore : x < item * (quantum * qset) + p % (quantum * qset)
  · rw [Ring.paste_of_lt hbefore, if_neg, byteAt_eq hquantum hqset]
    rintro ⟨⟨hx, hxRow⟩, hlow, -⟩
    have hoffset := landed_offset hquantumPos hqsetPos hx hxRow
    omega
  · obtain ⟨k, rfl⟩ := Nat.exists_eq_add_of_le (Nat.le_of_not_lt hbefore)
    by_cases hk : k < t.bytes.length
    · obtain ⟨hj, hjRow, hjColumn⟩ := landed hquantumPos hqsetPos p item k (by omega)
      rw [Ring.paste_at hk, hj, hjRow, hjColumn, if_pos ⟨⟨rfl, rfl⟩, by omega, by omega⟩,
        Nat.add_sub_cancel_left]
      rw [List.getD_eq_getElem?_getD, List.getElem?_eq_getElem hk]
      rfl
    · rw [Ring.paste_of_le (by omega), if_neg, byteAt_eq hquantum hqset]
      rintro ⟨⟨hx, hxRow⟩, hlow, hhigh⟩
      have hoffset := landed_offset hquantumPos hqsetPos hx hxRow
      omega

theorem write_confined {quantum qset : Nat} (hsound : Sound quantum qset) {dev : ScullDev}
    (hquantum : dev.quantum = quantum) (hqset : dev.qset = qset) {buff : List Byte} {p : Nat}
    {env : Env} {t : Transfer} {addr : Address} (hlocated : Located quantum qset p addr)
    (hwritten : Written quantum quantum qset dev buff p env addr t)
    (hfaithful : ItemFaithful (p / (quantum * qset))) (hret : 0 < t.ret) (x : Nat)
    (hchanged : byteAt t.dev x ≠ byteAt dev x) : p ≤ x ∧ x < p + t.ret := by
  have haddr := located_sound hsound hlocated
  cases hwritten.outcome with
  | noMemory ret =>
    rw [ret] at hret
    exact absurd hret (by decide)
  | fault ret =>
    rw [ret] at hret
    exact absurd hret (by decide)
  | done count hcount item ret bytes =>
    rw [haddr] at item hcount
    have hexact : int32 (p / (quantum * qset) : Nat) = (p / (quantum * qset) : Nat) := by
      rcases (itemFaithful_iff _).mp hfaithful with ⟨hself, -⟩ | hneg
      · exact hself
      · exact absurd item (Int.not_le.mpr hneg)
    have hcolumn := Nat.mod_lt p hsound.quantum_pos
    have hlength : t.bytes.length = count := by
      rw [bytes, List.length_take, hcount]
      omega
    have hpasted := byteAt_pasted hsound hquantum hqset hlocated hwritten hexact
      (by rw [hlength, hcount, Int.toNat_natCast]; omega) x
    rw [Nat.div_add_mod'] at hpasted
    rw [ret, ← hlength]
    constructor
    · by_contra hbelow
      exact hchanged (hpasted.trans (Ring.paste_of_lt (Nat.lt_of_not_le hbelow)))
    · by_contra habove
      exact hchanged (hpasted.trans (Ring.paste_of_le (by omega)))

theorem byte_add_one_ne (b : Byte) : b + 1 ≠ b := by
  intro h
  have hvalue := congrArg UInt8.toNat h
  rw [UInt8.toNat_add] at hvalue
  have hone : (1 : UInt8).toNat = 1 := rfl
  have := b.toNat_lt
  omega

theorem clamped_located {dev : ScullDev} {quantum qset : Nat} (hsound : Sound quantum qset)
    (hquantum : dev.quantum = quantum) {p : Nat} {addr : Address}
    (hlocated : Located quantum qset p addr) (buff : List Byte) :
    clamped dev addr buff = min buff.length (quantum - addr.qPos.toNat) := by
  obtain ⟨-, -, hqlow, hqhigh⟩ := hlocated.1
  rw [clamped, hquantum, uint64_room hqlow hqhigh hsound.divides.2.1]

theorem write_completes {g : Globals} {dev : ScullDev} {quantum qset : Nat}
    (hsound : Sound quantum qset) (hquantum : dev.quantum = quantum) (hqset : dev.qset = qset)
    {p : Nat} {addr : Address} (hlocated : Located quantum qset p addr) (hitem : 0 ≤ addr.item)
    {buff : List Byte} {env : Env} (hrun : env.interrupted = false) (hfull : env.supply.Full)
    (hreadable : clamped dev addr buff ≤ env.accessible) :
    Completes g dev buff p env addr := by
  have hdivides := hsound.divides
  refine ⟨hrun, ?_, hitem, .inr ?_, .inr ?_, hfull.enough _, hreadable⟩
  · rw [hquantum, hqset, Int.mul_comm]
    exact hlocated.2
  · intro _
    have := hdivides.2.2.2.1
    rw [hqset, uint64_eq_toNat (by omega) (by omega)]
    omega
  · intro hvia
    unfold freedVia at hvia
    unfold blockSize
    cases htype : dev.type with
    | basic =>
      have := hdivides.2.1
      simp only
      rw [hquantum, uint64_natCast (by omega)]
      omega
    | c => simp [htype] at hvia
    | p => simp [htype] at hvia

/-- Beyond the faithful items one byte lands on an earlier position. -/
theorem write_aliases {g : Globals} {dev : ScullDev} {quantum qset : Nat}
    (hsound : Sound quantum qset) (hquantum : dev.quantum = quantum) (hqset : dev.qset = qset)
    (hshaped : Shaped quantum qset dev.data) (hfits : quantum ≤ blockSize g dev) {p : Nat}
    (hwrap : ¬ ItemFaithful (p / (quantum * qset))) :
    ∃ byte t x, (scullWrite g dev [byte] p .calm).result = some t ∧ 0 < t.ret ∧ x < p ∧
      byteAt t.dev x ≠ byteAt dev x := by
  have hitems := hsound.item_pos
  have hquantumPos := hsound.quantum_pos
  have hitemPos : 0 < quantum * qset := by exact_mod_cast hitems
  obtain ⟨hlarge, hitem, hsmall⟩ : 4294967296 ≤ p / (quantum * qset) ∧
      int32 (p / (quantum * qset) : Nat) = (p / (quantum * qset) % 4294967296 : Nat) ∧
        p / (quantum * qset) % 4294967296 < 2147483648 := by
    rcases int32_item_cases (p / (quantum * qset)) with h | h | h
    · exact absurd ((itemFaithful_iff _).mpr (.inl h)) hwrap
    · exact absurd ((itemFaithful_iff _).mpr (.inr h)) hwrap
    · exact h
  set wrapped := p / (quantum * qset) % 4294967296 with hwrapped
  -- the position the byte really goes to
  have hx : wrapped * (quantum * qset) + p % (quantum * qset) < p := by
    have hless : wrapped * (quantum * qset) < p / (quantum * qset) * (quantum * qset) :=
      Nat.mul_lt_mul_of_pos_right (by omega) hitemPos
    have := Nat.div_add_mod' p (quantum * qset)
    omega
  set x := wrapped * (quantum * qset) + p % (quantum * qset) with hxdef
  obtain ⟨t, hresult, addr, hlocated, hwritten⟩ := (scullWrite_safe hsound.divides hquantum hqset
    hshaped hfits [byteAt dev x + 1] (Int.natCast_nonneg p) (show Env.calm.interrupted = false
    from rfl)).ends
  have haddr := located_sound hsound hlocated
  have hitemLow : 0 ≤ addr.item := by
    rw [haddr]
    dsimp only
    rw [hitem]
    exact Int.natCast_nonneg _
  have hone : clamped dev addr [byteAt dev x + 1] = 1 := by
    obtain ⟨-, -, hqlow, hqhigh⟩ := hlocated.1
    rw [clamped_located hsound hquantum hlocated, List.length_singleton]
    omega
  have hcompletes : Completes g dev [byteAt dev x + 1] p .calm addr :=
    write_completes hsound hquantum hqset hlocated hitemLow rfl calm_full (by rw [hone]; decide)
  have hret : t.ret = 1 ∧ t.bytes = [byteAt dev x + 1] := by
    have hret := (hcompletes.effect (scullWrite_effect g dev _ _ _ t hresult).2).1
    have hunit : int64 ((1 : Nat) : Int) = 1 := int64_eq_self (by omega) (by omega)
    rw [hone, hunit] at hret
    obtain ⟨count, hcount, hbytes, -⟩ := hwritten.done (by omega)
    rw [clamped_located hsound hquantum hlocated, ← hcount] at hone
    exact ⟨hret, by rw [hbytes, hone]; rfl⟩
  refine ⟨_, t, x, hresult, by rw [hret.1]; decide, hx, ?_⟩
  have hpasted := byteAt_pasted hsound hquantum hqset hlocated hwritten hitem
    (by rw [hret.2]; exact Nat.mod_lt p hquantumPos) (x + 0)
  rw [← hxdef, Ring.paste_at (by rw [hret.2]; exact Nat.one_pos)] at hpasted
  simp only [hret.2, Nat.add_zero, List.getElem_cons_zero] at hpasted
  rw [hpasted]
  exact byte_add_one_ne _

/-- For every reachable device with sound settings and every position, a
successful write changes only the bytes it reports, if and only if the item of
the position is below `2 ^ 32` or wraps to a negative one. (On a device whose
blocks are smaller than its quantum no write succeeds.) -/
theorem write_confined_iff (g : Globals) (type : ScullType) (order : Nat)
    {labels : List (Call × Reply)} {s : Session} (run : Run Step (.init g type order) labels s)
    (hsound : Sound s.dev.quantum s.dev.qset) (p : Nat) :
    (∀ buff env t, (scullWrite s.globals s.dev buff p env).result = some t → 0 < t.ret →
        ∀ x, byteAt t.dev x ≠ byteAt s.dev x → p ≤ x ∧ x < p + t.ret) ↔
      (s.dev.quantum ≤ blockSize s.globals s.dev →
        ItemFaithful (p / (s.dev.quantum.toNat * s.dev.qset.toNat))) := by
  have hstocked := stocked_reachable run hsound
  obtain ⟨quantum, qset, hquantum, hqset, hquantumNat, hqsetNat, hsound⟩ := hsound.toNat
  have hshaped := hstocked.shaped
  rw [hquantumNat, hqsetNat] at hshaped
  rw [hquantumNat, hqsetNat, hquantum]
  have hpos : (0 : Int) ≤ p := Int.natCast_nonneg p
  constructor
  · intro hconfined hfits
    by_contra hwrap
    have hroom : quantum ≤ blockSize s.globals s.dev := by exact_mod_cast hfits
    obtain ⟨byte, t, x, hresult, hret, hx, hchanged⟩ := write_aliases hsound hquantum hqset
      hshaped hroom hwrap
    have := (hconfined [byte] .calm t hresult hret x hchanged).1
    omega
  · intro hfaithful buff env t hresult hret x hchanged
    by_cases hsmall : (blockSize s.globals s.dev : Int) < s.dev.quantum
    · have hfruitless := scullWrite_small hquantum hqset hsound hsmall (hstocked.barren hsmall)
        buff hpos env t hresult
      have := hfruitless.ret
      omega
    · have hfits : quantum ≤ blockSize s.globals s.dev := by omega
      cases hrun : env.interrupted with
      | true =>
        rw [scullWrite_interrupted _ _ _ _ hrun] at hresult
        cases hresult
        have hnegative : ¬ 0 < -ERESTARTSYS := by decide
        exact absurd hret hnegative
      | false =>
        obtain ⟨addr, hlocated, hwritten⟩ := (scullWrite_safe hsound.divides hquantum hqset
          hshaped hfits buff hpos hrun).returns t hresult
        exact write_confined hsound hquantum hqset hlocated hwritten
          (hfaithful (by exact_mod_cast hfits)) hret x hchanged

theorem write_confined_filled :
    Run Step (.init ⟨4, 2, 64, 4096⟩ .basic 0) twoHandles (holding 9 1) ∧
    ∀ buff env t, (scullWrite (holding 9 1).globals (holding 9 1).dev buff (5 : Nat) env).result =
        some t → 0 < t.ret → ∀ x, byteAt t.dev x ≠ byteAt (holding 9 1).dev x →
      5 ≤ x ∧ (x : Int) < (5 : Nat) + t.ret := by
  have run : Run Step (.init ⟨4, 2, 64, 4096⟩ .basic 0) twoHandles (holding 9 1) :=
    twoHandles_run.forget.forget
  exact ⟨run, (write_confined_iff ⟨4, 2, 64, 4096⟩ .basic 0 run (by decide) 5).mpr
    fun _ => .inl (by decide)⟩

def finest : Session := .init ⟨1, 1, 64, 4096⟩ .basic 0

theorem write_aliased_finest :
    ∃ t, (scullWrite finest.globals finest.dev [7] 4294967296 .calm).result = some t ∧
      t.ret = 1 ∧ byteAt finest.dev 0 = 0 ∧ byteAt t.dev 0 = 7 :=
  ⟨⟨1, ⟨[⟨0, some ⟨1, [some ⟨2, .kmalloc, [7]⟩]⟩⟩], 1, 1, 1, 0, .basic⟩, 4294967297, [7]⟩,
    by decide +kernel, rfl, by decide, by decide⟩

end MyDrivers.Store
