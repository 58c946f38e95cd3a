import MyDrivers.Store.Barren
import MyDrivers.Store.Calls

/-! Which settings break the address arithmetic. `scull_ioctl` stores any `int`
and a trim hands the settings to a device, so a run is in bounds exactly as long
as every trim finds settings that are harmless. -/
namespace MyDrivers.Store
open Lib Lib.Machine

/-- The divisor is not zero and the indices are inside the settings. -/
def Event.Bounded (quantum qset : Int) : Event → Prop
  | .divide divisor => divisor ≠ 0
  | .slot index _ => 0 ≤ index ∧ index < qset
  | .bytes start len _ => 0 ≤ start ∧ start + len ≤ quantum
  | .follow _ => True
  | .alloc _ _ => True
  | .free _ _ => True

theorem Within.bounded {quantum qset : Int} {e : Event} (h : Within quantum qset e) :
    e.Bounded quantum qset := by
  cases e with
  | divide divisor => exact h
  | slot index slots => exact ⟨h.1, h.2.1⟩
  | bytes start len size => exact ⟨h.1, h.2.1⟩
  | follow pointer => trivial
  | alloc addr via => trivial
  | free addr via => trivial

structure TransfersBounded (s : Session) : Prop where
  read : ∀ count pos env, 0 ≤ pos → pos < 9223372036854775808 →
    ∀ e ∈ (scullRead s.dev count pos env).trace, e.Bounded s.dev.quantum s.dev.qset
  write : ∀ buff pos env, 0 ≤ pos → pos < 9223372036854775808 →
    ∀ e ∈ (scullWrite s.globals s.dev buff pos env).trace, e.Bounded s.dev.quantum s.dev.qset

/-- The item size is not zero as an `int`, and no access uses a slot below 0:
either the block size is positive, or no array can be allocated because its
length is negative, or an item is too short to reach a second slot. -/
def Benign (quantum qset : Int) : Prop :=
  int32 (quantum * qset) ≠ 0 ∧
    (0 < quantum ∨ qset < 0 ∨ (int32 (quantum * qset)).natAbs ≤ quantum.natAbs)

instance (quantum qset : Int) : Decidable (Benign quantum qset) :=
  inferInstanceAs (Decidable (_ ∧ _))

theorem Benign.ne_zero {quantum qset : Int} (h : Benign quantum qset) :
    quantum ≠ 0 ∧ qset ≠ 0 := by
  constructor
  · rintro rfl
    exact h.1 (by simp)
  · rintro rfl
    exact h.1 (by simp)

inductive Fitting (dev : ScullDev) : Prop
  | usable (quantum qset : Nat) (quantumEq : dev.quantum = quantum) (qsetEq : dev.qset = qset)
      (divides : Divides quantum qset) (shaped : Shaped quantum qset dev.data)
  | unusable (negative : dev.quantum < 0 ∨ dev.qset < 0) (size : dev.size = 0)
      (barren : Barren dev.qset dev.data)

structure Ready (s : Session) : Prop where
  basic : s.dev.type = .basic
  globals : s.globals.Set
  quantum : Setting s.dev.quantum
  qset : Setting s.dev.qset
  fitting : Benign s.dev.quantum s.dev.qset → Fitting s.dev

theorem fitting_empty {dev : ScullDev} (hquantum : Setting dev.quantum) (hqset : Setting dev.qset)
    (hdata : dev.data = []) (hsize : dev.size = 0) (h : Benign dev.quantum dev.qset) :
    Fitting dev := by
  obtain ⟨hquantumNe, hqsetNe⟩ := h.ne_zero
  by_cases hpositive : 0 < dev.quantum ∧ 0 < dev.qset
  · obtain ⟨quantum, hq⟩ := Int.eq_ofNat_of_zero_le (Int.le_of_lt hpositive.1)
    obtain ⟨qset, hs⟩ := Int.eq_ofNat_of_zero_le (Int.le_of_lt hpositive.2)
    refine .usable quantum qset hq hs ?_ (hdata ▸ shaped_nil _ _)
    rw [← hq, ← hs]
    exact ⟨hpositive.1, hquantum.2, hpositive.2, hqset.2, h.1⟩
  · exact .unusable (by omega) hsize (hdata ▸ barren_nil _)

/-! ## Writes and reads under benign settings -/

theorem address_unusable {quantum qset : Int} (h : Benign quantum qset)
    (hnegative : quantum < 0 ∨ qset < 0) {pos : Int} (hpos : 0 ≤ pos) :
    (address (int32 (qset * quantum)) quantum pos).Safe (Within quantum qset) fun addr =>
      0 ≤ qset → addr.sPos = 0 := by
  obtain ⟨hsize, hreach⟩ := h
  rw [Int.mul_comm qset]
  have hbounds := int32_bounds (quantum * qset)
  have hquantum : quantum ≠ 0 := (Benign.ne_zero ⟨hsize, hreach⟩).1
  generalize int32 (quantum * qset) = size at hsize hreach hbounds ⊢
  unfold address
  refine .bind (touch_safe hsize) fun _ _ => .bind (touch_safe hquantum) fun _ _ => .pure ?_
  intro hqset
  have hlow : 0 ≤ pos.tmod size := Int.tmod_nonneg size hpos
  have hlt : (pos.tmod size).natAbs < size.natAbs := by
    rw [Int.natAbs_tmod]
    exact Nat.mod_lt _ (Int.natAbs_pos.mpr hsize)
  have hrest : int32 (pos.tmod size) = pos.tmod size := int32_eq_self (by omega) (by omega)
  -- the rest is smaller than the block size, which is negative
  rw [hrest, ← Int.neg_neg quantum, Int.tdiv_neg, Int.tdiv_eq_zero_of_lt hlow (by omega)]
  rfl

theorem scullWrite_fitting {g : Globals} {dev : ScullDev} (hbasic : dev.type = .basic)
    (hquantum : Setting dev.quantum) (hqset : Setting dev.qset)
    (h : Benign dev.quantum dev.qset) (hfitting : Fitting dev) (buff : List Byte) {pos : Int}
    (hpos : 0 ≤ pos) (env : Env) :
    (scullWrite g dev buff pos env).Keeps (Within dev.quantum dev.qset) fun t =>
      t.dev.type = .basic ∧ t.dev.quantum = dev.quantum ∧ t.dev.qset = dev.qset ∧
        Fitting t.dev := by
  cases hfitting with
  | usable quantum qset quantumEq qsetEq divides shaped =>
    cases hrun : env.interrupted with
    | true =>
      rw [scullWrite_interrupted g dev buff pos hrun]
      exact .pure ⟨hbasic, rfl, rfl, .usable quantum qset quantumEq qsetEq divides shaped⟩
    | false =>
      have hfits : quantum ≤ blockSize g dev := by
        rw [blockSize, hbasic, quantumEq, uint64_natCast (by have := divides.2.1; omega)]
      rw [quantumEq, qsetEq]
      refine ((scullWrite_safe divides quantumEq qsetEq shaped hfits buff hpos hrun).mono
        ?_).keeps fun _ he => he
      rintro t ⟨addr, -, hwritten⟩
      rw [hwritten.geometry]
      exact ⟨hbasic, quantumEq, qsetEq,
        .usable quantum qset quantumEq qsetEq divides hwritten.shaped⟩
  | unusable negative size barren =>
    have hvia : freedVia dev = .kmalloc := by rw [freedVia, hbasic]
    have hsize : blockSize g dev = uint64 dev.quantum := by rw [blockSize, hbasic]
    have hwrite : (scullWrite g dev buff pos env).Keeps (Within dev.quantum dev.qset)
        (Fruitless dev) := by
      refine scullWrite_barren (fun _ he => he) hqset barren
        ((address_unusable h negative hpos).keeps fun _ he => he) ?_ ?_ buff env
      · intro hrows addr hslot
        have hnonzero := h.ne_zero.2
        rw [hslot hrows]
        exact ⟨le_refl _, by omega, by omega⟩
      · intro hrows hobtain
        have hneg : dev.quantum < 0 := by omega
        rw [hvia, hsize] at hobtain
        exact absurd hobtain (not_obtainable_of_neg (by have := hquantum.1; omega) hneg)
    refine ⟨hwrite.events, hwrite.returns.mono fun t ht => ?_⟩
    have hdata := ht.barren
    rw [ht.geometry]
    exact ⟨hbasic, rfl, rfl, .unusable negative size hdata⟩

theorem scullRead_fitting {dev : ScullDev} (hfitting : Fitting dev) (count : Nat) {pos : Int}
    (hpos : 0 ≤ pos) (env : Env) :
    (scullRead dev count pos env).Keeps (Within dev.quantum dev.qset) fun t => Fitting t.dev := by
  cases hrun : env.interrupted with
  | true =>
    rw [scullRead_interrupted dev count pos hrun]
    exact .pure hfitting
  | false =>
    by_cases hend : dev.size ≤ pos
    · rw [scullRead_end count hrun hend]
      exact .pure hfitting
    · cases hfitting with
      | usable quantum qset quantumEq qsetEq divides shaped =>
        rw [quantumEq, qsetEq]
        refine ((scullRead_safe divides quantumEq qsetEq shaped count hpos (by omega)
          hrun).mono ?_).keeps fun _ he => he
        rintro t ⟨addr, -, hread⟩
        rw [hread.geometry]
        exact .usable quantum qset quantumEq qsetEq divides (hread.extended.shaped shaped)
      | unusable negative size barren => omega

/-! ## The other direction -/

theorem unbounded_of_zero (s : Session) (h : int32 (s.dev.quantum * s.dev.qset) = 0) :
    ¬ TransfersBounded s := by
  intro hbounded
  have hdivide : Event.divide 0 ∈ (scullWrite s.globals s.dev [] 0 .calm).trace := by
    rw [Int.mul_comm] at h
    unfold scullWrite writeSnapshot scullWriteLocked address
    simp only [Env.calm, Bool.false_eq_true, if_false, h]
    exact Traced.mem_trace_bind_left (Traced.mem_trace_bind_left (List.mem_singleton.mpr rfl))
  exact hbounded.write [] 0 .calm (by decide) (by decide) _ hdivide rfl

theorem address_negative {quantum qset : Int} (hquantum : quantum < 0)
    (hsize : quantum.natAbs < (int32 (quantum * qset)).natAbs) :
    (address (int32 (qset * quantum)) quantum (-quantum)).result = some ⟨0, -1, 0⟩ := by
  rw [Int.mul_comm qset]
  have hbounds := int32_bounds (quantum * qset)
  generalize int32 (quantum * qset) = size at hsize hbounds ⊢
  have hdiv : (-quantum).tdiv size = 0 := by
    by_cases hpositive : 0 < size
    · exact Int.tdiv_eq_zero_of_lt (by omega) (by omega)
    · rw [← Int.neg_neg size, Int.tdiv_neg, Int.tdiv_eq_zero_of_lt (by omega) (by omega)]
      rfl
  have hmod : (-quantum).tmod size = -quantum := by
    by_cases hpositive : 0 < size
    · exact Int.tmod_eq_of_lt (by omega) (by omega)
    · rw [← Int.neg_neg size, Int.tmod_neg, Int.tmod_eq_of_lt (by omega) (by omega)]
  have hrest : int32 (-quantum) = -quantum := int32_eq_self (by omega) (by omega)
  unfold address
  rw [hdiv, hmod, hrest, int32_zero, Traced.result_bind, Traced.result_guarded, Option.bind_some,
    Traced.result_bind, Traced.result_guarded, Option.bind_some, Traced.result_pure,
    Int.neg_tdiv, Int.tdiv_self (by omega), Int.neg_tmod, Int.tmod_self]
  · rfl
  · simp [Event.allowed]
    omega
  · simp [Event.allowed]
    omega

theorem unbounded_of_negative (s : Session) (hquantum : s.dev.quantum < 0)
    (hlow : 0 ≤ s.dev.qset) (hqset : Setting s.dev.qset)
    (hsetting : Setting s.dev.quantum)
    (hsize : s.dev.quantum.natAbs < (int32 (s.dev.quantum * s.dev.qset)).natAbs) :
    ¬ TransfersBounded s := by
  intro hbounded
  have haddress := address_negative hquantum hsize
  obtain ⟨dptr, hfollow, hwalk⟩ :=
    (scullFollow_safe 0 0 s.dev.data 0 Env.calm.supply).ends
  obtain ⟨hfound, hsupply⟩ := hwalk.complete (calm_full.enough _) (le_refl _)
  obtain ⟨node, hnode⟩ := Option.ne_none_iff_exists'.mp hfound
  obtain ⟨hitem, hlength⟩ := hwalk.reached node hnode
  have hinside : node < dptr.head.length := by omega
  obtain ⟨⟨array, head, rest⟩, hensure, hslots⟩ :=
    (ensureSlots_safe 0 0 s.dev.qset hinside dptr.supply).ends
  have hobtain : Obtainable .kmalloc (uint64 (8 * s.dev.qset)) := by
    intro _
    have := hqset.2
    rw [uint64_eq_toNat (by omega) (by omega)]
    omega
  have henough : dptr.supply.Enough (absent (slotsAt dptr.head node)) := by
    rw [hsupply]
    exact fun k _ => rfl
  obtain ⟨array, rfl⟩ := Option.isSome_iff_exists.mp (hslots.ready.mpr ⟨.inr hobtain, henough⟩)
  have hslot : Event.slot (-1) array.slots.length ∈
      (scullWrite s.globals s.dev [] (-s.dev.quantum) .calm).trace := by
    unfold scullWrite writeSnapshot scullWriteLocked
    rw [show Env.calm.interrupted = false from rfl, if_neg Bool.false_ne_true]
    refine Traced.mem_trace_bind haddress (Traced.mem_trace_bind hfollow ?_)
    rw [hnode]
    exact Traced.mem_trace_bind hensure
      (Traced.mem_trace_bind_left (List.mem_singleton.mpr rfl))
  have hcontra := hbounded.write [] (-s.dev.quantum) .calm (by omega)
    (by have := hsetting.1; omega) _ hslot
  have := hcontra.1
  omega

/-! ## Runs -/

theorem Ready.bounded_iff {s : Session} (h : Ready s) :
    TransfersBounded s ↔ Benign s.dev.quantum s.dev.qset := by
  constructor
  · intro hbounded
    by_contra hharmful
    by_cases hzero : int32 (s.dev.quantum * s.dev.qset) = 0
    · exact unbounded_of_zero s hzero hbounded
    · have hnonzero : s.dev.quantum ≠ 0 := by
        intro hquantum
        rw [hquantum, Int.zero_mul, int32_zero] at hzero
        exact hzero rfl
      have hreach : ¬ (0 < s.dev.quantum ∨ s.dev.qset < 0 ∨
          (int32 (s.dev.quantum * s.dev.qset)).natAbs ≤ s.dev.quantum.natAbs) :=
        fun hreach => hharmful ⟨hzero, hreach⟩
      exact unbounded_of_negative s (by omega) (by omega) h.qset h.quantum (by omega) hbounded
  · intro hbenign
    have hfitting := h.fitting hbenign
    refine ⟨fun count pos env hpos _ e he => ?_, fun buff pos env hpos _ e he => ?_⟩
    · exact ((scullRead_fitting hfitting count hpos env).events e he).bounded
    · exact ((scullWrite_fitting h.basic h.quantum h.qset hbenign hfitting buff hpos
        env).events e he).bounded

def Globals.default (cacheSize pageSize : Nat) : Globals :=
  ⟨QUANTUM_SIZE, QSET_SIZE, cacheSize, pageSize⟩

theorem ready_init (cacheSize pageSize : Nat) :
    Ready (.init (.default cacheSize pageSize) .basic 0) where
  basic := rfl
  globals := setting_default
  quantum := setting_default.1
  qset := setting_default.2
  fitting := fitting_empty setting_default.1 setting_default.2 rfl rfl

theorem ready_step {s t : Session} {done : Call × Reply} (h : Ready s) (hstep : Step s done t) :
    Ready t := by
  have hoffered := hstep.1
  cases step_cases hstep with
  | trim fFlags reply flags =>
    exact ⟨h.basic, h.globals, h.globals.1, h.globals.2,
      fitting_empty h.globals.1 h.globals.2 rfl rfl⟩
  | enter fFlags reply flags => exact h
  | ioctl call reply =>
    exact ⟨h.basic, scullIoctl_set h.globals call, h.quantum, h.qset, h.fitting⟩
  | read count pos env transfer returned =>
    have hgeometry := (scullRead_effect _ _ _ _ transfer returned).1
    refine ⟨?_, h.globals, ?_, ?_, fun hbenign => ?_⟩
    · rw [hgeometry]
      exact h.basic
    · rw [hgeometry]
      exact h.quantum
    · rw [hgeometry]
      exact h.qset
    · rw [hgeometry] at hbenign
      exact (scullRead_fitting (h.fitting hbenign) count hoffered.1 env).returns _ returned
  | write buff pos env transfer returned =>
    have hgeometry := (scullWrite_effect _ _ _ _ _ transfer returned).1
    refine ⟨?_, h.globals, ?_, ?_, fun hbenign => ?_⟩
    · rw [hgeometry]
      exact h.basic
    · rw [hgeometry]
      exact h.quantum
    · rw [hgeometry]
      exact h.qset
    · rw [hgeometry] at hbenign
      exact ((scullWrite_fitting h.basic h.quantum h.qset hbenign (h.fitting hbenign) buff
        hoffered.1 env).returns _ returned).2.2.2

def TrimsBenign (s : Session) (done : Call × Reply) : Prop :=
  done.1.Trims → Benign s.globals.scullQuantum s.globals.scullQsetN

theorem step_bounded_iff {s t : Session} {done : Call × Reply} (h : Ready s)
    (hbounded : TransfersBounded s) (hstep : Step s done t) :
    TransfersBounded t ↔ TrimsBenign s done := by
  rw [(ready_step h hstep).bounded_iff]
  have hbenign := h.bounded_iff.mp hbounded
  cases step_cases hstep with
  | trim fFlags reply flags => exact ⟨fun h _ => h, fun h => h flags⟩
  | enter fFlags reply flags => exact ⟨fun _ htrims => absurd htrims flags, fun _ => hbenign⟩
  | ioctl call reply => exact ⟨fun _ htrims => htrims.elim, fun _ => hbenign⟩
  | read count pos env transfer returned =>
    rw [(scullRead_effect _ _ _ _ transfer returned).1]
    exact ⟨fun _ htrims => htrims.elim, fun _ => hbenign⟩
  | write buff pos env transfer returned =>
    rw [(scullWrite_effect _ _ _ _ _ transfer returned).1]
    exact ⟨fun _ htrims => htrims.elim, fun _ => hbenign⟩

/-- In a run of the module `scull` every read and write that can come next stays
in bounds, at every point, if and only if every trim of the run finds benign
settings. -/
theorem transfers_bounded_iff (cacheSize pageSize : Nat) {labels : List (Call × Reply)}
    {t : Session} (run : Run Step (.init (.default cacheSize pageSize) .basic 0) labels t) :
    (∀ pre s, pre <+: labels →
        Run Step (.init (.default cacheSize pageSize) .basic 0) pre s → TransfersBounded s) ↔
      Run (While TrimsBenign Step) (.init (.default cacheSize pageSize) .basic 0) labels t := by
  have hready {labels : List (Call × Reply)} {s : Session}
      (run : Run Step (.init (.default cacheSize pageSize) .basic 0) labels s) : Ready s :=
    run.invariant (fun _ s => Ready s) (ready_init cacheSize pageSize)
      fun _ _ _ _ _ h hstep => ready_step h hstep
  have hinitial : TransfersBounded (.init (.default cacheSize pageSize) .basic 0) := by
    rw [(ready_init cacheSize pageSize).bounded_iff]
    show Benign QUANTUM_SIZE QSET_SIZE
    decide +kernel
  exact Run.always_iff step_deterministic hinitial
    (fun labels s done t earlier hbounded hstep =>
      step_bounded_iff (hready earlier) hbounded hstep) run

def openForWriting : Call × Reply := (.scullOpen O_WRONLY, ⟨0, 0, []⟩)

def tellQuantum (arg : Nat) : Call × Reply :=
  (.scullIoctl ⟨SCULL_IOCTQUANTUM, arg, true, true, none, true⟩, ⟨0, 0, []⟩)

instance (s : Session) (done : Call × Reply) : Decidable (TrimsBenign s done) :=
  inferInstanceAs (Decidable (done.1.Trims → Benign s.globals.scullQuantum s.globals.scullQsetN))

def tellQset (arg : Nat) : Call × Reply :=
  (.scullIoctl ⟨SCULL_IOCTQSET, arg, true, true, none, true⟩, ⟨0, 0, []⟩)

/-- A device is trimmed, filled, trimmed to blocks of another size and filled again. -/
def retrimmedDefault : List (Call × Reply) :=
  [tellQuantum 4, tellQset 2, openForWriting, (.scullWrite [65] 0 .calm, ⟨1, 1, [65]⟩),
    tellQuantum 6, (.scullRead 4 0 .calm, ⟨1, 1, [65]⟩), openForWriting,
    (.scullWrite [66, 67] 5 .calm, ⟨1, 6, [66]⟩)]

theorem transfers_bounded_default : ∃ s,
    Run Step (.init (.default 1024 4096) .basic 0) retrimmedDefault s ∧ s.dev.quantum = 6 ∧
      TransfersBounded s := by
  have possible : ((retrimmedDefault.foldlM (fun s done =>
      if TrimsBenign s done then Session.next s done else none)
        (.init (.default 1024 4096) .basic 0)).any fun s => s.dev.quantum = 6) = true := by
    decide +kernel
  obtain ⟨s, hs, hnext⟩ := Run.of_any possible
  have run : Run (While TrimsBenign Step) (.init (.default 1024 4096) .basic 0) retrimmedDefault s :=
    hnext.checked.mono fun _ _ _ h => ⟨h.1, step_next h.2⟩
  exact ⟨s, run.forget, of_decide_eq_true hs,
    (transfers_bounded_iff 1024 4096 run.forget).mpr run _ _ (List.prefix_refl _) run.forget⟩

theorem zero_quantum_divides :
    ∃ t, Run Step (.init (.default 1024 4096) .basic 0) [tellQuantum 0, openForWriting] t ∧
      .divide 0 ∈ (scullWrite t.globals t.dev [65] 0 .calm).trace := by
  have tell : Step (.init (.default 1024 4096) .basic 0) (tellQuantum 0)
      ⟨⟨0, QSET_SIZE, 1024, 4096⟩, scullInitDev (.default 1024 4096) .basic 0⟩ :=
    ⟨trivial, by decide +kernel⟩
  have trim : Step ⟨⟨0, QSET_SIZE, 1024, 4096⟩, scullInitDev (.default 1024 4096) .basic 0⟩
      openForWriting ⟨⟨0, QSET_SIZE, 1024, 4096⟩, [], 0, QSET_SIZE, 0, 0, .basic⟩ :=
    ⟨trivial, by decide +kernel⟩
  exact ⟨_, (Run.single tell).snoc trim, by decide +kernel⟩

end MyDrivers.Store
