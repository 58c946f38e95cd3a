import MyDrivers.Store.Bounds

/-! Whether a trim gives a device back as the `scull_init` of its module sets it up.
`scull_trim` is shared and takes the quantum from the globals; the `scull_init` of
`scullp` takes it from the size of the blocks that its allocator makes. -/
namespace MyDrivers.Store
open Lib Lib.Machine

variable {g : Globals} {type : ScullType} {order : Nat} {s t : Session} {done : Call × Reply}

structure Made (g : Globals) (type : ScullType) (order : Nat) (s : Session) : Prop where
  kind : s.dev.type = type
  pages : s.dev.order = (scullInitDev g type order).order
  page : s.globals.pageSize = g.pageSize

theorem Made.init (g : Globals) (type : ScullType) (order : Nat) :
    Made g type order (.init g type order) :=
  ⟨rfl, rfl, rfl⟩

theorem step_settled (hstep : Step s done t) (htrims : ¬ done.1.Trims) :
    t.dev = { s.dev with data := t.dev.data, size := t.dev.size } := by
  cases step_cases hstep with
  | trim fFlags reply flags => exact absurd flags htrims
  | enter => rfl
  | read count pos env transfer returned =>
    exact congrArg (fun dev => { dev with size := transfer.dev.size })
      (scullRead_effect _ _ _ _ transfer returned).1
  | write buff pos env transfer returned =>
    exact (scullWrite_effect _ _ _ _ _ transfer returned).1
  | ioctl => rfl

theorem step_trims (hstep : Step s done t) (htrims : done.1.Trims) :
    t = ⟨s.globals, trimmed s.globals s.dev⟩ := by
  cases step_cases hstep with
  | trim => rfl
  | enter fFlags reply flags => exact absurd htrims flags
  | read => exact htrims.elim
  | write => exact htrims.elim
  | ioctl => exact htrims.elim

theorem step_pageSize (hstep : Step s done t) : t.globals.pageSize = s.globals.pageSize := by
  cases step_cases hstep with
  | trim => rfl
  | enter => rfl
  | read => rfl
  | write => rfl
  | ioctl call reply =>
    rcases scullIoctl_globals s.globals call with h | ⟨x, -, h⟩ | ⟨x, -, h⟩ | h <;> rw [h]

theorem Made.step (h : Made g type order s) (hstep : Step s done t) : Made g type order t := by
  have hpage : t.globals.pageSize = g.pageSize := (step_pageSize hstep).trans h.page
  by_cases htrims : done.1.Trims
  · rw [step_trims hstep htrims]
    exact ⟨h.kind, h.pages, h.page⟩
  · have hdev := step_settled hstep htrims
    constructor
    · rw [hdev]
      exact h.kind
    · rw [hdev]
      exact h.pages
    · exact hpage

theorem made_reachable {labels : List (Call × Reply)}
    (run : Run Step (.init g type order) labels t) : Made g type order t :=
  run.invariant (fun _ s => Made g type order s) (.init g type order)
    fun _ _ _ _ _ h hstep => h.step hstep

/-- The size of a block of `scullp` is an `int`. -/
def QuantumFits (g : Globals) (type : ScullType) (order : Nat) : Prop :=
  type = .p → g.pageSize * 2 ^ order < 2147483648

/-- A trim of a device of `scullp` finds `scull_quantum` at the size of its blocks. -/
def TrimsToBlock (s : Session) (done : Call × Reply) : Prop :=
  done.1.Trims → s.dev.type = .p → s.globals.scullQuantum = blockSize s.globals s.dev

/-- Right after a trim the device is as `scull_init` would set it up, and at any time
a block of `scullp` is used in full. -/
structure AsInit (type : ScullType) (order : Nat) (labels : List (Call × Reply))
    (s : Session) : Prop where
  trim : ∀ done, labels.getLast? = some done → done.1.Trims →
    s.dev = scullInitDev s.globals type order
  full : s.dev.type = .p → s.dev.quantum = blockSize s.globals s.dev

theorem Made.blockSize (h : Made g .p order s) :
    blockSize s.globals s.dev = g.pageSize * 2 ^ order := by
  simp only [Store.blockSize, h.kind, h.pages, h.page]
  rfl

theorem Made.quantum (h : Made g .p order s) (hfits : QuantumFits g .p order) :
    (scullInitDev s.globals .p order).quantum = Store.blockSize s.globals s.dev := by
  have hlt := hfits rfl
  have hquantum : (scullInitDev s.globals .p order).quantum =
      int32 ((g.pageSize * 2 ^ order : Nat) : Int) := by
    simp [scullInitDev, h.page]
  rw [hquantum, h.blockSize, int32_eq_self (by omega) (by exact_mod_cast hlt)]

theorem trimmed_eq_iff (h : Made g type order s) (hfits : QuantumFits g type order) :
    trimmed s.globals s.dev = scullInitDev s.globals type order ↔
      (type = .p → s.globals.scullQuantum = blockSize s.globals s.dev) := by
  have horder := h.pages
  cases type with
  | basic | c => simp [trimmed, scullInitDev, h.kind, horder]
  | p =>
    have hquantum := h.quantum hfits
    constructor
    · intro heq _
      rw [← hquantum, ← heq]
      rfl
    · intro hsetting
      have hall := (hsetting rfl).trans hquantum.symm
      simp only [scullInitDev] at hall
      simp [trimmed, scullInitDev, h.kind, horder, hall]

theorem asInit_step (h : Made g type order s) (hfits : QuantumFits g type order)
    {labels : List (Call × Reply)} (hinit : AsInit type order labels s) (hstep : Step s done t) :
    AsInit type order (labels ++ [done]) t ↔ TrimsToBlock s done := by
  by_cases htrims : done.1.Trims
  · cases step_trims hstep htrims
    have hiff := trimmed_eq_iff h hfits
    have htype := h.kind
    constructor
    · intro hafter _ hp
      exact hiff.mp (hafter.trim done (by simp) htrims) (htype.symm.trans hp)
    · intro hsetting
      constructor
      · intro last _ _
        exact hiff.mpr fun hp => hsetting htrims (htype.trans hp)
      · intro hp
        have hquantum := hsetting htrims hp
        simp only [blockSize, show s.dev.type = .p from hp] at hquantum
        simp only [blockSize, trimmed, show s.dev.type = .p from hp]
        exact hquantum
  · have hdev := step_settled hstep htrims
    have hpage := step_pageSize hstep
    refine ⟨fun _ h => absurd h htrims, fun _ => ⟨?_, ?_⟩⟩
    · intro last hlast hlasttrims
      rw [List.getLast?_append, List.getLast?_singleton] at hlast
      cases hlast
      exact absurd hlasttrims htrims
    · intro hp
      rw [hdev] at hp ⊢
      have hfull := hinit.full hp
      simp only [blockSize, show s.dev.type = .p from hp, hpage] at hfull ⊢
      exact hfull

/-- Every trim of a run gives the device back as `scull_init` set it up, and the
blocks of `scullp` are used in full all along, exactly when `scull_quantum` is the
size of a block at every trim of a device of `scullp`. -/
theorem reinit_iff {labels : List (Call × Reply)} (run : Run Step (.init g type order) labels t) :
    (∀ pre s, pre <+: labels → Run Step (.init g type order) pre s → AsInit type order pre s) ↔
      QuantumFits g type order ∧ Run (While TrimsToBlock Step) (.init g type order) labels t := by
  have hmade := Made.init g type order
  have hstart (hfits : QuantumFits g type order) :
      AsInit type order [] (.init g type order) := by
    constructor
    · intro done hlast
      cases hlast
    · intro hp
      cases hp
      exact hmade.quantum hfits
  have hexact (hfits : QuantumFits g type order) :=
    run.always_iff step_deterministic (hstart hfits)
      fun _ _ _ _ earlier hinit hstep => asInit_step (made_reachable earlier) hfits hinit hstep
  constructor
  · intro h
    have hfits : QuantumFits g type order := by
      rintro rfl
      have hfull := (h [] _ (List.nil_prefix) .nil).full rfl
      rw [hmade.blockSize] at hfull
      have hbounds := int32_bounds (g.pageSize * 2 ^ order)
      simp only [Session.init, scullInitDev] at hfull
      omega
    exact ⟨hfits, (hexact hfits).mp h⟩
  · rintro ⟨hfits, hrun⟩
    exact (hexact hfits).mpr hrun

instance (s : Session) (done : Call × Reply) : Decidable (TrimsToBlock s done) :=
  inferInstanceAs (Decidable
    (done.1.Trims → s.dev.type = .p → s.globals.scullQuantum = blockSize s.globals s.dev))

def toldBlock : List (Call × Reply) :=
  [(.scullWrite [7, 8, 9] 0 .calm, ⟨3, 3, [7, 8, 9]⟩), tellQuantum 8,
    (.scullRead 2 1 .calm, ⟨2, 3, [8, 9]⟩), openForWriting]

theorem reinit_told : ∃ s, Run Step (.init ⟨5, 2, 64, 8⟩ .p 0) toldBlock s ∧ s.dev.quantum = 8 ∧
    AsInit .p 0 toldBlock s := by
  have possible : ((toldBlock.foldlM (fun s done =>
      if TrimsToBlock s done then Session.next s done else none)
        (.init ⟨5, 2, 64, 8⟩ .p 0)).any fun s => s.dev.quantum = 8) = true := by
    decide +kernel
  obtain ⟨s, hs, hnext⟩ := Run.of_any possible
  have run : Run (While TrimsToBlock Step) (.init ⟨5, 2, 64, 8⟩ .p 0) toldBlock s :=
    hnext.checked.mono fun _ _ _ h => ⟨h.1, step_next h.2⟩
  exact ⟨s, run.forget, of_decide_eq_true hs,
    (reinit_iff run.forget).mpr ⟨fun _ => by decide, run⟩ _ _ (List.prefix_refl _) run.forget⟩

/-- Opened for writing, a device of `scullp` uses 1024 of the 4096 bytes of a block. -/
theorem trim_shrinks :
    ∃ t, Run Step (.init (.default 1024 4096) .p 0) [openForWriting] t ∧
      ¬ AsInit .p 0 [openForWriting] t ∧
      t.dev.quantum = 1024 ∧ blockSize t.globals t.dev = 4096 := by
  have opened : Step (.init (.default 1024 4096) .p 0) openForWriting
      ⟨.default 1024 4096, trimmed (.default 1024 4096) (scullInitDev (.default 1024 4096) .p 0)⟩ :=
    ⟨trivial, by decide +kernel⟩
  refine ⟨_, .single opened, ?_, rfl, rfl⟩
  intro hinit
  exact absurd (hinit.full rfl) (by decide +kernel)

end MyDrivers.Store
