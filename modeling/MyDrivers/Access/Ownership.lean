import MyDrivers.Access.Device
import MyDrivers.Lib.Runs

/-! Who may have `scull_uid` or `scull_wuid` open. The owner is whoever found the
device free; it outlives the file that made it the owner as long as another file
is open. -/
namespace MyDrivers.Access
open Lib Lib.Machine
open Store (Byte Globals ScullDev ERESTARTSYS EAGAIN O_NONBLOCK O_WRONLY)

/-- A device, the tasks whose opens were granted and not yet released, and the
opens of `scull_wuid` that wait. -/
structure Session where
  guard : Guard
  handles : List Task
  waiting : List (Task × Nat)
  deriving DecidableEq

/-- What a process asks of a device, or what happens to a process that waits. -/
inductive Request where
  | open (task : Task) (fFlags : Nat)
  /-- `wait_event_interruptible` is over and the lock is taken again. -/
  | retry (task : Task) (fFlags : Nat)
  | signal (task : Task) (fFlags : Nat)
  | release (task : Task)
  /-- Reads, writes and ioctls through an open file have changed the data. -/
  | transfer (dev : ScullDev)
  deriving DecidableEq

def Session.opened (s : Session) (task : Task) (fFlags : Nat) (ret : Option Int)
    (guard : Guard) : Session :=
  match ret with
  | none => ⟨guard, s.handles, (task, fFlags) :: s.waiting⟩
  | some 0 => ⟨guard, task :: s.handles, s.waiting⟩
  | some _ => ⟨guard, s.handles, s.waiting⟩

def Request.run (variant : Variant) (g : Globals) (s : Session) :
    Request → Traced Store.Event (Option Int × Session)
  | .open task fFlags => do
      let (ret, guard) ← variant.openLocked g task fFlags s.guard
      return (ret, s.opened task fFlags ret guard)
  | .retry task fFlags => do
      let (ret, guard) ← variant.openLocked g task fFlags s.guard
      return (ret, { s with waiting := s.waiting.erase (task, fFlags) }.opened task fFlags ret guard)
  | .signal task fFlags =>
      pure (some (-ERESTARTSYS), { s with waiting := s.waiting.erase (task, fFlags) })
  | .release task =>
      let (ret, guard) := variant.releaseLocked s.guard
      pure (some ret, ⟨guard, s.handles.erase task, s.waiting⟩)
  | .transfer dev => pure (some 0, { s with guard := { s.guard with dev := dev } })

/-- A release answers a granted open, and only an open that waits goes on. -/
def Request.Offered (s : Session) : Request → Prop
  | .open _ _ => True
  | .retry task fFlags => (task, fFlags) ∈ s.waiting
  | .signal task fFlags => (task, fFlags) ∈ s.waiting
  | .release task => task ∈ s.handles
  | .transfer _ => s.handles ≠ []

def Step (variant : Variant) (g : Globals) (s : Session) (done : Request × Option Int)
    (t : Session) : Prop :=
  done.1.Offered s ∧ (done.1.run variant g s).result = some (done.2, t)

theorem step_deterministic (variant : Variant) (g : Globals) : Deterministic (Step variant g) := by
  rintro s done t u ⟨-, ht⟩ ⟨-, hu⟩
  rw [ht] at hu
  exact congrArg Prod.snd (Option.some.inj hu)

def Session.init (dev : ScullDev) : Session := ⟨⟨0, 0, dev⟩, [], []⟩

/-! ## What the labels say -/

/-- The files open at the end of a run, and the uid of the process whose open
last was the first. -/
structure Ledger where
  handles : Nat
  opener : Option Nat
  deriving DecidableEq, Repr

def Ledger.granted (ledger : Ledger) (task : Task) (ret : Option Int) : Ledger :=
  if ret = some 0 then
    ⟨ledger.handles + 1, if ledger.handles = 0 then some task.uid else ledger.opener⟩
  else ledger

def Ledger.after (ledger : Ledger) (done : Request × Option Int) : Ledger :=
  match done.1 with
  | .open task _ => ledger.granted task done.2
  | .retry task _ => ledger.granted task done.2
  | .release _ => { ledger with handles := ledger.handles - 1 }
  | .signal _ _ => ledger
  | .transfer _ => ledger

def ledger (labels : List (Request × Option Int)) : Ledger :=
  labels.foldl Ledger.after ⟨0, none⟩

@[simp] theorem ledger_snoc (labels : List (Request × Option Int)) (done : Request × Option Int) :
    ledger (labels ++ [done]) = (ledger labels).after done := by
  simp [ledger]

structure Owned (variant : Variant) (g : Globals) (labels : List (Request × Option Int))
    (s : Session) : Prop where
  handles : (ledger labels).handles = s.handles.length
  counted : s.guard.count = s.handles.length
  small : s.guard.count < 2147483648
  owner : 0 < s.guard.count → (ledger labels).opener = some s.guard.owner
  granted : ∀ task ∈ s.handles, task.Allowed s.guard.owner
  /-- A request that fails leaves count, owner and data alone, and so does one that waits. -/
  failed : ∀ req ret t, Step variant g s (req, ret) t → ret ≠ some 0 → t.guard = s.guard

/-- One more file can be counted. -/
def Fits (s : Session) (done : Request × Option Int) : Prop :=
  match done.1 with
  | .open _ _ => done.2 = some 0 → s.handles.length + 1 < 2147483648
  | .retry _ _ => done.2 = some 0 → s.handles.length + 1 < 2147483648
  | _ => True

section Runs
variable {variant : Variant} {g : Globals} {s t : Session} {labels : List (Request × Option Int)}

inductive Stepped (g : Globals) (s : Session) : Request × Option Int → Session → Prop
  | refused (req : Request) (ret : Option Int) (waiting : List (Task × Nat))
      (failed : ret ≠ some 0) (open? : ∀ task, req ≠ .release task) :
      Stepped g s (req, ret) ⟨s.guard, s.handles, waiting⟩
  | entered (req : Request) (task : Task) (fFlags : Nat) (waiting : List (Task × Nat))
      (dev : ScullDev) (opens : req = .open task fFlags ∨ req = .retry task fFlags)
      (trimmed : (Store.scullOpen g s.guard.dev fFlags).result = some dev)
      (allowed : 0 < s.guard.count → task.Allowed s.guard.owner) :
      Stepped g s (req, some 0)
        ⟨⟨int32 (s.guard.count + 1),
          if s.guard.count = 0 then task.uid else s.guard.owner, dev⟩,
          task :: s.handles, waiting⟩
  | released (task : Task) (member : task ∈ s.handles) :
      Stepped g s (.release task, some 0) ⟨s.guard.leave, s.handles.erase task, s.waiting⟩
  | transferred (dev : ScullDev) (file : s.handles ≠ []) :
      Stepped g s (.transfer dev, some 0)
        ⟨{ s.guard with dev := dev }, s.handles, s.waiting⟩

theorem stepped_opened {req : Request} {task : Task} {fFlags : Nat} {ret : Option Int}
    {guard : Guard} {waiting : List (Task × Nat)}
    (opens : req = .open task fFlags ∨ req = .retry task fFlags)
    (h : Opened g task fFlags s.guard (ret, guard)) :
    Stepped g s (req, ret) (Session.opened ⟨s.guard, s.handles, waiting⟩ task fFlags ret guard) := by
  have hopen : ∀ other, req ≠ .release other := by
    rintro other rfl
    rcases opens with h | h <;> cases h
  cases h with
  | refused ret failed =>
    unfold Session.opened
    split
    · exact .refused req _ _ failed hopen
    · exact absurd rfl failed
    · exact .refused req _ _ failed hopen
  | entered dev trimmed allowed => exact .entered req task fFlags waiting dev opens trimmed allowed

theorem step_cases {done : Request × Option Int} (h : Step variant g s done t) :
    Stepped g s done t := by
  obtain ⟨req, ret⟩ := done
  obtain ⟨hoffered, hrun⟩ := h
  cases req with
  | «open» task fFlags =>
    simp only [Request.run, Traced.result_bind] at hrun
    obtain ⟨⟨ret', guard⟩, hopened, hresult⟩ := Option.bind_eq_some_iff.mp hrun
    cases hresult
    exact stepped_opened (.inl rfl) (openLocked_returns variant g task fFlags _ _ hopened)
  | retry task fFlags =>
    simp only [Request.run, Traced.result_bind] at hrun
    obtain ⟨⟨ret', guard⟩, hopened, hresult⟩ := Option.bind_eq_some_iff.mp hrun
    cases hresult
    exact stepped_opened (.inr rfl) (openLocked_returns variant g task fFlags _ _ hopened)
  | signal task fFlags =>
    cases hrun
    exact .refused _ _ _ (by decide) nofun
  | release task =>
    simp only [Request.run, releaseLocked_eq] at hrun
    cases hrun
    exact .released task hoffered
  | transfer dev =>
    cases hrun
    exact .transferred dev hoffered

/-! ## One step -/

theorem failed_leaves {req : Request} {ret : Option Int} (h : Step variant g s (req, ret) t)
    (failed : ret ≠ some 0) : t.guard = s.guard := by
  cases step_cases h with
  | refused req ret waiting refused open? => rfl
  | entered req task fFlags waiting dev opens trimmed allowed => exact absurd rfl failed
  | released task member => exact absurd rfl failed
  | transferred dev file => exact absurd rfl failed

theorem after_refused {req : Request} {ret : Option Int} (past : Ledger) (failed : ret ≠ some 0)
    (open? : ∀ task, req ≠ .release task) : past.after (req, ret) = past := by
  cases req with
  | «open» task fFlags => simp [Ledger.after, Ledger.granted, failed]
  | retry task fFlags => simp [Ledger.after, Ledger.granted, failed]
  | signal task fFlags => rfl
  | release task => exact absurd rfl (open? task)
  | transfer dev => rfl

theorem fits_refused {req : Request} {ret : Option Int} (failed : ret ≠ some 0) :
    Fits s (req, ret) := by
  cases req with
  | «open» task fFlags => exact fun h => absurd h failed
  | retry task fFlags => exact fun h => absurd h failed
  | signal task fFlags => trivial
  | release task => trivial
  | transfer dev => trivial

theorem after_entered {req : Request} {task : Task} {fFlags : Nat} (past : Ledger)
    (opens : req = .open task fFlags ∨ req = .retry task fFlags) :
    past.after (req, some 0) =
      ⟨past.handles + 1, if past.handles = 0 then some task.uid else past.opener⟩ := by
  rcases opens with rfl | rfl <;> rfl

theorem fits_entered {req : Request} {task : Task} {fFlags : Nat}
    (opens : req = .open task fFlags ∨ req = .retry task fFlags) :
    Fits s (req, some 0) ↔ s.handles.length + 1 < 2147483648 := by
  rcases opens with rfl | rfl <;> simp [Fits]

theorem owned_entered (owned : Owned variant g labels s) {req : Request} {task : Task}
    {fFlags : Nat} {waiting : List (Task × Nat)} {dev : ScullDev}
    (opens : req = .open task fFlags ∨ req = .retry task fFlags)
    (allowed : 0 < s.guard.count → task.Allowed s.guard.owner) :
    Owned variant g (labels ++ [(req, some 0)])
        ⟨⟨int32 (s.guard.count + 1),
          if s.guard.count = 0 then task.uid else s.guard.owner, dev⟩,
          task :: s.handles, waiting⟩ ↔
      s.handles.length + 1 < 2147483648 := by
  have hcounted := owned.counted
  have hbounds := int32_bounds (s.guard.count + 1)
  constructor
  · intro h
    have hnow := h.counted
    simp only [List.length_cons] at hnow
    omega
  · intro hfits
    have hcount : int32 (s.guard.count + 1) = s.guard.count + 1 :=
      int32_eq_self (by omega) (by omega)
    have hledger := ledger_snoc labels (req, some 0)
    rw [after_entered _ opens] at hledger
    refine ⟨?_, ?_, hbounds.2, ?_, ?_, fun _ _ _ => failed_leaves⟩
    · rw [hledger]
      simp [owned.handles]
    · simp only [hcount, List.length_cons]
      omega
    · intro _
      rw [hledger]
      simp only [owned.handles]
      by_cases hfree : s.handles.length = 0
      · rw [if_pos hfree, if_pos (by omega)]
      · rw [if_neg hfree, if_neg (by omega)]
        exact owned.owner (by omega)
    · intro other hother
      by_cases hfree : s.guard.count = 0
      · simp only [if_pos hfree]
        rcases List.mem_cons.mp hother with rfl | hold
        · exact .inl rfl
        · have hempty : s.handles = [] := List.length_eq_zero_iff.mp (by omega)
          rw [hempty] at hold
          cases hold
      · simp only [if_neg hfree]
        rcases List.mem_cons.mp hother with rfl | hold
        · exact allowed (by omega)
        · exact owned.granted other hold

theorem owned_released (owned : Owned variant g labels s) {task : Task}
    (member : task ∈ s.handles) :
    Owned variant g (labels ++ [(.release task, some 0)])
      ⟨s.guard.leave, s.handles.erase task, s.waiting⟩ := by
  have hcounted := owned.counted
  have hsmall := owned.small
  have hlength : (s.handles.erase task).length = s.handles.length - 1 :=
    List.length_erase_of_mem member
  have hpos : 0 < s.handles.length := List.length_pos_of_mem member
  have hcount : int32 (s.guard.count - 1) = s.guard.count - 1 :=
    int32_eq_self (by omega) (by omega)
  have hledger := ledger_snoc labels (.release task, some 0)
  have howner : 0 < s.guard.count - 1 → s.guard.leave.owner = s.guard.owner := by
    intro hmore
    have hne : s.guard.count - 1 ≠ 0 := by omega
    simp [Guard.leave, hcount, hne]
  have hleave : s.guard.leave.count = s.guard.count - 1 := hcount
  refine ⟨?_, ?_, ?_, ?_, ?_, fun _ _ _ => failed_leaves⟩
  · rw [hledger]
    simp [Ledger.after, owned.handles, hlength]
  · simp only [hleave, hlength]
    omega
  · simp only [hleave]
    omega
  · intro hmore
    simp only [hleave] at hmore
    rw [hledger, howner hmore]
    exact owned.owner (by omega)
  · intro other hother
    have hsome : 0 < (s.handles.erase task).length := List.length_pos_of_mem hother
    have hmore : 0 < s.guard.count - 1 := by omega
    simp only [howner hmore]
    exact owned.granted other (List.mem_of_mem_erase hother)

theorem step_owned (owned : Owned variant g labels s) {done : Request × Option Int}
    (hstep : Step variant g s done t) : Owned variant g (labels ++ [done]) t ↔ Fits s done := by
  have hledger := ledger_snoc labels done
  cases step_cases hstep with
  | refused req ret waiting failed open? =>
    rw [after_refused _ failed open?] at hledger
    refine iff_of_true ⟨?_, owned.counted, owned.small, ?_, owned.granted,
      fun _ _ _ => failed_leaves⟩ (fits_refused failed)
    · rw [hledger]
      exact owned.handles
    · rw [hledger]
      exact owned.owner
  | entered req task fFlags waiting dev opens trimmed allowed =>
    exact (owned_entered owned opens allowed).trans (fits_entered opens).symm
  | released task member => exact iff_of_true (owned_released owned member) trivial
  | transferred dev file =>
    refine iff_of_true ⟨?_, owned.counted, owned.small, ?_, owned.granted,
      fun _ _ _ => failed_leaves⟩ trivial
    · rw [hledger]
      exact owned.handles
    · rw [hledger]
      exact owned.owner

/-- The device belongs to its first opener all along a run if and only if no
open of the run makes `2 ^ 31` files. -/
theorem owned_iff {dev : ScullDev} (run : Run (Step variant g) (.init dev) labels t) :
    (∀ pre s, pre <+: labels → Run (Step variant g) (.init dev) pre s →
        Owned variant g pre s) ↔
      Run (While Fits (Step variant g)) (.init dev) labels t := by
  have initial : Owned variant g [] (.init dev) := by
    refine ⟨rfl, rfl, by simp [Session.init], ?_, ?_, fun _ _ _ => failed_leaves⟩
    · intro h
      simp [Session.init] at h
    · intro task h
      simp [Session.init] at h
  refine Run.always_iff (step_deterministic variant g) initial ?_ run
  intro labels s done t _ owned hstep
  exact step_owned owned hstep

end Runs

def quiet : Globals := ⟨4, 2, 64, 4096⟩

def emptyDev : ScullDev := Store.scullInitDev quiet .basic 0

section Example

instance (s : Session) : DecidablePred (Request.Offered s) := fun req =>
  match req with
  | .open _ _ => .isTrue trivial
  | .retry task fFlags => inferInstanceAs (Decidable ((task, fFlags) ∈ s.waiting))
  | .signal task fFlags => inferInstanceAs (Decidable ((task, fFlags) ∈ s.waiting))
  | .release task => inferInstanceAs (Decidable (task ∈ s.handles))
  | .transfer _ => inferInstanceAs (Decidable (s.handles ≠ []))

instance (s : Session) : DecidablePred (Fits s) := fun done =>
  match done with
  | (.open _ _, ret) => inferInstanceAs (Decidable (ret = some 0 → s.handles.length + 1 < 2147483648))
  | (.retry _ _, ret) => inferInstanceAs (Decidable (ret = some 0 → s.handles.length + 1 < 2147483648))
  | (.signal _ _, _) => .isTrue trivial
  | (.release _, _) => .isTrue trivial
  | (.transfer _, _) => .isTrue trivial

/-- The step of a request whose result is known. -/
def Session.next (variant : Variant) (g : Globals) (s : Session) (done : Request × Option Int) :
    Option Session :=
  if done.1.Offered s then
    (done.1.run variant g s).result.bind fun r => if r.1 = done.2 then some r.2 else none
  else none

theorem step_next {variant : Variant} {g : Globals} {s t : Session} {done : Request × Option Int}
    (h : s.next variant g done = some t) : Step variant g s done t := by
  unfold Session.next at h
  split at h
  · next hoffered =>
    obtain ⟨r, hrun, hreply⟩ := Option.bind_eq_some_iff.mp h
    split at hreply
    · next hret =>
      cases hreply
      exact ⟨hoffered, hrun.trans (congrArg (fun ret => some (ret, r.2)) hret)⟩
    · cases hreply
  · cases h

def alice : Task := ⟨1000, 1000, false⟩

def bob : Task := ⟨1001, 1001, false⟩

def admin : Task := ⟨0, 0, true⟩

def storedDev : ScullDev :=
  ⟨[⟨0, some ⟨1, [some ⟨2, .kmalloc, [7, 0, 0, 0]⟩, none]⟩⟩], 4, 2, 1, 0, .basic⟩

/-- Bob waits until Alice and the administrator have closed their files. -/
def bobWaits : List (Request × Option Int) :=
  [(.open alice O_WRONLY, some 0), (.transfer storedDev, some 0), (.open admin 0, some 0),
    (.open bob O_NONBLOCK, some (-EAGAIN)), (.open bob O_WRONLY, none), (.release alice, some 0),
    (.retry bob O_WRONLY, none), (.release admin, some 0), (.retry bob O_WRONLY, some 0)]

theorem owned_after_wait : ∃ s, Run (Step .wuid quiet) (.init emptyDev) bobWaits s ∧
    s.handles = [bob] ∧ s.guard.owner = 1001 ∧ Owned .wuid quiet bobWaits s := by
  have hpossible : ((bobWaits.foldlM (fun s done =>
      if Fits s done then s.next .wuid quiet done else none) (.init emptyDev)).any fun s =>
        s.handles = [bob] ∧ s.guard.owner = 1001) = true := by
    decide +kernel
  obtain ⟨s, hs, hnext⟩ := Run.of_any hpossible
  obtain ⟨hhandles, howner⟩ := of_decide_eq_true hs
  have hfits : Run (While Fits (Step .wuid quiet)) (.init emptyDev) bobWaits s :=
    hnext.checked.mono fun _ _ _ h => ⟨h.1, step_next h.2⟩
  exact ⟨s, hfits.forget, hhandles, howner,
    (owned_iff hfits.forget).mpr hfits _ _ (List.prefix_refl _) hfits.forget⟩

end Example

def root : Task := ⟨0, 0, false⟩

def rootOpens : Request × Option Int := (.open root 0, some 0)

def crowded (n : Nat) : Session :=
  ⟨⟨int32 n, 0, emptyDev⟩, List.replicate n root, []⟩

theorem step_granted {g : Globals} {s : Session} {task : Task} {fFlags : Nat} {guard : Guard}
    (h : (scullUOpen g task fFlags s.guard).result = some (some 0, guard)) :
    Step .uid g s (.open task fFlags, some 0) ⟨guard, task :: s.handles, s.waiting⟩ := by
  refine ⟨True.intro, ?_⟩
  simp only [Request.run, Variant.openLocked, Traced.result_bind]
  rw [h]
  rfl

theorem crowded_open {n : Nat} (hcount : int32 (n : Int) = n) :
    (scullUOpen quiet root 0 ⟨int32 n, 0, emptyDev⟩).result =
      some (some 0, ⟨int32 (n + 1 : Nat), 0, emptyDev⟩) := by
  have hsum : ((n + 1 : Nat) : Int) = (n : Int) + 1 := by omega
  have howner : (if (n : Int) = 0 then root.uid else 0) = 0 := ite_self 0
  have hdev : (Store.scullOpen quiet emptyDev 0).result = some emptyDev := rfl
  rw [hcount, hsum]
  unfold scullUOpen
  rw [if_neg (fun h => h.2.1 rfl)]
  simp only [Guard.enter, Traced.result_bind, hdev, howner]
  rfl

theorem crowded_step {n : Nat} (h : n < 2147483648) :
    Step .uid quiet (crowded n) rootOpens (crowded (n + 1)) :=
  step_granted (crowded_open (int32_eq_self (by omega) (by omega)))

theorem crowded_run (n : Nat) (h : n ≤ 2147483648) :
    Run (Step .uid quiet) (crowded 0) (List.replicate n rootOpens) (crowded n) := by
  induction n with
  | zero => exact .nil
  | succ n ih =>
    rw [List.replicate_succ']
    exact (ih (by omega)).snoc (crowded_step (by omega))

theorem crowded_wraps {n : Nat} (h : n = 2147483648) :
    Run (Step .uid quiet) (.init emptyDev) (List.replicate n rootOpens) (crowded n) ∧
      (crowded n).guard.count = -2147483648 ∧ (crowded n).handles.length = n := by
  have hinit : crowded 0 = .init emptyDev := by simp [crowded, Session.init]
  refine ⟨hinit ▸ crowded_run n (by omega), ?_, List.length_replicate⟩
  unfold crowded int32
  simp only
  omega

/-- The open number `2 ^ 31` makes the count negative. -/
theorem count_wraps :
    Run (Step .uid quiet) (.init emptyDev) (List.replicate 2147483648 rootOpens)
        (crowded 2147483648) ∧
      (crowded 2147483648).guard.count = -2147483648 ∧
      (crowded 2147483648).handles.length = 2147483648 :=
  crowded_wraps rfl

end MyDrivers.Access
