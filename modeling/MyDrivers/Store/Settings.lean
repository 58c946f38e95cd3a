import MyDrivers.Store.Registers

/-! Who can change the settings. A failing call may, where it writes into the live
setting before the fault, and so may a caller without `CAP_SYS_ADMIN`, because
`SCULL_IOCRESET` does not ask for it. -/
namespace MyDrivers.Store
open Lib Lib.Machine Lib.Registers

/-! ## Calls that fail -/

def IsError (ret : Int) : Prop := ret = -ENOTTY ∨ ret = -EFAULT ∨ ret = -EPERM

instance (ret : Int) : Decidable (IsError ret) := inferInstanceAs (Decidable (_ ∨ _))

/-- The register has the value it would be left with. A shift is here for the old
values that read as an error when they are returned. -/
def Spares (g : Globals) (call : IoctlCall) (r : Register) : Verb → Prop
  | .set => call.user = none → g.file r = 0
  | .exchange =>
      (call.user = none → g.file r = 0) ∧
        ∀ v, call.user = some v → call.writable = false → g.file r = int32 v
  | .shift => IsError (g.file r) → g.file r = int32 call.arg
  | .tell => True
  | .get => True
  | .query => True

def Kept (g : Globals) (call : IoctlCall) : Prop :=
  ∀ r verb, call.order = some (.on r verb) → call.capable → Spares g call r verb

theorem isError_fault : IsError (-EFAULT) := .inr (.inl rfl)

theorem not_isError_zero : ¬ IsError 0 := by decide

theorem exchange_fails {g : Globals} {call : IoctlCall} {r : Register} (hcapable : call.capable) :
    (IsError (perform g call (.on r .exchange)).ret →
        (perform g call (.on r .exchange)).globals = g) ↔ Spares g call r .exchange := by
  simp only [perform, asks, hcapable, not_true, and_false, if_false, Spares]
  cases huser : call.user with
  | none =>
    have hget : getUser call = (-EFAULT, 0) := by simp [getUser, huser]
    have hne : ¬ -EFAULT = 0 := by decide
    simp [hget, hne, set_eq_iff, isError_fault]
  | some v =>
    have hget : getUser call = (0, int32 v) := by simp [getUser, huser]
    cases hwritable : call.writable with
    | false => simp [hget, putUser, hwritable, set_eq_iff, isError_fault]
    | true => simp [hget, putUser, hwritable, not_isError_zero]

theorem perform_fails (g : Globals) (call : IoctlCall) (r : Register) (verb : Verb) :
    (IsError (perform g call (.on r verb)).ret → (perform g call (.on r verb)).globals = g) ↔
      (call.capable → Spares g call r verb) := by
  by_cases hrefused : asks verb ∧ ¬ call.capable
  · simp [perform, hrefused]
  cases hcapable : call.capable with
  | false =>
    have hasks : asks verb = false := by simpa [hcapable] using hrefused
    cases verb with
    | get | query => simp [perform, hasks]
    | set | tell | exchange | shift => cases hasks
  | true =>
    cases verb with
    | exchange => simpa using exchange_fails hcapable
    | get | query => simp [perform, asks, Spares]
    | tell => simp [perform, asks, hcapable, Spares, not_isError_zero]
    | shift => simp [perform, asks, hcapable, Spares, set_eq_iff]
    | set =>
      cases huser : call.user with
      | none =>
        have hget : getUser call = (-EFAULT, 0) := by simp [getUser, huser]
        simp [perform, asks, hcapable, Spares, hget, huser, set_eq_iff, isError_fault]
      | some v =>
        have hget : getUser call = (0, int32 v) := by simp [getUser, huser]
        simp [perform, asks, hcapable, Spares, hget, huser, not_isError_zero]

/-- A call that fails leaves the settings alone, except where the fault comes after
the setting has been written. -/
theorem failure_intact_iff (g : Globals) (call : IoctlCall) :
    (IsError (scullIoctl g call).ret → (scullIoctl g call).globals = g) ↔ Kept g call := by
  rw [Kept]
  cases horder : call.order with
  | none => simp [scullIoctl_refused horder]
  | some order =>
    rw [scullIoctl_reached horder]
    cases order with
    | reset => simp [perform, not_isError_zero]
    | on r verb =>
      rw [perform_fails]
      simp

/-- `SCULL_IOCSQUANTUM` with an address that cannot be read. -/
def faultingSet : IoctlCall where
  cmd := SCULL_IOCSQUANTUM
  arg := 4096
  accessOk := true
  capable := true
  user := none
  writable := false

theorem fault_zeroes :
    (scullIoctl ⟨QUANTUM_SIZE, QSET_SIZE, 1024, 4096⟩ faultingSet).globals =
        ⟨0, QSET_SIZE, 1024, 4096⟩ ∧
      ¬ (IsError (scullIoctl ⟨QUANTUM_SIZE, QSET_SIZE, 1024, 4096⟩ faultingSet).ret →
        (scullIoctl ⟨QUANTUM_SIZE, QSET_SIZE, 1024, 4096⟩ faultingSet).globals =
          ⟨QUANTUM_SIZE, QSET_SIZE, 1024, 4096⟩) := by
  decide +kernel

/-! ## Callers without `CAP_SYS_ADMIN` -/

/-- The `file_operations` that have an `unlocked_ioctl`. -/
inductive Fops where
  | scullFops
  | scullPFops
  | scullSFops
  | scullUFops
  | scullWFops
  | scullCFops
  deriving DecidableEq, Repr

def Fops.unlockedIoctl : Fops → Globals → IoctlCall → IoctlResult
  | .scullFops => scullIoctl
  | .scullPFops => scullIoctl
  | .scullSFops => scullIoctl
  | .scullUFops => scullIoctl
  | .scullWFops => scullIoctl
  | .scullCFops => scullIoctl

structure Issued where
  fops : Fops
  call : IoctlCall

def Issued.step (g : Globals) (issued : Issued) : Globals × (Int × Option Int) :=
  let r := issued.fops.unlockedIoctl g issued.call
  (r.globals, r.ret, r.user)

def Issued.privileged (issued : Issued) : Bool := issued.call.capable

/-- A reset without the capability finds the settings it would leave. -/
def NothingToReset (g : Globals) (issued : Issued) : Prop :=
  issued.call.order = some .reset → issued.call.capable = false → g.file = defaults

theorem unlockedIoctl_eq (fops : Fops) : fops.unlockedIoctl = scullIoctl := by
  cases fops <;> rfl

theorem unprivileged_silent_iff (g : Globals) (issued : Issued) :
    Mealy.Silent Issued.privileged Issued.step g issued ↔ NothingToReset g issued := by
  simp only [Mealy.Silent, Issued.privileged, Issued.step, unlockedIoctl_eq, NothingToReset]
  cases hcapable : issued.call.capable with
  | true => simp
  | false =>
    cases horder : issued.call.order with
    | none => simp [scullIoctl_refused horder]
    | some order =>
      rw [scullIoctl_reached horder]
      cases order with
      | reset =>
        simp only [perform, put_eq_iff, forall_const]
        exact eq_comm
      | on r verb => cases verb <;> simp [perform, asks, hcapable]

/-- Callers without the capability leave no trace in the settings and in what the
others get, except by a reset of settings that are not the defaults. -/
theorem unprivileged_purged_iff (g : Globals) (calls : List Issued) :
    (∀ pre, pre <+: calls → Mealy.Purges Issued.privileged Issued.step g pre) ↔
      Mealy.Along Issued.step NothingToReset g calls := by
  rw [Mealy.purges_iff]
  exact Mealy.Along.congr fun g issued _ => unprivileged_silent_iff g issued

/-- `SCULL_IOCRESET` by a caller without the capability. -/
def strangerResets : Issued where
  fops := .scullPFops
  call := ⟨SCULL_IOCRESET, 0, true, false, none, false⟩

theorem stranger_resets :
    ¬ Mealy.Purges Issued.privileged Issued.step ⟨4000, 500, 1024, 4096⟩ [strangerResets] := by
  rintro ⟨hafter, -⟩
  exact absurd hafter (by decide +kernel)

end MyDrivers.Store
