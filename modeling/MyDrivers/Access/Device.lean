import MyDrivers.Store.Base

/-! The devices of `scull/access.c` that belong to one user at a time. What a
call does while it holds the spinlock of its device is one function here. -/
namespace MyDrivers.Access
open Lib Lib.Machine
open Store (Event Globals ScullDev EAGAIN EBUSY ERESTARTSYS O_NONBLOCK)

/-- The credentials of `current` that the devices look at. -/
structure Task where
  uid : Nat
  euid : Nat
  dacOverride : Bool
  deriving DecidableEq, Repr

/-- The static variables of `scull_uid` or of `scull_wuid`. -/
structure Guard where
  count : Int
  owner : Nat
  dev : ScullDev
  deriving DecidableEq

/-- The end of both `open`s: count the file, note the first owner, trim. -/
def Guard.enter (g : Globals) (task : Task) (fFlags : Nat) (guard : Guard) :
    Traced Event Guard := do
  let owner := if guard.count = 0 then task.uid else guard.owner
  let dev ← Store.scullOpen g guard.dev fFlags
  return ⟨int32 (guard.count + 1), owner, dev⟩

def Guard.leave (guard : Guard) : Guard :=
  let count := int32 (guard.count - 1)
  { guard with count := count, owner := if count = 0 then 0 else guard.owner }

def scullUOpen (g : Globals) (task : Task) (fFlags : Nat) (guard : Guard) :
    Traced Event (Option Int × Guard) :=
  if guard.count > 0 ∧ guard.owner ≠ task.uid ∧ guard.owner ≠ task.euid ∧
      ¬ task.dacOverride then
    pure (some (-EBUSY), guard)
  else do
    let guard ← guard.enter g task fFlags
    return (some 0, guard)

def scullURelease (guard : Guard) : Int × Guard := (0, guard.leave)

def scullWAvailable (task : Task) (guard : Guard) : Bool :=
  guard.count = 0 || guard.owner = task.uid || guard.owner = task.euid || task.dacOverride

/-- `scull_w_open` from one `spin_lock` to the next `spin_unlock`; `none` when
the process goes on to `wait_event_interruptible`. -/
def scullWOpen (g : Globals) (task : Task) (fFlags : Nat) (guard : Guard) :
    Traced Event (Option Int × Guard) :=
  if scullWAvailable task guard then do
    let guard ← guard.enter g task fFlags
    return (some 0, guard)
  else if fFlags &&& O_NONBLOCK ≠ 0 then pure (some (-EAGAIN), guard)
  else pure (none, guard)

/-- The value returned, and whether `scull_w_wait` is woken afterwards. -/
def scullWRelease (guard : Guard) : Int × Bool × Guard :=
  let temp := guard.leave.count
  (0, decide (temp = 0), guard.leave)

inductive Variant where
  | uid
  | wuid
  deriving DecidableEq, Repr

def Variant.openLocked (variant : Variant) (g : Globals) (task : Task) (fFlags : Nat)
    (guard : Guard) : Traced Event (Option Int × Guard) :=
  match variant with
  | .uid => scullUOpen g task fFlags guard
  | .wuid => scullWOpen g task fFlags guard

def Variant.releaseLocked (variant : Variant) (guard : Guard) : Int × Guard :=
  match variant with
  | .uid => scullURelease guard
  | .wuid => ((scullWRelease guard).1, (scullWRelease guard).2.2)

def Task.Allowed (task : Task) (owner : Nat) : Prop :=
  task.uid = owner ∨ task.euid = owner ∨ task.dacOverride = true

/-- The section of an `open` either refuses, leaving everything as it is, or
enters a device that is free or whose owner allows it. -/
inductive Opened (g : Globals) (task : Task) (fFlags : Nat) (guard : Guard) :
    Option Int × Guard → Prop where
  | refused (ret : Option Int) (failed : ret ≠ some 0) : Opened g task fFlags guard (ret, guard)
  | entered (dev : ScullDev) (trimmed : (Store.scullOpen g guard.dev fFlags).result = some dev)
      (allowed : 0 < guard.count → task.Allowed guard.owner) :
      Opened g task fFlags guard
        (some 0, ⟨int32 (guard.count + 1), if guard.count = 0 then task.uid else guard.owner, dev⟩)

theorem enter_returns {g : Globals} {task : Task} {fFlags : Nat} {guard : Guard}
    (allowed : 0 < guard.count → task.Allowed guard.owner) :
    (guard.enter g task fFlags >>= fun guard => pure (some (0 : Int), guard)).Returns
      (Opened g task fFlags guard) := by
  refine .bind (fun guard' => ∃ dev, (Store.scullOpen g guard.dev fFlags).result = some dev ∧
      guard' = ⟨int32 (guard.count + 1), if guard.count = 0 then task.uid else guard.owner, dev⟩)
    ?_ ?_
  · refine .bind (fun dev => (Store.scullOpen g guard.dev fFlags).result = some dev)
      (fun dev h => h) ?_
    intro dev hdev
    exact .pure ⟨dev, hdev, rfl⟩
  · rintro guard' ⟨dev, hdev, rfl⟩
    exact .pure (.entered dev hdev allowed)

theorem openLocked_returns (variant : Variant) (g : Globals) (task : Task) (fFlags : Nat)
    (guard : Guard) :
    (variant.openLocked g task fFlags guard).Returns (Opened g task fFlags guard) := by
  cases variant with
  | uid =>
    unfold Variant.openLocked scullUOpen
    simp only
    split
    · exact .pure (.refused _ (by decide))
    · next hfree =>
      apply enter_returns
      intro hcount
      unfold Task.Allowed
      by_contra hdenied
      simp only [not_or] at hdenied
      exact hfree ⟨hcount, Ne.symm hdenied.1, Ne.symm hdenied.2.1, hdenied.2.2⟩
  | wuid =>
    unfold Variant.openLocked scullWOpen
    simp only
    split
    · next havailable =>
      apply enter_returns
      intro hcount
      have hnonzero : guard.count ≠ 0 := by omega
      simp only [scullWAvailable, Bool.or_eq_true, decide_eq_true_eq, hnonzero, false_or] at havailable
      rcases havailable with (huid | heuid) | hdac
      · exact .inl huid.symm
      · exact .inr (.inl heuid.symm)
      · exact .inr (.inr hdac)
    · split
      · exact .pure (.refused _ (by decide))
      · exact .pure (.refused _ (by decide))

theorem releaseLocked_eq (variant : Variant) (guard : Guard) :
    variant.releaseLocked guard = (0, guard.leave) := by
  cases variant <;> rfl

end MyDrivers.Access
