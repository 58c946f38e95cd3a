import MyDrivers.Store.Device

/-! `scull_ioctl` and its command codes. The caller's user memory is the single
`int` at `arg`: reading or writing it may fault, and a faulting `__get_user`
stores 0 in its destination. -/
namespace MyDrivers.Store
open Lib.Machine

def IOC_NONE : Nat := 0
def IOC_WRITE : Nat := 1
def IOC_READ : Nat := 2

/-- `_IOC(dir, type, nr, size)`. -/
def ioc (dir type nr size : Nat) : Nat := dir <<< 30 ||| size <<< 16 ||| type <<< 8 ||| nr

def iocNr (cmd : Nat) : Nat := cmd &&& 0xff
def iocType (cmd : Nat) : Nat := cmd >>> 8 &&& 0xff

def SCULL_IOC_MAGIC : Nat := 'k'.toNat
def SCULL_IOC_MAXNR : Nat := 14

def SCULL_IOCRESET : Nat := ioc IOC_NONE SCULL_IOC_MAGIC 0 0
def SCULL_IOCSQUANTUM : Nat := ioc IOC_WRITE SCULL_IOC_MAGIC 1 4
def SCULL_IOCSQSET : Nat := ioc IOC_WRITE SCULL_IOC_MAGIC 2 4
def SCULL_IOCTQUANTUM : Nat := ioc IOC_NONE SCULL_IOC_MAGIC 3 0
def SCULL_IOCTQSET : Nat := ioc IOC_NONE SCULL_IOC_MAGIC 4 0
def SCULL_IOCGQUANTUM : Nat := ioc IOC_READ SCULL_IOC_MAGIC 5 4
def SCULL_IOCGQSET : Nat := ioc IOC_READ SCULL_IOC_MAGIC 6 4
def SCULL_IOCQQUANTUM : Nat := ioc IOC_NONE SCULL_IOC_MAGIC 7 0
def SCULL_IOCQQSET : Nat := ioc IOC_NONE SCULL_IOC_MAGIC 8 0
def SCULL_IOCXQUANTUM : Nat := ioc (IOC_READ ||| IOC_WRITE) SCULL_IOC_MAGIC 9 4
def SCULL_IOCXQSET : Nat := ioc (IOC_READ ||| IOC_WRITE) SCULL_IOC_MAGIC 10 4
def SCULL_IOCHQUANTUM : Nat := ioc IOC_NONE SCULL_IOC_MAGIC 11 0
def SCULL_IOCHQSET : Nat := ioc IOC_NONE SCULL_IOC_MAGIC 12 0

/-- One call of `scull_ioctl`: its arguments, whether `access_ok` accepts `arg`,
whether the caller has `CAP_SYS_ADMIN`, the user's `int` (`none` when reading it
faults) and whether it can be written. -/
structure IoctlCall where
  cmd : Nat
  arg : Nat
  accessOk : Bool
  capable : Bool
  user : Option Int
  writable : Bool
  deriving DecidableEq, Repr

structure IoctlResult where
  ret : Int
  globals : Globals
  user : Option Int
  deriving DecidableEq, Repr

/-- `__get_user(x, arg)`: its return value and the new value of `x`. -/
def getUser (call : IoctlCall) : Int × Int :=
  match call.user with
  | some value => (0, int32 value)
  | none => (-EFAULT, 0)

/-- `__put_user(x, arg)`: its return value and the user's `int` afterwards. -/
def putUser (call : IoctlCall) (x : Int) : Int × Option Int :=
  if call.writable then (0, some x) else (-EFAULT, call.user)

inductive Command where
  | reset
  | setQuantum
  | tellQuantum
  | getQuantum
  | queryQuantum
  | exchangeQuantum
  | shiftQuantum
  | setQset
  | tellQset
  | getQset
  | queryQset
  | exchangeQset
  | shiftQset
  deriving DecidableEq, Repr

def Command.table : List (Nat × Command) :=
  [(SCULL_IOCRESET, .reset), (SCULL_IOCSQUANTUM, .setQuantum), (SCULL_IOCTQUANTUM, .tellQuantum),
    (SCULL_IOCGQUANTUM, .getQuantum), (SCULL_IOCQQUANTUM, .queryQuantum),
    (SCULL_IOCXQUANTUM, .exchangeQuantum), (SCULL_IOCHQUANTUM, .shiftQuantum),
    (SCULL_IOCSQSET, .setQset), (SCULL_IOCTQSET, .tellQset), (SCULL_IOCGQSET, .getQset),
    (SCULL_IOCQQSET, .queryQset), (SCULL_IOCXQSET, .exchangeQset),
    (SCULL_IOCHQSET, .shiftQset)]

def Command.ofCode (cmd : Nat) : Option Command := Command.table.lookup cmd

/-- The body of the `switch`, after the checks on the code and the address. -/
def Command.run (g : Globals) (call : IoctlCall) : Command → IoctlResult
  | .reset => ⟨0, { g with scullQuantum := QUANTUM_SIZE, scullQsetN := QSET_SIZE }, call.user⟩
  | .setQuantum =>
      if ¬ call.capable then ⟨-EPERM, g, call.user⟩
      else
        let (retval, value) := getUser call
        ⟨retval, { g with scullQuantum := value }, call.user⟩
  | .tellQuantum =>
      if ¬ call.capable then ⟨-EPERM, g, call.user⟩
      else ⟨0, { g with scullQuantum := int32 call.arg }, call.user⟩
  | .getQuantum =>
      let (retval, user) := putUser call g.scullQuantum
      ⟨retval, g, user⟩
  | .queryQuantum => ⟨g.scullQuantum, g, call.user⟩
  | .exchangeQuantum =>
      let tmp := g.scullQuantum
      if ¬ call.capable then ⟨-EPERM, g, call.user⟩
      else
        let (retval, value) := getUser call
        let g := { g with scullQuantum := value }
        if retval = 0 then
          let (retval, user) := putUser call tmp
          ⟨retval, g, user⟩
        else ⟨retval, g, call.user⟩
  | .shiftQuantum =>
      let tmp := g.scullQuantum
      if ¬ call.capable then ⟨-EPERM, g, call.user⟩
      else ⟨tmp, { g with scullQuantum := int32 call.arg }, call.user⟩
  | .setQset =>
      if ¬ call.capable then ⟨-EPERM, g, call.user⟩
      else
        let (retval, value) := getUser call
        ⟨retval, { g with scullQsetN := value }, call.user⟩
  | .tellQset =>
      if ¬ call.capable then ⟨-EPERM, g, call.user⟩
      else ⟨0, { g with scullQsetN := int32 call.arg }, call.user⟩
  | .getQset =>
      let (retval, user) := putUser call g.scullQsetN
      ⟨retval, g, user⟩
  | .queryQset => ⟨g.scullQsetN, g, call.user⟩
  | .exchangeQset =>
      if ¬ call.capable then ⟨-EPERM, g, call.user⟩
      else
        let (retval, value) := getUser call
        let g := { g with scullQsetN := value }
        if retval = 0 then
          -- The quantum branch hands back the old value; this one the new value.
          let (retval, user) := putUser call g.scullQsetN
          ⟨retval, g, user⟩
        else ⟨retval, g, call.user⟩
  | .shiftQset =>
      let tmp := g.scullQsetN
      if ¬ call.capable then ⟨-EPERM, g, call.user⟩
      else ⟨tmp, { g with scullQsetN := int32 call.arg }, call.user⟩

def scullIoctl (g : Globals) (call : IoctlCall) : IoctlResult :=
  if iocType call.cmd ≠ SCULL_IOC_MAGIC then ⟨-ENOTTY, g, call.user⟩
  else if iocNr call.cmd > SCULL_IOC_MAXNR then ⟨-ENOTTY, g, call.user⟩
  else if ¬ call.accessOk then ⟨-EFAULT, g, call.user⟩
  else
    match Command.ofCode call.cmd with
    | some command => command.run g call
    | none => ⟨-ENOTTY, g, call.user⟩

def Setting (x : Int) : Prop := -2147483648 ≤ x ∧ x < 2147483648

theorem setting_int32 (x : Int) : Setting (int32 x) := int32_bounds x

theorem setting_default : Setting QUANTUM_SIZE ∧ Setting QSET_SIZE :=
  ⟨⟨by decide, by decide⟩, ⟨by decide, by decide⟩⟩

theorem setting_getUser (call : IoctlCall) : Setting (getUser call).2 := by
  unfold getUser
  cases call.user with
  | none => exact ⟨by decide, by decide⟩
  | some value => exact setting_int32 value

theorem scullIoctl_globals (g : Globals) (call : IoctlCall) :
    (scullIoctl g call).globals = g ∨
      (∃ x, Setting x ∧ (scullIoctl g call).globals = { g with scullQuantum := x }) ∨
      (∃ x, Setting x ∧ (scullIoctl g call).globals = { g with scullQsetN := x }) ∨
      (scullIoctl g call).globals =
        { g with scullQuantum := QUANTUM_SIZE, scullQsetN := QSET_SIZE } := by
  unfold scullIoctl
  split
  · exact .inl rfl
  split
  · exact .inl rfl
  split
  · exact .inl rfl
  cases Command.ofCode call.cmd with
  | none => exact .inl rfl
  | some command =>
    cases command with
    | reset => exact .inr (.inr (.inr rfl))
    | getQuantum => exact .inl rfl
    | queryQuantum => exact .inl rfl
    | getQset => exact .inl rfl
    | queryQset => exact .inl rfl
    | setQuantum =>
      dsimp only [Command.run]
      split
      · exact .inl rfl
      · exact .inr (.inl ⟨_, setting_getUser call, rfl⟩)
    | tellQuantum | shiftQuantum =>
      dsimp only [Command.run]
      split
      · exact .inl rfl
      · exact .inr (.inl ⟨_, setting_int32 _, rfl⟩)
    | setQset =>
      dsimp only [Command.run]
      split
      · exact .inl rfl
      · exact .inr (.inr (.inl ⟨_, setting_getUser call, rfl⟩))
    | tellQset | shiftQset =>
      dsimp only [Command.run]
      split
      · exact .inl rfl
      · exact .inr (.inr (.inl ⟨_, setting_int32 _, rfl⟩))
    | exchangeQuantum =>
      dsimp only [Command.run]
      split
      · exact .inl rfl
      split
      · exact .inr (.inl ⟨_, setting_getUser call, rfl⟩)
      · exact .inr (.inl ⟨_, setting_getUser call, rfl⟩)
    | exchangeQset =>
      dsimp only [Command.run]
      split
      · exact .inl rfl
      split
      · exact .inr (.inr (.inl ⟨_, setting_getUser call, rfl⟩))
      · exact .inr (.inr (.inl ⟨_, setting_getUser call, rfl⟩))

def Globals.Set (g : Globals) : Prop := Setting g.scullQuantum ∧ Setting g.scullQsetN

theorem scullIoctl_set {g : Globals} (h : g.Set) (call : IoctlCall) :
    (scullIoctl g call).globals.Set := by
  rcases scullIoctl_globals g call with hsame | ⟨x, hx, hquantum⟩ | ⟨x, hx, hqset⟩ | hreset
  · rw [hsame]
    exact h
  · rw [hquantum]
    exact ⟨hx, h.2⟩
  · rw [hqset]
    exact ⟨h.1, hx⟩
  · rw [hreset]
    exact setting_default

end MyDrivers.Store
