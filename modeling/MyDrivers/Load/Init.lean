import MyDrivers.Access.Copy
import MyDrivers.Access.Ownership
import MyDrivers.Pipe.Sections
import MyDrivers.Store.Objects

/-! `scull_init` of the modules `scull`, `scullc` and `scullp`, with the two
initialisers that `scull` calls at its end. Every call to the kernel gives an answer
that the model takes as a parameter; what it acquires and releases is an entry of a
ledger. -/
namespace MyDrivers.Load
open Lib
open Store (Addr Byte Globals ScullDev ScullType scullInitDev)

inductive Resource where
  /-- `count` device numbers from `first` on. -/
  | region (first count : Nat)
  /-- The `cdev` of an element of a device array. -/
  | cdev (array : Addr) (index : Nat)
  /-- The `cdev` of `scull_adev_infos[index].adev`. -/
  | accessCdev (index : Nat)
  | array (addr : Addr)
  | cache
  | buffer (addr : Addr)
  | object (object : Store.Object)
  deriving DecidableEq

/-- A computation with the entries it makes in the ledger. -/
abbrev Booking := Traced (Entry Resource)

def acquire (key : Resource) : Booking Unit := Traced.emit (.acquire key)

def release (key : Resource) : Booking Unit := Traced.emit (.release key)

/-- A pointer variable: what it points to may have been freed. -/
inductive Pointer (α : Type) where
  | null
  | dangling (addr : Addr)
  | live (addr : Addr) (target : α)

def MKDEV (major minor : Nat) : Nat := major <<< 20 ||| minor

def MAJOR (dev : Nat) : Nat := dev >>> 20

def MINOR (dev : Nat) : Nat := dev &&& 1048575

/-- What the kernel answers to an initialiser that allocates its devices: the result
of the region call, the number `alloc_chrdev_region` chose, the memory from `kmalloc`
and the result of each `cdev_add`. -/
structure Answers where
  region : Int
  dev : Nat
  kmalloc : Option Addr
  cdevAdd : Nat → Int

/-! ## The cdevs -/

def setupCdev (key : Resource) (res : Int) : Booking Bool :=
  if res < 0 then pure false
  else do
    acquire key
    return true

def scullSetupCdev (array : Addr) (index : Nat) (res : Int) : Booking Bool :=
  setupCdev (.cdev array index) res

def scullPSetupCdev (array : Addr) (index : Nat) (res : Int) : Booking Bool :=
  setupCdev (.cdev array index) res

def scullAccessSetupCdev (index : Nat) (res : Int) : Booking Bool :=
  setupCdev (.accessCdev index) res

/-- The loop over the devices; it stops at the first one that is not set up. -/
def setupLoop (setup : Nat → Booking Bool) : List Nat → Booking Bool
  | [] => pure true
  | i :: rest => do
      let added ← setup i
      if added then setupLoop setup rest else return false

/-! ## Regions and device arrays -/

/-- From the label `fail_malloc` on. -/
def failMalloc (first count : Nat) (res : Int) : Booking Int := do
  release (.region first count)
  return res

/-- From the label `fail_cdev` (in `scullc` and `scullp` also `fail_cache`) on. -/
def failCdev (array : Addr) (first count : Nat) (res : Int) : Booking Int := do
  release (.array array)
  failMalloc first count res

/-- What `scull_init` and `scull_p_init` have in common: the region, the array of
`count` devices, the loop, and a stage after the loop that may fail too. -/
def initDevices {α β : Type} (setup : Addr → Nat → Booking Bool) (stage : Booking (Option β))
    (first count : Nat) (answers : Answers) (devices : α) :
    Booking (Int × Pointer α × Option β) :=
  if answers.region < 0 then pure (answers.region, .null, none)
  else do
    acquire (.region first count)
    match answers.kmalloc with
    | none => do
        let res ← failMalloc first count answers.region
        return (res, .null, none)
    | some array => do
        acquire (.array array)
        let added ← setupLoop (setup array) (List.range count)
        if added then do
          let finished ← stage
          match finished with
          | some b => return (0, .live array devices, some b)
          | none => do
              let res ← failCdev array first count answers.region
              return (res, .dangling array, none)
        else do
          let res ← failCdev array first count answers.region
          return (res, .dangling array, none)

/-! ## scull_p_init -/

structure PipeVars where
  scullPDevno : Nat
  scullPDevices : Pointer (List Pipe.Session)

def scullPInit (size scullPNrDevs : Nat) (mem : Nat → Byte) (answers : Answers) :
    Booking (Int × PipeVars) := do
  let (res, scullPDevices, _) ←
    initDevices (fun array i => scullPSetupCdev array i (answers.cdevAdd i)) (pure (some ()))
      answers.dev scullPNrDevs answers (List.replicate scullPNrDevs (.init size mem))
  return (res, ⟨if answers.region < 0 then 0 else answers.dev, scullPDevices⟩)

/-! ## scull_access_init -/

/-- The answers for the entries of `scull_adev_infos`. -/
structure AccessAnswers where
  region : Nat → Int
  dev : Nat → Nat
  cdevAdd : Nat → Int

/-- The loop, with the entries it got to; it does not look at what
`scull_access_setup_cdev` returns and undoes nothing. -/
def accessLoop (answers : AccessAnswers) : List Nat → Booking (Int × List Nat)
  | [] => pure (0, [])
  | i :: rest =>
      if answers.region i < 0 then pure (answers.region i, [])
      else do
        acquire (.region (answers.dev i) 1)
        let _ ← scullAccessSetupCdev i (answers.cdevAdd i)
        let (res, done) ← accessLoop answers rest
        return (res, i :: done)

def scullAccessNrDevs : Nat := 4

/-- The variables of `access.c` that belong to the entries of `scull_adev_infos`. -/
structure AccessVars where
  scullAccessDevno : Nat → Nat
  adev : Nat → ScullDev

def scullAccessInit (g : Globals) (answers : AccessAnswers) : Booking (Int × AccessVars) := do
  let (res, done) ← accessLoop answers (List.range scullAccessNrDevs)
  return (res,
    ⟨fun i => if i ∈ done then answers.dev i else 0,
      fun i => if i ∈ done then scullInitDev g .basic 0 else Access.Copy.zeroedDev⟩)

/-! ## scull_init -/

/-- What the kernel answers while a module is loaded; `scull` has no cache, and only
`scull` has pipes and access devices. -/
structure LoadAnswers where
  main : Answers
  created : Bool
  pipes : Answers
  access : AccessAnswers

structure Parameters where
  globals : Globals
  order : Nat
  scullMajor : Nat
  scullNrDevs : Nat
  scullPNrDevs : Nat
  scullPBuffer : Nat
  mem : Nat → Byte

/-- What follows the loop: the cache, or in `scull` the two initialisers, whose
results are not looked at. -/
def initStage (type : ScullType) (p : Parameters) (answers : LoadAnswers) :
    Booking (Option (Option (PipeVars × AccessVars))) :=
  match type with
  | .basic => do
      let (_, pipes) ← scullPInit p.scullPBuffer p.scullPNrDevs p.mem answers.pipes
      let (_, access) ← scullAccessInit p.globals answers.access
      return some (some (pipes, access))
  | .c | .p =>
      if answers.created then do
        acquire .cache
        return some none
      else pure none

/-- The variables of `main.c`; `scull_minor` is 0 until a region is allocated. -/
structure MainVars where
  scullMajor : Nat
  scullMinor : Nat
  scullDevices : Pointer (List ScullDev)

/-- The variable `dev` of `scull_init` once the region call has returned. -/
def regionOf (scullMajor : Nat) (answers : Answers) : Nat :=
  if scullMajor = 0 ∧ 0 ≤ answers.region then answers.dev else MKDEV scullMajor 0

def scullInit (type : ScullType) (p : Parameters) (answers : LoadAnswers) :
    Booking (Int × MainVars × Option (PipeVars × AccessVars)) := do
  let dev := regionOf p.scullMajor answers.main
  let (res, scullDevices, subs) ←
    initDevices (fun array i => scullSetupCdev array i (answers.main.cdevAdd i))
      (initStage type p answers) dev p.scullNrDevs answers.main
      (List.replicate p.scullNrDevs (scullInitDev p.globals type p.order))
  return (res,
    if p.scullMajor = 0 then ⟨MAJOR dev, MINOR dev, scullDevices⟩
    else ⟨p.scullMajor, 0, scullDevices⟩, subs.join)

end MyDrivers.Load
