import MyDrivers.Lib.Runs
import MyDrivers.Store.Ioctl
import MyDrivers.Store.Reads
import MyDrivers.Store.Trim

/-! Runs of whole calls on one device of a module, each call completing before
the next. A label is a call with its reply, so a run is also a record of what
the callers saw. -/
namespace MyDrivers.Store
open Lib Lib.Machine

structure Session where
  globals : Globals
  dev : ScullDev
  deriving DecidableEq

inductive Call where
  | scullOpen (fFlags : Nat)
  | scullRead (count : Nat) (pos : Int) (env : Env)
  | scullWrite (buff : List Byte) (pos : Int) (env : Env)
  | scullIoctl (call : IoctlCall)

/-- The value returned, the position of the file afterwards (0 where the call
has none) and the bytes that moved. -/
structure Reply where
  ret : Int
  pos : Int
  bytes : List Byte
  deriving DecidableEq, Repr

def Call.run (s : Session) : Call → Traced Event (Session × Reply)
  | .scullOpen fFlags => do
      let dev ← Store.scullOpen s.globals s.dev fFlags
      return (⟨s.globals, dev⟩, ⟨0, 0, []⟩)
  | .scullRead count pos env => do
      let t ← Store.scullRead s.dev count pos env
      return (⟨s.globals, t.dev⟩, ⟨t.ret, t.pos, t.bytes⟩)
  | .scullWrite buff pos env => do
      let t ← Store.scullWrite s.globals s.dev buff pos env
      return (⟨s.globals, t.dev⟩, ⟨t.ret, t.pos, t.bytes⟩)
  | .scullIoctl call =>
      let r := Store.scullIoctl s.globals call
      return (⟨r.globals, s.dev⟩, ⟨r.ret, 0, []⟩)

def Env.calm : Env where
  interrupted := false
  supply := some
  junk := fun _ => 0
  accessible := 4294967296

theorem calm_full : Env.calm.supply.Full := fun _ => rfl

/-- The VFS passes no position outside `[0, 2 ^ 63)`. -/
def Call.Offered : Call → Prop
  | .scullRead _ pos _ => 0 ≤ pos ∧ pos < 9223372036854775808
  | .scullWrite _ pos _ => 0 ≤ pos ∧ pos < 9223372036854775808
  | .scullOpen _ => True
  | .scullIoctl _ => True

def Call.Trims : Call → Prop
  | .scullOpen fFlags => fFlags &&& O_ACCMODE = O_WRONLY
  | _ => False

instance : DecidablePred Call.Offered := fun call =>
  match call with
  | .scullOpen _ => .isTrue trivial
  | .scullRead _ _ _ => inferInstanceAs (Decidable (_ ∧ _))
  | .scullWrite _ _ _ => inferInstanceAs (Decidable (_ ∧ _))
  | .scullIoctl _ => .isTrue trivial

instance : DecidablePred Call.Trims := fun call =>
  match call with
  | .scullOpen fFlags => inferInstanceAs (Decidable (fFlags &&& O_ACCMODE = O_WRONLY))
  | .scullRead _ _ _ => .isFalse id
  | .scullWrite _ _ _ => .isFalse id
  | .scullIoctl _ => .isFalse id

def SettlesSound (s : Session) (done : Call × Reply) : Prop :=
  match done.1 with
  | .scullIoctl call =>
      let g := (Store.scullIoctl s.globals call).globals
      Sound g.scullQuantum g.scullQsetN
  | _ => True

def Step (s : Session) (done : Call × Reply) (t : Session) : Prop :=
  done.1.Offered ∧ (done.1.run s).result = some (t, done.2)

theorem step_deterministic : Deterministic Step := by
  rintro s done t u ⟨-, ht⟩ ⟨-, hu⟩
  rw [ht] at hu
  exact congrArg Prod.fst (Option.some.inj hu)

def Session.next (s : Session) (done : Call × Reply) : Option Session :=
  if done.1.Offered then
    (done.1.run s).result.bind fun r => if r.2 = done.2 then some r.1 else none
  else none

theorem step_next {s t : Session} {done : Call × Reply} (h : s.next done = some t) :
    Step s done t := by
  unfold Session.next at h
  split at h
  · next hoffered =>
    obtain ⟨r, hrun, hreply⟩ := Option.bind_eq_some_iff.mp h
    split at hreply
    · next hseen =>
      cases hreply
      exact ⟨hoffered, hrun.trans (congrArg (fun reply => some (r.1, reply)) hseen)⟩
    · cases hreply
  · cases h

def Session.init (g : Globals) (type : ScullType) (order : Nat) : Session :=
  ⟨g, scullInitDev g type order⟩

inductive Stepped (s : Session) : Call × Reply → Session → Prop
  | trim (fFlags : Nat) (reply : Reply) (flags : fFlags &&& O_ACCMODE = O_WRONLY) :
      Stepped s (.scullOpen fFlags, reply) ⟨s.globals, trimmed s.globals s.dev⟩
  | enter (fFlags : Nat) (reply : Reply) (flags : fFlags &&& O_ACCMODE ≠ O_WRONLY) :
      Stepped s (.scullOpen fFlags, reply) s
  | read (count : Nat) (pos : Int) (env : Env) (t : Transfer)
      (returned : (scullRead s.dev count pos env).result = some t) :
      Stepped s (.scullRead count pos env, ⟨t.ret, t.pos, t.bytes⟩) ⟨s.globals, t.dev⟩
  | write (buff : List Byte) (pos : Int) (env : Env) (t : Transfer)
      (returned : (scullWrite s.globals s.dev buff pos env).result = some t) :
      Stepped s (.scullWrite buff pos env, ⟨t.ret, t.pos, t.bytes⟩) ⟨s.globals, t.dev⟩
  | ioctl (call : IoctlCall) (reply : Reply) :
      Stepped s (.scullIoctl call, reply) ⟨(scullIoctl s.globals call).globals, s.dev⟩

theorem step_cases {s t : Session} {done : Call × Reply} (h : Step s done t) :
    Stepped s done t := by
  obtain ⟨call, reply⟩ := done
  obtain ⟨-, h⟩ := h
  cases call with
  | scullOpen fFlags =>
    simp only [Call.run, Traced.result_bind, Store.scullOpen] at h
    obtain ⟨dev, hdev, hreply⟩ := Option.bind_eq_some_iff.mp h
    cases hreply
    split at hdev
    · next hflags =>
      cases scullTrim_returns _ _ dev hdev
      exact .trim fFlags _ hflags
    · next hflags =>
      cases hdev
      exact .enter fFlags _ hflags
  | scullRead count pos env =>
    simp only [Call.run, Traced.result_bind] at h
    obtain ⟨transfer, htransfer, hreply⟩ := Option.bind_eq_some_iff.mp h
    cases hreply
    exact .read count pos env transfer htransfer
  | scullWrite buff pos env =>
    simp only [Call.run, Traced.result_bind] at h
    obtain ⟨transfer, htransfer, hreply⟩ := Option.bind_eq_some_iff.mp h
    cases hreply
    exact .write buff pos env transfer htransfer
  | scullIoctl call =>
    cases h
    exact .ioctl call _

theorem size_lt {g : Globals} {type : ScullType} {order : Nat} {labels : List (Call × Reply)}
    {t : Session} (run : Run Step (.init g type order) labels t) :
    t.dev.size < 9223372036854775808 := by
  refine run.invariant (fun _ s => s.dev.size < 9223372036854775808)
    (by simp [Session.init, scullInitDev]) ?_
  intro labels s done t _ hsize hstep
  cases step_cases hstep with
  | trim => simp [trimmed]
  | enter => exact hsize
  | read count pos env transfer returned =>
    rw [((scullRead_effect _ _ _ _) transfer returned).1]
    exact hsize
  | write buff pos env transfer returned =>
    cases (scullWrite_effect _ _ _ _ _ transfer returned).2 with
    | completed addr _ _ size _ =>
      rw [size]
      exact (int64_bounds _).2
    | failed _ _ size _ =>
      rw [size]
      exact hsize
  | ioctl => exact hsize

theorem blockSize_scullIoctl (g : Globals) (call : IoctlCall) (dev : ScullDev) :
    blockSize (scullIoctl g call).globals dev = blockSize g dev := by
  unfold blockSize
  rcases scullIoctl_globals g call with h | ⟨x, -, h⟩ | ⟨x, -, h⟩ | h <;> rw [h]

end MyDrivers.Store
