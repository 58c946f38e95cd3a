import Mathlib.Logic.Function.Basic
import MyDrivers.Lib.Semaphore
import MyDrivers.Pipe.Sections

/-! The calls on one pipe device, step by step, by any number of processes. A
step takes or releases the semaphore, runs the code between the two, or does one
thing outside of them: test a flag, look at the pointers, join a wait queue,
sleep, wake a queue. -/
namespace MyDrivers.Pipe
open Lib Lib.Machine
open Store (Byte EAGAIN ENOMEM EFAULT ERESTARTSYS O_NONBLOCK)

def POLLIN : Nat := 0x1
def POLLOUT : Nat := 0x4
def POLLRDNORM : Nat := 0x40
def POLLWRNORM : Nat := 0x100

inductive WaitQueue where
  | inq
  | outq
  deriving DecidableEq, Repr

inductive Call where
  | scullPOpen (mode : FMode)
  | scullPRelease (mode : FMode)
  | scullPRead (fFlags count : Nat)
  | scullPWrite (fFlags : Nat) (buff : List Byte)
  | scullPPoll
  deriving DecidableEq, Repr

/-- What a call does once it has released the semaphore. -/
inductive After where
  /-- It found the pipe empty or full. -/
  | flags
  | wake (ret : Int)
  | return (ret : Int)
  deriving DecidableEq, Repr

inductive Pc where
  | returned (ret : Int)
  /-- In `down_interruptible`. -/
  | down
  /-- It holds the semaphore. -/
  | locked
  /-- It still holds the semaphore and has nothing left to do with it. -/
  | up (after : After)
  | flags
  /-- The condition of `wait_event_interruptible`, before the queue is joined. -/
  | test
  | prepareToWait
  /-- The condition, once the queue is joined. -/
  | evaluate
  | asleep
  | finishWait
  | wake (ret : Int)
  /-- `scull_p_poll` after a wait that was interrupted. -/
  | pollWait
  /-- Its `up`. -/
  | pollUp (mask : Int)
  deriving DecidableEq, Repr

structure Process where
  call : Call
  pc : Pc
  /-- The waits for the semaphore that succeeded during the call, and its `up`s. -/
  downs : Nat
  ups : Nat
  queue : Option WaitQueue
  /-- Woken since it joined the queue last. -/
  awake : Bool
  /-- The queues `poll_wait` was called with. -/
  polled : List WaitQueue

/-- What the kernel and the user decide in one step. -/
structure Choice (size : Nat) where
  interrupted : Bool
  signal : Bool
  accessible : Nat
  kmalloc : Option (Fresh size)

structure World (ι : Type) where
  pipe : Backed
  sem : Nat
  processes : ι → Process

variable {size : Nat}

/-! ## The code of one process -/

def pollMask (dev : ScullPipe) : Nat :=
  (if spacefree dev ≠ 0 then POLLOUT ||| POLLWRNORM else 0) |||
    (if dev.rp ≠ dev.wp then POLLIN ||| POLLRDNORM else 0)

/-- After a `down_interruptible` that got the semaphore. `scull_p_poll` takes
its 0 for a failure and returns. -/
def Call.taken : Call → Pc
  | .scullPPoll => .returned 0
  | _ => .locked

def Call.interrupted : Call → Pc
  | .scullPPoll => .pollWait
  | _ => .returned (-ERESTARTSYS)

/-- How a call goes on that has copied: a copy that fell short ends it at once. -/
def After.copied (short : Bool) (reply : Reply) : After :=
  let ret := reply.ret.getD 0
  if short then .return ret else .wake ret

def Call.locked (choice : Choice size) (pipe : Backed) : Call → Option (After × Backed)
  | .scullPOpen mode =>
      let (reply, pipe) := scullPOpenLocked mode choice.kmalloc pipe
      some (.return (reply.ret.getD 0), pipe)
  | .scullPRelease mode =>
      let (reply, pipe) := scullPReleaseLocked mode pipe
      some (.return (reply.ret.getD 0), pipe)
  | .scullPRead _ count =>
      if pipe.dev.rp = pipe.dev.wp then some (.flags, pipe)
      else
        let short := choice.accessible < readCount pipe.dev count
        let (reply, pipe) := scullPReadLocked count choice.accessible pipe
        some (.copied short reply, pipe)
  | .scullPWrite _ buff =>
      if spacefree pipe.dev = 0 then some (.flags, pipe)
      else
        let short := choice.accessible < writeCount pipe.dev buff.length
        let (reply, pipe) := scullPWriteLocked buff choice.accessible pipe
        some (.copied short reply, pipe)
  | .scullPPoll => none

def After.pc : After → Pc
  | .flags => .flags
  | .wake ret => .wake ret
  | .return ret => .returned ret

/-- The tests of `filp->f_flags`, and where a call that may block goes: a read
enters `wait_event_interruptible`, a write joins its queue at once. -/
def Call.flags : Call → Option Pc
  | .scullPRead fFlags _ => some (if fFlags = O_NONBLOCK then .returned (-EAGAIN) else .test)
  | .scullPWrite fFlags _ =>
      some (if fFlags &&& O_NONBLOCK ≠ 0 then .returned (-EAGAIN) else .prepareToWait)
  | _ => none

def Call.waitsOn : Call → Option WaitQueue
  | .scullPRead _ _ => some .inq
  | .scullPWrite _ _ => some .outq
  | _ => none

def Call.wakes : Call → Option WaitQueue
  | .scullPRead _ _ => some .outq
  | .scullPWrite _ _ => some .inq
  | _ => none

def WaitQueue.ready (dev : ScullPipe) : WaitQueue → Prop
  | .inq => dev.rp ≠ dev.wp
  | .outq => spacefree dev ≠ 0

/-- The condition a queued process looks at without the semaphore. -/
def Process.evaluate (signal : Bool) (dev : ScullPipe) (p : Process) : Option Process :=
  match p.call with
  | .scullPRead _ _ =>
      if dev.rp ≠ dev.wp then some { p with pc := .down, queue := none }
      else if signal then some { p with pc := .returned (-ERESTARTSYS), queue := none }
      else some { p with pc := .asleep }
  | .scullPWrite _ _ =>
      if spacefree dev = 0 then some { p with pc := .asleep }
      else some { p with pc := .finishWait }
  | _ => none

/-- `schedule` returns: `wait_event_interruptible` starts over, a write goes on. -/
def Call.rouse : Call → Option Pc
  | .scullPRead _ _ => some .prepareToWait
  | .scullPWrite _ _ => some .finishWait
  | _ => none

/-- One step of a process that is in a call: the memory, the semaphore and the
process afterwards. There is none while the process cannot go on. -/
def Process.step (choice : Choice size) (pipe : Backed) (sem : Nat) (p : Process) :
    Option (Backed × Nat × Process) :=
  match p.pc with
  | .returned _ => none
  | .down =>
      if choice.interrupted then some (pipe, sem, { p with pc := p.call.interrupted })
      else if sem = 0 then none
      else some (pipe, sem - 1, { p with pc := p.call.taken, downs := p.downs + 1 })
  | .locked =>
      (p.call.locked choice pipe).map fun (after, pipe) => (pipe, sem, { p with pc := .up after })
  | .up after => some (pipe, sem + 1, { p with pc := after.pc, ups := p.ups + 1 })
  | .flags => p.call.flags.map fun pc => (pipe, sem, { p with pc := pc })
  | .test =>
      some (pipe, sem,
        { p with pc := if pipe.dev.rp ≠ pipe.dev.wp then .down else .prepareToWait })
  | .prepareToWait =>
      some (pipe, sem, { p with pc := .evaluate, queue := p.call.waitsOn, awake := false })
  | .evaluate => (p.evaluate choice.signal pipe.dev).map fun p => (pipe, sem, p)
  | .asleep =>
      if p.awake || choice.signal then
        p.call.rouse.map fun pc => (pipe, sem, { p with pc := pc })
      else none
  | .finishWait =>
      some (pipe, sem,
        { p with pc := if choice.signal then .returned (-ERESTARTSYS) else .down, queue := none })
  | .wake ret => some (pipe, sem, { p with pc := .returned ret })
  | .pollWait =>
      some (pipe, sem, { p with pc := .pollUp (pollMask pipe.dev), polled := [.inq, .outq] })
  | .pollUp mask => some (pipe, sem + 1, { p with pc := .returned mask, ups := p.ups + 1 })

/-! ## All processes -/

/-- `wake_up_interruptible`: a process that is woken leaves the queue. -/
def Process.woken (queue : Option WaitQueue) (p : Process) : Process :=
  if p.queue.isSome ∧ p.queue = queue then { p with queue := none, awake := true } else p

def Process.waking (p : Process) : Option WaitQueue :=
  match p.pc with
  | .wake _ => p.call.wakes
  | _ => none

inductive Action (size : Nat) where
  | start (call : Call)
  | go (choice : Choice size)

def Process.start (call : Call) : Process := ⟨call, .down, 0, 0, none, false, []⟩

variable {ι : Type} [DecidableEq ι]

def World.step (w : World ι) (i : ι) : Action size → Option (World ι)
  | .start call =>
      match (w.processes i).pc with
      | .returned _ => some { w with processes := Function.update w.processes i (.start call) }
      | _ => none
  | .go choice =>
      ((w.processes i).step choice w.pipe w.sem).map fun (pipe, sem, p) =>
        ⟨pipe, sem,
          Function.update (fun j => (w.processes j).woken (w.processes i).waking) i p⟩

def Moves (w : World ι) (label : ι × Action size) (w' : World ι) : Prop :=
  w.step label.1 label.2 = some w'

def World.after (w : World ι) (label : ι × Action size) : World ι :=
  (w.step label.1 label.2).getD w

theorem moves_after {w : World ι} {label : ι × Action size}
    (possible : (w.step label.1 label.2).isSome = true) : Moves w label (w.after label) := by
  obtain ⟨w', hw'⟩ := Option.isSome_iff_exists.mp possible
  simp [Moves, World.after, hw']

def World.steps (w : World ι) (labels : List (ι × Action size)) : Option (World ι) :=
  labels.foldlM (fun (w : World ι) label => w.step label.1 label.2) w

theorem run_steps {w : World ι} {labels : List (ι × Action size)}
    (possible : (w.steps labels).isSome = true) : Run Moves w labels ((w.steps labels).getD w) :=
  Run.of_possible possible

theorem moves_deterministic : Deterministic (@Moves size ι _) := by
  intro w label t u ht hu
  unfold Moves at ht hu
  rw [ht] at hu
  exact Option.some.inj hu

def World.init (size : Nat) (mem : Nat → Byte) : World ι :=
  ⟨⟨scullPInitDev size, mem⟩, 1, fun _ => ⟨.scullPPoll, .returned 0, 0, 0, none, false, []⟩⟩

/-! ## What one step can do -/

theorem flags_cases {call : Call} {next : Pc} (h : call.flags = some next) :
    (∃ ret, next = .returned ret) ∨ next = .test ∨ next = .prepareToWait := by
  cases call with
  | scullPRead fFlags count =>
    simp only [Call.flags, Option.some.injEq] at h
    rw [← h]
    split <;> simp
  | scullPWrite fFlags buff =>
    simp only [Call.flags, Option.some.injEq] at h
    rw [← h]
    split <;> simp
  | scullPOpen mode => cases h
  | scullPRelease mode => cases h
  | scullPPoll => cases h

theorem rouse_cases {call : Call} {next : Pc} (h : call.rouse = some next) :
    next = .prepareToWait ∨ next = .finishWait := by
  cases call with
  | scullPRead fFlags count =>
    cases h
    exact .inl rfl
  | scullPWrite fFlags buff =>
    cases h
    exact .inr rfl
  | scullPOpen mode => cases h
  | scullPRelease mode => cases h
  | scullPPoll => cases h

inductive Process.Evaluated (dev : ScullPipe) (p : Process) : Process → Prop
  | on (next : Pc) (queue : Option WaitQueue)
      (place : next = .down ∨ next = .finishWait ∨ ∃ ret, next = .returned ret) :
      Evaluated dev p { p with pc := next, queue := queue }
  | sleeps (queue : WaitQueue) (waits : p.call.waitsOn = some queue)
      (blocked : ¬ queue.ready dev) : Evaluated dev p { p with pc := .asleep }

theorem evaluate_cases {signal : Bool} {dev : ScullPipe} {p p' : Process}
    (ran : p.evaluate signal dev = some p') : p.Evaluated dev p' := by
  unfold Process.evaluate at ran
  split at ran
  · next fFlags count hcall =>
    split at ran
    · cases ran
      exact .on .down none (.inl rfl)
    · next hempty =>
      split at ran
      · cases ran
        exact .on _ none (.inr (.inr ⟨_, rfl⟩))
      · cases ran
        exact .sleeps .inq (by rw [hcall]; rfl) hempty
  · next fFlags buff hcall =>
    split at ran
    · next hfull =>
      cases ran
      exact .sleeps .outq (by rw [hcall]; rfl) fun hready => hready hfull
    · cases ran
      exact .on .finishWait p.queue (.inr (.inl rfl))
  · cases ran

theorem copied_ne_flags (short : Bool) (reply : Reply) : After.copied short reply ≠ .flags := by
  unfold After.copied
  dsimp only
  split <;> simp

inductive Process.Went (choice : Choice size) (pipe : Backed) (sem : Nat) (p : Process) :
    Backed → Nat → Process → Prop
  | interrupted (pc : p.pc = .down) (signal : choice.interrupted = true) :
      Went choice pipe sem p pipe sem { p with pc := p.call.interrupted }
  | taken (pc : p.pc = .down) (calm : choice.interrupted = false) (free : sem ≠ 0) :
      Went choice pipe sem p pipe (sem - 1)
        { p with pc := p.call.taken, downs := p.downs + 1 }
  | locked (pc : p.pc = .locked) (after : After) (pipe' : Backed)
      (ran : p.call.locked choice pipe = some (after, pipe')) :
      Went choice pipe sem p pipe' sem { p with pc := .up after }
  | up (after : After) (pc : p.pc = .up after) :
      Went choice pipe sem p pipe (sem + 1) { p with pc := after.pc, ups := p.ups + 1 }
  | flags (pc : p.pc = .flags) (next : Pc) (ran : p.call.flags = some next) :
      Went choice pipe sem p pipe sem { p with pc := next }
  | test (pc : p.pc = .test) :
      Went choice pipe sem p pipe sem
        { p with pc := if pipe.dev.rp ≠ pipe.dev.wp then .down else .prepareToWait }
  | prepareToWait (pc : p.pc = .prepareToWait) :
      Went choice pipe sem p pipe sem
        { p with pc := .evaluate, queue := p.call.waitsOn, awake := false }
  | evaluate (pc : p.pc = .evaluate) (p' : Process)
      (ran : p.evaluate choice.signal pipe.dev = some p') : Went choice pipe sem p pipe sem p'
  | asleep (pc : p.pc = .asleep) (next : Pc) (roused : (p.awake || choice.signal) = true)
      (ran : p.call.rouse = some next) : Went choice pipe sem p pipe sem { p with pc := next }
  | finishWait (pc : p.pc = .finishWait) :
      Went choice pipe sem p pipe sem
        { p with pc := if choice.signal then .returned (-ERESTARTSYS) else .down, queue := none }
  | wake (ret : Int) (pc : p.pc = .wake ret) :
      Went choice pipe sem p pipe sem { p with pc := .returned ret }
  | pollWait (pc : p.pc = .pollWait) :
      Went choice pipe sem p pipe sem
        { p with pc := .pollUp (pollMask pipe.dev), polled := [.inq, .outq] }
  | pollUp (mask : Int) (pc : p.pc = .pollUp mask) :
      Went choice pipe sem p pipe (sem + 1) { p with pc := .returned mask, ups := p.ups + 1 }

theorem step_went {choice : Choice size} {pipe pipe' : Backed} {sem sem' : Nat}
    {p p' : Process} (h : p.step choice pipe sem = some (pipe', sem', p')) :
    p.Went choice pipe sem pipe' sem' p' := by
  unfold Process.step at h
  cases hpc : p.pc with
  | returned ret =>
    rw [hpc] at h
    cases h
  | down =>
    simp only [hpc] at h
    by_cases hsignal : choice.interrupted = true
    · rw [if_pos hsignal] at h
      cases h
      exact .interrupted hpc hsignal
    · rw [if_neg hsignal] at h
      by_cases hsem : sem = 0
      · rw [if_pos hsem] at h
        cases h
      · rw [if_neg hsem] at h
        cases h
        exact .taken hpc (Bool.eq_false_iff.mpr hsignal) hsem
  | locked =>
    simp only [hpc, Option.map_eq_some_iff] at h
    obtain ⟨⟨after, pipe''⟩, ran, hresult⟩ := h
    cases hresult
    exact .locked hpc after _ ran
  | up after =>
    simp only [hpc] at h
    cases h
    exact .up after hpc
  | flags =>
    simp only [hpc, Option.map_eq_some_iff] at h
    obtain ⟨next, ran, hresult⟩ := h
    cases hresult
    exact .flags hpc next ran
  | test =>
    simp only [hpc] at h
    cases h
    exact .test hpc
  | prepareToWait =>
    simp only [hpc] at h
    cases h
    exact .prepareToWait hpc
  | evaluate =>
    simp only [hpc, Option.map_eq_some_iff] at h
    obtain ⟨q, ran, hresult⟩ := h
    cases hresult
    exact .evaluate hpc _ ran
  | asleep =>
    simp only [hpc] at h
    by_cases hroused : (p.awake || choice.signal) = true
    · rw [if_pos hroused] at h
      obtain ⟨next, ran, hresult⟩ := Option.map_eq_some_iff.mp h
      cases hresult
      exact .asleep hpc next hroused ran
    · rw [if_neg hroused] at h
      cases h
  | finishWait =>
    simp only [hpc] at h
    cases h
    exact .finishWait hpc
  | wake ret =>
    simp only [hpc] at h
    cases h
    exact .wake ret hpc
  | pollWait =>
    simp only [hpc] at h
    cases h
    exact .pollWait hpc
  | pollUp mask =>
    simp only [hpc] at h
    cases h
    exact .pollUp mask hpc

inductive Moved (w : World ι) : ι × Action size → World ι → Prop
  | started (i : ι) (call : Call) (ret : Int) (idle : (w.processes i).pc = .returned ret) :
      Moved w (i, .start call)
        { w with processes := Function.update w.processes i (.start call) }
  | went (i : ι) (choice : Choice size) (pipe' : Backed) (sem' : Nat) (p' : Process)
      (step : (w.processes i).Went choice w.pipe w.sem pipe' sem' p') :
      Moved w (i, .go choice)
        ⟨pipe', sem',
          Function.update (fun j => (w.processes j).woken (w.processes i).waking) i p'⟩

theorem moves_cases {w w' : World ι} {label : ι × Action size} (h : Moves w label w') :
    Moved w label w' := by
  obtain ⟨i, action⟩ := label
  cases action with
  | start call =>
    simp only [Moves, World.step] at h
    split at h
    · next ret idle =>
      cases h
      exact .started i call ret idle
    · cases h
  | go choice =>
    simp only [Moves, World.step, Option.map_eq_some_iff] at h
    obtain ⟨⟨pipe', sem', p'⟩, hstep, hresult⟩ := h
    cases hresult
    exact .went i choice pipe' sem' p' (step_went hstep)

/-! ## The memory -/

/-- What a call does between `down` and `up` is one of the sections. -/
theorem locked_section {choice : Choice size} {pipe pipe' : Backed} {call : Call} {after : After}
    (h : call.locked choice pipe = some (after, pipe')) (files : List FMode) :
    ∃ sec : Section size, (sec.run ⟨pipe, files⟩).2.pipe = pipe' := by
  cases call with
  | scullPOpen mode =>
    refine ⟨.scullPOpen mode false choice.kmalloc, ?_⟩
    simp only [Call.locked, Option.some.injEq, Prod.mk.injEq] at h
    exact h.2
  | scullPRelease mode =>
    refine ⟨.scullPRelease mode false, ?_⟩
    simp only [Call.locked, Option.some.injEq, Prod.mk.injEq] at h
    exact h.2
  | scullPRead fFlags count =>
    refine ⟨.scullPRead fFlags count false choice.accessible, ?_⟩
    simp only [Call.locked] at h
    simp only [Section.run, scullPRead, Bool.false_eq_true, if_false]
    split at h
    · next hempty =>
      cases h
      rw [if_pos hempty]
      split <;> rfl
    · next hdata =>
      rw [if_neg hdata]
      simp only [Option.some.injEq, Prod.mk.injEq] at h
      exact h.2
  | scullPWrite fFlags buff =>
    refine ⟨.scullPWrite fFlags buff false choice.accessible, ?_⟩
    simp only [Call.locked] at h
    simp only [Section.run, scullPWrite, Bool.false_eq_true, if_false]
    split at h
    · next hfull =>
      cases h
      rw [if_pos hfull]
      split <;> rfl
    · next hspace =>
      rw [if_neg hspace]
      simp only [Option.some.injEq, Prod.mk.injEq] at h
      exact h.2
  | scullPPoll => cases h

/-- Each step of the processes leaves the device alone or does to it what one
section does. -/
theorem moves_section {w w' : World ι} {label : ι × Action size} (h : Moves w label w')
    (files : List FMode) :
    w'.pipe = w.pipe ∨ ∃ sec : Section size, (sec.run ⟨w.pipe, files⟩).2.pipe = w'.pipe := by
  cases moves_cases h with
  | started i call ret idle => exact .inl rfl
  | went i choice pipe' sem' p' step =>
    cases step with
    | locked pc after pipe' ran => exact .inr (locked_section ran files)
    | _ => exact .inl rfl

@[simp] theorem woken_pc (queue : Option WaitQueue) (p : Process) :
    (p.woken queue).pc = p.pc := by
  unfold Process.woken
  split <;> rfl

@[simp] theorem woken_call (queue : Option WaitQueue) (p : Process) :
    (p.woken queue).call = p.call := by
  unfold Process.woken
  split <;> rfl

@[simp] theorem woken_downs (queue : Option WaitQueue) (p : Process) :
    (p.woken queue).downs = p.downs := by
  unfold Process.woken
  split <;> rfl

@[simp] theorem woken_ups (queue : Option WaitQueue) (p : Process) :
    (p.woken queue).ups = p.ups := by
  unfold Process.woken
  split <;> rfl

end MyDrivers.Pipe
