import Mathlib.Logic.Function.Basic
import MyDrivers.Lib.Runs
import MyDrivers.Misc.Jiq

/-! Any number of reads of `jiqwq` and `jiqwqdelay` at once, with the works they schedule
and with signals. All of them go through the one `cdata`. -/
namespace MyDrivers.Misc
open Lib Lib.Machine
open Store (EFAULT)

/-- Where a read is in `jiq_wq`: `set` once the fields of `cdata` are set, `waiting` after
`prepare_to_wait`, `scheduled` until `schedule` returns and `finished` after
`finish_wait`. -/
inductive Pc where
  | entry
  | allocated
  | set
  | waiting
  | scheduled
  | resumed
  | finished
  | measured (len : Int)
  | copied (ret pos : Int)
  | returned (ret pos : Int)
  deriving DecidableEq

/-- A read. `interruptible` is the state of its task, `base` the address of its `sbuf`
and `written` the bytes that were written there. -/
structure Reader where
  param : JiqFiles
  request : Request
  pc : Pc
  interruptible : Bool
  base : Int
  live : Bool
  written : Nat

structure Queued where
  file : JiqFiles
  reader : Nat
  deriving DecidableEq

/-- A callback that has printed, and whether `jiq_print` left it loops. -/
structure Running where
  work : Queued
  again : Bool
  deriving DecidableEq

/-- `cdata` and what it is entangled with. The buffer with number `r` is the one that
read `r` allocates. -/
structure World where
  cdata : ClientData
  waiters : List Nat
  pending : JiqFiles → Bool
  queued : List Queued
  running : List Running
  readers : Nat → Reader

namespace World

def modify (w : World) (r : Nat) (f : Reader → Reader) : World :=
  { w with readers := Function.update w.readers r (f (w.readers r)) }

def address (w : World) (p : Pointer) : Int := (w.readers p.object).base + p.offset

/-- `schedule_work` or `schedule_delayed_work`. -/
def scheduleWork (w : World) (work : Queued) : World :=
  if w.pending work.file then w
  else
    { w with
      pending := Function.update w.pending work.file true
      queued := work :: w.queued }

/-- `wake_up_interruptible(&data->wq)`: who was asleep leaves the queue. -/
def wakeUp (w : World) : World :=
  { w with
    waiters := w.waiters.filter fun r => !(w.readers r).interruptible
    readers := fun r =>
      if r ∈ w.waiters then { w.readers r with interruptible := false } else w.readers r }

/-- Simplified: `INIT_WORK` of a work that is still queued breaks the list it is on, and here it
forgets only that the work is pending. -/
def setFields (w : World) (r : Nat) (jiffies : UInt64) : World :=
  let (cdata, text) := jiqSet (w.readers r).param jiffies r
  { w with cdata, waiters := [], pending := fun _ => false }.modify r fun reader =>
    { reader with pc := .set, written := text.length }

def print (w : World) (work : Queued) (seen : Seen) : World :=
  let (cdata, text) := jiqPrint w.cdata seen
  { w with
    cdata
    pending := Function.update w.pending work.file false
    queued := w.queued.erase work
    running := ⟨work, cdata.leftLoops ≠ 0⟩ :: w.running }.modify w.cdata.buf.object
      fun reader => { reader with written := reader.written + text.length }

def finish (w : World) (callback : Running) : World :=
  let w := { w with running := w.running.erase callback }
  if callback.again then w.scheduleWork callback.work else w.wakeUp

end World

/-- `copy_to_user(buffer, sbuf, len)`, where a negative `len` is a huge one. -/
def Request.copied (request : Request) (len : Int) : Pc :=
  if request.accessible < uint64 len then .copied (-EFAULT) request.ppos
  else .copied len (int64 (request.ppos + len))

inductive Label where
  | enter (r : Nat) (base : Int)
  | set (r : Nat) (jiffies : UInt64)
  | prepareToWait (r : Nat)
  | scheduleWq (r : Nat)
  | schedule (r : Nat)
  | finishWait (r : Nat)
  | measure (r : Nat)
  | copy (r : Nat)
  | free (r : Nat)
  | signal (r : Nat)
  | print (work : Queued) (seen : Seen)
  | finish (callback : Running)

inductive World.Step (w : World) : Label → World → Prop
  | refuse {r : Nat} {base : Int} (pc : (w.readers r).pc = .entry)
      (refused : ¬ (w.readers r).request.kmalloc ∨ (w.readers r).request.ppos > 0) :
      w.Step (.enter r base) (w.modify r fun reader =>
        { reader with pc := .returned 0 reader.request.ppos })
  | enter {r : Nat} {base : Int} (pc : (w.readers r).pc = .entry)
      (kmalloc : (w.readers r).request.kmalloc) (ppos : ¬ (w.readers r).request.ppos > 0) :
      w.Step (.enter r base) (w.modify r fun reader =>
        { reader with pc := .allocated, base, live := true })
  | set {r : Nat} {jiffies : UInt64} (pc : (w.readers r).pc = .allocated) :
      w.Step (.set r jiffies) (w.setFields r jiffies)
  | prepareToWait {r : Nat} (pc : (w.readers r).pc = .set) :
      w.Step (.prepareToWait r) ({ w with waiters := r :: w.waiters }.modify r fun reader =>
        { reader with pc := .waiting, interruptible := true })
  | scheduleWq {r : Nat} (pc : (w.readers r).pc = .waiting) :
      w.Step (.scheduleWq r) ((w.modify r fun reader =>
        { reader with pc := .scheduled }).scheduleWork ⟨(w.readers r).param, r⟩)
  /-- It sleeps for as long as its task is interruptible. -/
  | schedule {r : Nat} (pc : (w.readers r).pc = .scheduled)
      (awake : (w.readers r).interruptible = false) :
      w.Step (.schedule r) (w.modify r fun reader => { reader with pc := .resumed })
  | finishWait {r : Nat} (pc : (w.readers r).pc = .resumed) :
      w.Step (.finishWait r) ({ w with waiters := w.waiters.erase r }.modify r fun reader =>
        { reader with pc := .finished, interruptible := false })
  | measure {r : Nat} (pc : (w.readers r).pc = .finished) :
      w.Step (.measure r) (w.modify r fun reader =>
        { reader with pc := .measured (w.address w.cdata.buf - reader.base) })
  | copy {r : Nat} {len : Int} (pc : (w.readers r).pc = .measured len) :
      w.Step (.copy r) (w.modify r fun reader => { reader with pc := reader.request.copied len })
  | free {r : Nat} {ret pos : Int} (pc : (w.readers r).pc = .copied ret pos) :
      w.Step (.free r) (w.modify r fun reader =>
        { reader with pc := .returned ret pos, live := false })
  | signal {r : Nat} :
      w.Step (.signal r) (w.modify r fun reader => { reader with interruptible := false })
  | print {work : Queued} {seen : Seen} (queued : work ∈ w.queued) :
      w.Step (.print work seen) (w.print work seen)
  | finish {callback : Running} (running : callback ∈ w.running) :
      w.Step (.finish callback) (w.finish callback)

/-- `cdata` is zero, and every read is about to begin with its own request. No `buf` is
looked at before a read sets it. -/
def World.init (param : Nat → JiqFiles) (request : Nat → Request) : World where
  cdata := ⟨0, 0, 0, ⟨0, 0⟩⟩
  waiters := []
  pending := fun _ => false
  queued := []
  running := []
  readers := fun r => ⟨param r, request r, .entry, false, 0, false, 0⟩

/-! ## What can go wrong -/

/-- From the first field of `cdata` that it sets until it has computed `len`, a read
needs `cdata` for itself. -/
def Pc.Inside : Pc → Prop
  | .set => True
  | .waiting => True
  | .scheduled => True
  | .resumed => True
  | .finished => True
  | _ => False

/-- A callback writes into a live buffer, that of the read which scheduled its work; and
`len` covers no more than what was written into the read's own buffer. -/
def Good (w : World) (label : Label) (v : World) : Prop :=
  match label with
  | .print work _ =>
      (w.readers w.cdata.buf.object).live = true ∧ w.cdata.buf.object = work.reader
  | .measure r =>
      ∃ len, (v.readers r).pc = .measured len ∧ 0 ≤ len ∧ len ≤ (v.readers r).written
  | _ => True

def World.Printed (w : World) : Prop :=
  w.queued = [] ∧ ∀ callback ∈ w.running, callback.again = false

/-- No read sets `cdata` while another one needs it or a callback is still about, and no
signal wakes a read whose callbacks have not all printed. -/
def Orderly (w : World) : Label → Prop
  | .set _ _ => (∀ r, ¬ (w.readers r).pc.Inside) ∧ w.queued = [] ∧ w.running = []
  | .signal r =>
      (w.readers r).interruptible = true → (w.readers r).pc = .scheduled ∧ w.Printed
  | _ => True

/-! ## The read that owns the record -/

def World.Course (w : World) (reader : Reader) : Prop :=
  match reader.pc with
  | .set => w.queued = [] ∧ w.running = []
  | .waiting => (w.queued = [] ∧ w.running = []) ∧ reader.interruptible = true
  | .scheduled => reader.interruptible = false → w.Printed
  | .resumed => w.Printed
  | .finished => w.Printed
  | _ => False

structure World.Owned (w : World) (r : Nat) : Prop where
  alone : ∀ r', (w.readers r').pc.Inside → r' = r
  live : (w.readers r).live = true
  object : w.cdata.buf.object = r
  offset : w.cdata.buf.offset = (w.readers r).written
  course : w.Course (w.readers r)
  single : w.queued.length + w.running.length ≤ 1
  queued : ∀ work ∈ w.queued, work.reader = r
  running : ∀ callback ∈ w.running, callback.work.reader = r

structure World.Idle (w : World) : Prop where
  outside : ∀ r, ¬ (w.readers r).pc.Inside
  printed : w.Printed

structure World.Settled (w : World) : Prop where
  allocated : ∀ r, (w.readers r).pc = .allocated → (w.readers r).live = true
  owner : w.Idle ∨ ∃ r, w.Owned r

section Steps
variable {w v : World} {r r' : Nat} {f : Reader → Reader}

@[simp] theorem modify_self : (w.modify r f).readers r = f (w.readers r) :=
  Function.update_self ..

theorem modify_other (h : r' ≠ r) : (w.modify r f).readers r' = w.readers r' :=
  Function.update_of_ne h ..

theorem World.Settled.update_allocated (h : w.Settled) {reader : Reader}
    (new : reader.pc = .allocated → reader.live = true) (r' : Nat) :
    (Function.update w.readers r reader r').pc = .allocated →
      (Function.update w.readers r reader r').live = true :=
  (Function.forall_update_iff w.readers fun _ reader => reader.pc = .allocated → reader.live = true).mpr
    ⟨new, fun r' _ => h.allocated r'⟩ r'

theorem World.Owned.inside (h : w.Owned r) : (w.readers r).pc.Inside := by
  have hcourse := h.course
  unfold World.Course at hcourse
  split at hcourse
  all_goals first | exact hcourse.elim | (next hpc => simp [hpc, Pc.Inside])

theorem World.Settled.owned (h : w.Settled) (inside : (w.readers r).pc.Inside) : w.Owned r := by
  rcases h.owner with hidle | ⟨owner, howned⟩
  · exact absurd inside (hidle.outside r)
  · rw [howned.alone r inside]
    exact howned

theorem World.Owned.settled (h : w.Owned r)
    (allocated : ∀ r, (w.readers r).pc = .allocated → (w.readers r).live = true) : w.Settled :=
  ⟨allocated, .inr ⟨r, h⟩⟩

/-! ## Steps outside -/

theorem World.Idle.modify (h : w.Idle) (hpc : ¬ (f (w.readers r)).pc.Inside) :
    (w.modify r f).Idle where
  outside := (Function.forall_update_iff w.readers fun _ reader => ¬ reader.pc.Inside).mpr
    ⟨hpc, fun r' _ => h.outside r'⟩
  printed := h.printed

theorem World.Owned.modify_other (h : w.Owned r) (hne : r ≠ r')
    (hpc : ¬ (f (w.readers r')).pc.Inside) : (w.modify r' f).Owned r := by
  have hsame : (w.modify r' f).readers r = w.readers r := Misc.modify_other hne
  constructor
  · apply (Function.forall_update_iff w.readers fun r' reader => reader.pc.Inside → r' = r).mpr
    exact ⟨fun hinside => absurd hinside hpc, fun r' _ => h.alone r'⟩
  · rw [hsame]
    exact h.live
  · exact h.object
  · rw [hsame]
    exact h.offset
  · rw [hsame]
    exact h.course
  · exact h.single
  · exact h.queued
  · exact h.running

theorem World.Settled.modify_outside (h : w.Settled) (before : ¬ (w.readers r).pc.Inside)
    (after : ¬ (f (w.readers r)).pc.Inside)
    (live : (f (w.readers r)).pc = .allocated → (f (w.readers r)).live = true) :
    (w.modify r f).Settled := by
  constructor
  · exact h.update_allocated live
  · rcases h.owner with hidle | ⟨owner, howned⟩
    · exact .inl (hidle.modify after)
    · have hne : owner ≠ r := by
        intro heq
        rw [heq] at howned
        exact before howned.inside
      exact .inr ⟨owner, howned.modify_other hne after⟩

/-! ## Steps of the owner -/

theorem World.Owned.modify_self (h : w.Owned r) (live : (f (w.readers r)).live = (w.readers r).live)
    (written : (f (w.readers r)).written = (w.readers r).written)
    (course : w.Course (f (w.readers r))) : (w.modify r f).Owned r := by
  constructor
  · apply (Function.forall_update_iff w.readers fun r' reader => reader.pc.Inside → r' = r).mpr
    exact ⟨fun _ => rfl, fun r' _ => h.alone r'⟩
  · rw [Misc.modify_self, live]
    exact h.live
  · exact h.object
  · rw [Misc.modify_self, written]
    exact h.offset
  · rw [Misc.modify_self]
    exact course
  · exact h.single
  · exact h.queued
  · exact h.running

theorem World.Settled.modify_owner (h : w.Settled) (inside : (w.readers r).pc.Inside)
    (place : (f (w.readers r)).pc ≠ .allocated)
    (live : (f (w.readers r)).live = (w.readers r).live)
    (written : (f (w.readers r)).written = (w.readers r).written)
    (course : w.Course (f (w.readers r))) : (w.modify r f).Settled := by
  apply ((h.owned inside).modify_self live written course).settled
  exact h.update_allocated fun hpc => absurd hpc place

theorem World.Settled.leave (h : w.Settled) (pc : (w.readers r).pc = .finished)
    (place : (f (w.readers r)).pc ≠ .allocated) (after : ¬ (f (w.readers r)).pc.Inside) :
    (w.modify r f).Settled := by
  have hinside : (w.readers r).pc.Inside := by simp [pc, Pc.Inside]
  have howned := h.owned hinside
  have hprinted : w.Printed := by
    have hcourse := howned.course
    rwa [World.Course, pc] at hcourse
  constructor
  · exact h.update_allocated fun hpc => absurd hpc place
  · refine .inl ⟨?_, hprinted⟩
    apply (Function.forall_update_iff w.readers fun _ reader => ¬ reader.pc.Inside).mpr
    exact ⟨after, fun r' hne hinside => hne (howned.alone r' hinside)⟩

theorem World.Settled.waiters (h : w.Settled) (waiters : List Nat) :
    { w with waiters }.Settled := by
  constructor
  · exact h.allocated
  · rcases h.owner with hidle | ⟨owner, howned⟩
    · exact .inl ⟨hidle.outside, hidle.printed⟩
    · exact .inr ⟨owner, howned.alone, howned.live, howned.object, howned.offset, howned.course,
        howned.single, howned.queued, howned.running⟩

theorem settled_set {jiffies : UInt64} (h : w.Settled) (pc : (w.readers r).pc = .allocated)
    (orderly : Orderly w (.set r jiffies)) : (w.setFields r jiffies).Settled := by
  obtain ⟨houtside, hqueued, hrunning⟩ := orderly
  have hself : (w.setFields r jiffies).readers r =
      { w.readers r with
        pc := .set
        written := (jiqSet (w.readers r).param jiffies r).2.length } :=
    Function.update_self ..
  have howned : (w.setFields r jiffies).Owned r := by
    constructor
    · apply (Function.forall_update_iff w.readers fun r' reader => reader.pc.Inside → r' = r).mpr
      exact ⟨fun _ => rfl, fun r' _ hinside => absurd hinside (houtside r')⟩
    · rw [hself]
      exact h.allocated r pc
    · rfl
    · rw [hself]
      rfl
    · rw [hself]
      exact ⟨hqueued, hrunning⟩
    · show w.queued.length + w.running.length ≤ 1
      rw [hqueued, hrunning]
      exact Nat.zero_le 1
    · show ∀ work ∈ w.queued, work.reader = r
      rw [hqueued]
      exact nofun
    · show ∀ callback ∈ w.running, callback.work.reader = r
      rw [hrunning]
      exact nofun
  apply howned.settled
  exact h.update_allocated fun hpc => Pc.noConfusion hpc

/-! ## Steps of the works -/

theorem scheduleWork_readers (work : Queued) : (w.scheduleWork work).readers = w.readers := by
  unfold World.scheduleWork
  split <;> rfl

theorem scheduleWork_cdata (work : Queued) : (w.scheduleWork work).cdata = w.cdata := by
  unfold World.scheduleWork
  split <;> rfl

theorem scheduleWork_running (work : Queued) : (w.scheduleWork work).running = w.running := by
  unfold World.scheduleWork
  split <;> rfl

theorem scheduleWork_queued (work : Queued) (h : w.queued = []) :
    (w.scheduleWork work).queued = [] ∨ (w.scheduleWork work).queued = [work] := by
  unfold World.scheduleWork
  split
  · exact .inl h
  · exact .inr (by rw [h])

theorem World.Owned.scheduleWork (h : w.Owned r) (pc : (w.readers r).pc = .scheduled)
    (asleep : (w.readers r).interruptible = true) (queued : w.queued = [])
    (running : w.running = []) {work : Queued} (hwork : work.reader = r) :
    (w.scheduleWork work).Owned r := by
  have hreaders := scheduleWork_readers (w := w) work
  have hcdata := scheduleWork_cdata (w := w) work
  have hrunning := (scheduleWork_running work).trans running
  have hqueued := scheduleWork_queued work queued
  constructor
  · rw [hreaders]
    exact h.alone
  · rw [hreaders]
    exact h.live
  · rw [hcdata]
    exact h.object
  · rw [hreaders, hcdata]
    exact h.offset
  · rw [hreaders, World.Course, pc]
    intro hawake
    exact absurd (asleep.symm.trans hawake) (by decide)
  · rcases hqueued with hqueued | hqueued <;> simp [hqueued, hrunning]
  · rcases hqueued with hqueued | hqueued <;> simp [hqueued, hwork]
  · simp [hrunning]

theorem settled_scheduleWq (h : w.Settled) (pc : (w.readers r).pc = .waiting) :
    ((w.modify r fun reader => { reader with pc := .scheduled }).scheduleWork
      ⟨(w.readers r).param, r⟩).Settled := by
  have hinside : (w.readers r).pc.Inside := by simp [pc, Pc.Inside]
  have hcourse := (h.owned hinside).course
  rw [World.Course, pc] at hcourse
  obtain ⟨⟨hqueued, hrunning⟩, hasleep⟩ := hcourse
  have hnext : w.Course { w.readers r with pc := .scheduled } := fun hawake =>
    absurd (hasleep.symm.trans hawake) (by decide)
  have hsettled : (w.modify r fun reader => { reader with pc := .scheduled }).Settled :=
    h.modify_owner hinside (by simp) rfl rfl hnext
  have howned : (w.modify r fun reader => { reader with pc := .scheduled }).Owned r :=
    (h.owned hinside).modify_self rfl rfl hnext
  apply (howned.scheduleWork _ _ hqueued hrunning rfl).settled
  · rw [scheduleWork_readers]
    exact hsettled.allocated
  · rw [modify_self]
  · rw [modify_self]
    exact hasleep

theorem World.Owned.asleep (h : w.Owned r) (busy : ¬ w.Printed) :
    (w.readers r).pc = .scheduled ∧ (w.readers r).interruptible = true := by
  have hnone (hcalm : w.queued = [] ∧ w.running = []) : w.Printed := by
    refine ⟨hcalm.1, ?_⟩
    rw [hcalm.2]
    exact nofun
  have hcourse := h.course
  unfold World.Course at hcourse
  split at hcourse
  · exact absurd (hnone hcourse) busy
  · exact absurd (hnone hcourse.1) busy
  · next hpc =>
    refine ⟨hpc, ?_⟩
    by_contra hawake
    exact busy (hcourse (Bool.eq_false_iff.mpr hawake))
  · exact absurd hcourse busy
  · exact absurd hcourse busy
  · exact hcourse.elim

theorem settled_print {work : Queued} {seen : Seen} (h : w.Settled) (queued : work ∈ w.queued) :
    (w.print work seen).Settled := by
  have hbusy : ¬ w.Printed := fun hprinted => by
    rw [hprinted.1] at queued
    cases queued
  rcases h.owner with hidle | ⟨r, howned⟩
  · exact absurd hidle.printed hbusy
  obtain ⟨hpc, hasleep⟩ := howned.asleep hbusy
  have hsingle := howned.single
  have hlength := List.length_pos_of_mem queued
  have hrunning : w.running = [] := List.eq_nil_of_length_eq_zero (by omega)
  have herase : w.queued.erase work = [] := by
    apply List.eq_nil_of_length_eq_zero
    rw [List.length_erase_of_mem queued]
    omega
  have hobject := howned.object
  subst hobject
  have hself : (w.print work seen).readers w.cdata.buf.object =
      { w.readers w.cdata.buf.object with
        written := (w.readers w.cdata.buf.object).written + (jiqPrint w.cdata seen).2.length } :=
    Function.update_self ..
  have howned' : (w.print work seen).Owned w.cdata.buf.object := by
    constructor
    · apply (Function.forall_update_iff w.readers
        fun r' reader => reader.pc.Inside → r' = w.cdata.buf.object).mpr
      exact ⟨fun _ => rfl, fun r' _ => howned.alone r'⟩
    · rw [hself]
      exact howned.live
    · rfl
    · rw [hself, ← howned.offset]
      rfl
    · rw [hself, World.Course, hpc]
      intro hawake
      exact absurd (hasleep.symm.trans hawake) (by decide)
    · show (w.queued.erase work).length + (_ :: w.running).length ≤ 1
      simp [herase, hrunning]
    · show ∀ work' ∈ w.queued.erase work, work'.reader = w.cdata.buf.object
      simp [herase]
    · show ∀ callback ∈ _ :: w.running, callback.work.reader = w.cdata.buf.object
      simpa [hrunning] using howned.queued work queued
  apply howned'.settled
  exact h.update_allocated (h.allocated w.cdata.buf.object)

theorem wakeUp_reader (r : Nat) :
    (w.wakeUp.readers r).pc = (w.readers r).pc ∧ (w.wakeUp.readers r).live = (w.readers r).live ∧
      (w.wakeUp.readers r).written = (w.readers r).written := by
  simp only [World.wakeUp]
  split <;> exact ⟨rfl, rfl, rfl⟩

theorem World.Settled.wakeUp_allocated (h : w.Settled) (r : Nat)
    (hpc : (w.wakeUp.readers r).pc = .allocated) : (w.wakeUp.readers r).live = true := by
  rw [(wakeUp_reader r).1] at hpc
  exact (wakeUp_reader r).2.1.trans (h.allocated r hpc)

theorem course_of_calm {reader : Reader} (inside : reader.pc.Inside)
    (place : reader.pc ≠ .waiting) (queued : w.queued = []) (running : w.running = []) :
    w.Course reader := by
  have hprinted : w.Printed := by
    refine ⟨queued, ?_⟩
    rw [running]
    exact nofun
  unfold World.Course
  unfold Pc.Inside at inside
  split at inside
  · exact ⟨queued, running⟩
  · next hpc => exact absurd hpc place
  · exact fun _ => hprinted
  · exact hprinted
  · exact hprinted
  · exact inside.elim

theorem World.Owned.wakeUp (h : w.Owned r) (place : (w.readers r).pc ≠ .waiting)
    (queued : w.queued = []) (running : w.running = []) : w.wakeUp.Owned r := by
  obtain ⟨hpc, hlive, hwritten⟩ := wakeUp_reader (w := w) r
  constructor
  · intro r' hinside
    rw [(wakeUp_reader r').1] at hinside
    exact h.alone r' hinside
  · exact hlive.trans h.live
  · exact h.object
  · exact h.offset.trans hwritten.symm
  · apply course_of_calm _ _ queued running
    · rw [hpc]
      exact h.inside
    · rw [hpc]
      exact place
  · exact h.single
  · exact h.queued
  · exact h.running

theorem settled_finish {callback : Running} (h : w.Settled) (running : callback ∈ w.running) :
    (w.finish callback).Settled := by
  have hlength := List.length_pos_of_mem running
  unfold World.finish
  rcases h.owner with hidle | ⟨r, howned⟩
  · rw [if_neg (by simp [hidle.printed.2 callback running])]
    constructor
    · exact h.wakeUp_allocated
    · refine .inl ⟨?_, hidle.printed.1, ?_⟩
      · intro r hinside
        rw [(wakeUp_reader r).1] at hinside
        exact hidle.outside r hinside
      · intro callback' hcallback'
        exact hidle.printed.2 callback' (List.mem_of_mem_erase hcallback')
  · have hsingle := howned.single
    have hqueued : w.queued = [] := List.eq_nil_of_length_eq_zero (by omega)
    have herase : w.running.erase callback = [] := by
      apply List.eq_nil_of_length_eq_zero
      rw [List.length_erase_of_mem running]
      omega
    have hplace : (w.readers r).pc ≠ .waiting := by
      intro hpc
      have hcourse := howned.course
      rw [World.Course, hpc] at hcourse
      rw [hcourse.1.2] at running
      cases running
    have howned' : { w with running := [] }.Owned r := by
      constructor
      · exact howned.alone
      · exact howned.live
      · exact howned.object
      · exact howned.offset
      · exact course_of_calm howned.inside hplace hqueued rfl
      · simp [hqueued]
      · exact howned.queued
      · exact nofun
    rw [herase]
    split
    · next hagain =>
      have hbusy : ¬ w.Printed := fun hprinted => by
        simp [hprinted.2 callback running] at hagain
      obtain ⟨hpc, hasleep⟩ := howned.asleep hbusy
      apply (howned'.scheduleWork hpc hasleep hqueued rfl (howned.running callback running)).settled
      rw [scheduleWork_readers]
      exact h.allocated
    · exact (howned'.wakeUp hplace hqueued rfl).settled h.wakeUp_allocated

/-! ## Runs -/

theorem settled_signal (h : w.Settled) (orderly : Orderly w (.signal r)) :
    (w.modify r fun reader => { reader with interruptible := false }).Settled := by
  by_cases hinside : (w.readers r).pc.Inside
  · have hcourse := (h.owned hinside).course
    have hplace : (w.readers r).pc ≠ .allocated := by
      intro hpc
      simp [hpc, Pc.Inside] at hinside
    apply h.modify_owner hinside hplace rfl rfl
    cases hasleep : (w.readers r).interruptible with
    | true =>
      obtain ⟨hpc, hprinted⟩ := orderly hasleep
      rw [World.Course, hpc]
      exact fun _ => hprinted
    | false =>
      have hsame : { w.readers r with interruptible := false } = w.readers r := by
        rw [← hasleep]
      rw [hsame]
      exact hcourse
  · exact h.modify_outside hinside hinside (h.allocated r)

theorem settled_step {label : Label} (h : w.Settled) (orderly : Orderly w label)
    (step : w.Step label v) : v.Settled := by
  cases step with
  | refuse pc refused =>
    apply h.modify_outside _ _ fun hpc => Pc.noConfusion hpc
    · simp [pc, Pc.Inside]
    · simp [Pc.Inside]
  | enter pc kmalloc ppos =>
    apply h.modify_outside _ _ fun _ => rfl
    · simp [pc, Pc.Inside]
    · simp [Pc.Inside]
  | set pc => exact settled_set h pc orderly
  | @prepareToWait r pc =>
    have hinside : (w.readers r).pc.Inside := by simp [pc, Pc.Inside]
    have hcourse := (h.owned hinside).course
    rw [World.Course, pc] at hcourse
    exact (h.waiters _).modify_owner hinside (by simp) rfl rfl ⟨hcourse, rfl⟩
  | scheduleWq pc => exact settled_scheduleWq h pc
  | @schedule r pc awake =>
    have hinside : (w.readers r).pc.Inside := by simp [pc, Pc.Inside]
    have hcourse := (h.owned hinside).course
    rw [World.Course, pc] at hcourse
    exact h.modify_owner hinside (by simp) rfl rfl (hcourse awake)
  | @finishWait r pc =>
    have hinside : (w.readers r).pc.Inside := by simp [pc, Pc.Inside]
    have hcourse := (h.owned hinside).course
    rw [World.Course, pc] at hcourse
    exact (h.waiters _).modify_owner hinside (by simp) rfl rfl hcourse
  | measure pc => exact h.leave pc (by simp) (by simp [Pc.Inside])
  | @copy r len pc =>
    have hcopied : ¬ ((w.readers r).request.copied len).Inside ∧
        (w.readers r).request.copied len ≠ .allocated := by
      unfold Request.copied
      split <;> simp [Pc.Inside]
    apply h.modify_outside _ hcopied.1 fun hpc => absurd hpc hcopied.2
    simp [pc, Pc.Inside]
  | free pc =>
    apply h.modify_outside _ _ fun hpc => Pc.noConfusion hpc
    · simp [pc, Pc.Inside]
    · simp [Pc.Inside]
  | signal => exact settled_signal h orderly
  | print queued => exact settled_print h queued
  | finish running => exact settled_finish h running

theorem good_step {label : Label} (h : w.Settled) (step : w.Step label v) : Good w label v := by
  cases step with
  | print queued =>
    rcases h.owner with hidle | ⟨owner, howned⟩
    · rw [hidle.printed.1] at queued
      cases queued
    · rw [Good, howned.object]
      exact ⟨howned.live, (howned.queued _ queued).symm⟩
  | @measure r pc =>
    have howned := h.owned (r := r) (by simp [pc, Pc.Inside])
    have hlen : w.address w.cdata.buf - (w.readers r).base = (w.readers r).written := by
      rw [World.address, howned.object, howned.offset]
      omega
    refine ⟨_, congrArg Reader.pc modify_self, ?_, ?_⟩
    · rw [hlen]
      exact Int.natCast_nonneg _
    · rw [modify_self, hlen]
  | _ => trivial

theorem settled_init (param : Nat → JiqFiles) (request : Nat → Request) :
    (World.init param request).Settled where
  allocated := nofun
  owner := .inl ⟨fun _ => id, rfl, nofun⟩

end Steps

/-- As long as the reads take turns and signals leave them alone, callbacks write where
they should and every `len` covers what they wrote: whatever the next step is. -/
theorem output_sound (param : Nat → JiqFiles) (request : Nat → Request) {labels : List Label}
    {w v : World} {label : Label}
    (run : Run (While Orderly World.Step) (.init param request) labels w)
    (step : w.Step label v) : Good w label v := by
  have hsettled : w.Settled :=
    run.invariant (fun _ w => w.Settled) (settled_init param request)
      fun _ _ _ _ _ h hstep => settled_step h hstep.1 hstep.2
  exact good_step hsettled step

def World.loaded : World :=
  .init (fun _ => .jitWq) fun _ => ⟨true, 4096, 0, 4096, []⟩

def kworker : Seen :=
  ⟨101, false, 7, 0, ⟨"kworker/0:1".toList, by decide, by simp [Lib.Format.Unended]⟩⟩

def untilAsleep (r : Nat) : List Label :=
  [.enter r 4096, .set r 100, .prepareToWait r, .scheduleWq r]

theorem asleep_run : ∃ w, Run (While Orderly World.Step) .loaded (untilAsleep 0) w ∧
    w.queued = [⟨.jitWq, 0⟩] ∧ (w.readers 0).pc = .scheduled := by
  have hset : Orderly (World.loaded.modify 0 fun reader =>
      { reader with pc := .allocated, base := 4096, live := true }) (.set 0 100) := by
    refine ⟨?_, rfl, rfl⟩
    apply (Function.forall_update_iff World.loaded.readers fun _ reader => ¬ reader.pc.Inside).mpr
    exact ⟨id, fun _ _ => id⟩
  refine ⟨_, ((((Run.nil.snoc ⟨trivial, .enter rfl rfl (by decide)⟩).snoc ⟨hset, .set rfl⟩).snoc
    ⟨trivial, .prepareToWait rfl⟩).snoc ⟨trivial, .scheduleWq rfl⟩), ?_, ?_⟩
  · rfl
  · rfl

theorem output_first : ∃ w v, Run (While Orderly World.Step) .loaded (untilAsleep 0) w ∧
    Good w (.print ⟨.jitWq, 0⟩ kworker) v := by
  obtain ⟨w, run, hqueued, -⟩ := asleep_run
  have step : w.Step (.print ⟨.jitWq, 0⟩ kworker) (w.print ⟨.jitWq, 0⟩ kworker) :=
    .print (by rw [hqueued]; exact List.mem_singleton.mpr rfl)
  exact ⟨w, _, run, output_sound _ _ run step⟩

/-- A signal ends the sleep at once, and the callback prints into a buffer that has been
freed; and a second read sets `cdata` before the first one schedules its work, which
then prints into the second one's buffer. -/
theorem output_astray :
    (∃ w v, Run World.Step .loaded (untilAsleep 0 ++
        [.signal 0, .schedule 0, .finishWait 0, .measure 0, .copy 0, .free 0]) w ∧
      w.Step (.print ⟨.jitWq, 0⟩ kworker) v ∧ ¬ Good w (.print ⟨.jitWq, 0⟩ kworker) v) ∧
    ∃ w v, Run World.Step .loaded
        [.enter 0 4096, .enter 1 8192, .set 0 100, .set 1 100, .prepareToWait 0, .scheduleWq 0] w ∧
      w.Step (.print ⟨.jitWq, 0⟩ kworker) v ∧ ¬ Good w (.print ⟨.jitWq, 0⟩ kworker) v := by
  constructor
  · refine ⟨_, _, (((((((((Run.nil.snoc (.enter rfl rfl (by decide))).snoc (.set rfl)).snoc
      (.prepareToWait rfl)).snoc (.scheduleWq rfl)).snoc .signal).snoc (.schedule rfl rfl)).snoc
      (.finishWait rfl)).snoc (.measure rfl)).snoc (.copy rfl)).snoc
      (@World.Step.free _ 0 48 48 (by decide +kernel)), .print ?_, ?_⟩
    · exact List.mem_singleton.mpr rfl
    · intro h
      exact absurd h.1 (by decide)
  · refine ⟨_, _, (((((Run.nil.snoc (.enter rfl rfl (by decide))).snoc
      (.enter rfl rfl (by decide))).snoc (.set rfl)).snoc (.set rfl)).snoc
      (.prepareToWait rfl)).snoc (.scheduleWq rfl), .print ?_, ?_⟩
    · exact List.mem_singleton.mpr rfl
    · intro h
      exact absurd h.2 (by decide)

end MyDrivers.Misc
