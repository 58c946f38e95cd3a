import Mathlib.Data.Fintype.Defs
import MyDrivers.Pipe.Accesses
import MyDrivers.Pipe.Discipline

/-! Any number of processes open, read, write and release files of one pipe device,
one statement at a time. The kernel keeps the table of open files: a `release` comes
when no other call uses the file, and no call uses a file that is not open. -/
namespace MyDrivers.Pipe
open Lib Lib.Machine
open Store (Byte EAGAIN ENOMEM EFAULT ERESTARTSYS O_NONBLOCK)

variable {size : Nat} {ι φ : Type}

structure Worker (size : Nat) (φ : Type) where
  process : Process
  inside : Option (Inside size)
  file : φ

/-- The section of a call whose wait a signal ends. -/
def Call.cutShort : Call → Option (Section size)
  | .scullPOpen mode => some (.scullPOpen mode true none)
  | .scullPRelease mode => some (.scullPRelease mode true)
  | .scullPRead fFlags count => some (.scullPRead fFlags count true 0)
  | .scullPWrite fFlags buff => some (.scullPWrite fFlags buff true 0)
  | .scullPPoll => none

def Pc.interruptible : Pc → Bool
  | .down => true
  | .evaluate => true
  | .finishWait => true
  | _ => false

def Pc.isReturned : Pc → Bool
  | .returned _ => true
  | _ => false

/-- One step of a process: the memory, the semaphore and the process afterwards, and
the section that it has come to the end of. -/
def Worker.step (choice : Choice size) (pipe : Backed) (sem : Nat) (q : Worker size φ) :
    Option (Backed × Nat × Worker size φ × Option (Section size × Reply)) :=
  match q.inside with
  | some place =>
      match access choice place pipe with
      | (.stays place, pipe) => some (pipe, sem, { q with inside := some place }, none)
      | (.leaves done, pipe) =>
          some (pipe, sem,
            { q with process := { q.process with pc := .up done.after }, inside := none },
            some (done.sec, done.reply))
  | none =>
      (q.process.step choice pipe sem).map fun (pipe, sem, p) =>
        (pipe, sem,
          { q with process := p, inside := if p.pc = .locked then p.call.begins else none },
          if q.process.pc.interruptible && p.pc.isReturned then
            p.call.cutShort.map fun sec => (sec, .returns (-ERESTARTSYS))
          else none)

def Worker.woken (queue : Option WaitQueue) (q : Worker size φ) : Worker size φ :=
  { q with process := q.process.woken queue }

def Worker.Busy (q : Worker size φ) : Prop := q.process.pc.isReturned = false

instance (q : Worker size φ) : Decidable q.Busy :=
  inferInstanceAs (Decidable (q.process.pc.isReturned = false))

/-! ## What one step of a process can do -/

def Pc.owes (call : Call) : Pc → Option Int
  | .returned ret => some ret
  | .up after => after.owes call
  | .flags => call.declines
  | .wake ret => some ret
  | _ => none

structure Worker.Sound (q : Worker size φ) : Prop where
  inside : q.inside.isSome = true ↔ q.process.pc = .locked
  called : q.Busy → q.process.call ≠ .scullPPoll
  polls : q.process.pc ≠ .pollWait ∧ ∀ mask, q.process.pc ≠ .pollUp mask

inductive Worker.Took (choice : Choice size) (pipe : Backed) (sem : Nat) (q : Worker size φ) :
    Backed → Nat → Worker size φ → Option (Section size × Reply) → Prop
  | stays (l l' : Inside size) (pipe' : Backed) (place : q.inside = some l)
      (ran : access choice l pipe = (.stays l', pipe')) :
      Took choice pipe sem q pipe' sem { q with inside := some l' } none
  | leaves (l : Inside size) (done : Finished size) (pipe' : Backed) (place : q.inside = some l)
      (ran : access choice l pipe = (.leaves done, pipe')) :
      Took choice pipe sem q pipe' sem
        { q with process := { q.process with pc := .up done.after }, inside := none }
        (some (done.sec, done.reply))
  | enters (first : Inside size) (pc : q.process.pc = .down)
      (begins : q.process.call.begins = some first) (free : 0 < sem) :
      Took choice pipe sem q pipe (sem - 1)
        { q with
          process := { q.process with pc := .locked, downs := q.process.downs + 1 }
          inside := some first } none
  | up (after : After) (pc : q.process.pc = .up after) :
      Took choice pipe sem q pipe (sem + 1)
        { q with process := { q.process with pc := after.pc, ups := q.process.ups + 1 }
                 inside := none } none
  | refused (sec : Section size) (p' : Process) (outside : q.process.pc.inside = false)
      (owed : q.process.pc.owes q.process.call = none) (busy : q.Busy)
      (cut : q.process.call.cutShort = some sec) (call : p'.call = q.process.call)
      (pc : p'.pc = .returned (-ERESTARTSYS)) :
      Took choice pipe sem q pipe sem { q with process := p', inside := none }
        (some (sec, .returns (-ERESTARTSYS)))
  | quiet (p' : Process) (outside : q.process.pc.inside = false) (busy : q.Busy)
      (call : p'.call = q.process.call) (outside' : p'.pc.inside = false)
      (owes : p'.pc.owes p'.call = q.process.pc.owes q.process.call)
      (polls : p'.pc ≠ .pollWait ∧ ∀ mask, p'.pc ≠ .pollUp mask) :
      Took choice pipe sem q pipe sem { q with process := p', inside := none } none

section Steps
variable {choice : Choice size} {pipe pipe' : Backed} {sem sem' : Nat} {q q' : Worker size φ}
  {done : Option (Section size × Reply)}

theorem cutShort_begins {call : Call} (h : call ≠ .scullPPoll) :
    (∃ sec : Section size, call.cutShort = some sec) ∧
      (∃ first : Inside size, call.begins = some first) ∧ call.taken = .locked ∧
        call.interrupted = .returned (-ERESTARTSYS) := by
  cases call with
  | scullPPoll => exact absurd rfl h
  | scullPOpen mode => exact ⟨⟨_, rfl⟩, ⟨_, rfl⟩, rfl, rfl⟩
  | scullPRelease mode => exact ⟨⟨_, rfl⟩, ⟨_, rfl⟩, rfl, rfl⟩
  | scullPRead fFlags count => exact ⟨⟨_, rfl⟩, ⟨_, rfl⟩, rfl, rfl⟩
  | scullPWrite fFlags buff => exact ⟨⟨_, rfl⟩, ⟨_, rfl⟩, rfl, rfl⟩

theorem owes_after (call : Call) (after : After) : after.pc.owes call = after.owes call := by
  cases after <;> rfl

theorem flags_owes {call : Call} {next : Pc} (h : call.flags = some next) :
    next.owes call = call.declines := by
  cases call with
  | scullPRead fFlags count =>
    simp only [Call.flags, Option.some.injEq] at h
    rw [← h, Call.declines]
    split <;> rfl
  | scullPWrite fFlags buff =>
    simp only [Call.flags, Option.some.injEq] at h
    rw [← h, Call.declines]
    split <;> rfl
  | scullPOpen mode => cases h
  | scullPRelease mode => cases h
  | scullPPoll => cases h

theorem evaluate_returns {signal : Bool} {dev : ScullPipe} {p p' : Process}
    (ran : p.evaluate signal dev = some p') :
    p'.call = p.call ∧ (p'.pc = .returned (-ERESTARTSYS) ∨ p'.pc = .down ∨ p'.pc = .asleep ∨
      p'.pc = .finishWait) := by
  unfold Process.evaluate at ran
  split at ran
  · split at ran
    · cases ran
      exact ⟨rfl, .inr (.inl rfl)⟩
    · split at ran
      · cases ran
        exact ⟨rfl, .inl rfl⟩
      · cases ran
        exact ⟨rfl, .inr (.inr (.inl rfl))⟩
  · split at ran
    · cases ran
      exact ⟨rfl, .inr (.inr (.inl rfl))⟩
    · cases ran
      exact ⟨rfl, .inr (.inr (.inr rfl))⟩
  · cases ran

theorem took_quiet {p' : Process} (outside : q.process.pc.inside = false) (busy : q.Busy)
    (call : p'.call = q.process.call) (outside' : p'.pc.inside = false)
    (owes : p'.pc.owes p'.call = q.process.pc.owes q.process.call)
    (polls : p'.pc ≠ .pollWait ∧ ∀ mask, p'.pc ≠ .pollUp mask)
    (goes : (q.process.pc.interruptible && p'.pc.isReturned) = false) :
    q.Took choice pipe sem pipe sem
      { q with process := p', inside := if p'.pc = .locked then p'.call.begins else none }
      (if q.process.pc.interruptible && p'.pc.isReturned then
        p'.call.cutShort.map fun sec => (sec, Reply.returns (-ERESTARTSYS))
      else none) := by
  have hpc : p'.pc ≠ .locked := by
    intro h
    rw [h] at outside'
    cases outside'
  rw [if_neg hpc, goes]
  exact .quiet p' outside busy call outside' owes polls

theorem took_refused {p' : Process} (sound : q.Sound) (outside : q.process.pc.inside = false)
    (owed : q.process.pc.owes q.process.call = none) (busy : q.Busy)
    (call : p'.call = q.process.call) (pc : p'.pc = .returned (-ERESTARTSYS))
    (waits : q.process.pc.interruptible = true) :
    q.Took choice pipe sem pipe sem
      { q with process := p', inside := if p'.pc = .locked then p'.call.begins else none }
      (if q.process.pc.interruptible && p'.pc.isReturned then
        p'.call.cutShort.map fun sec => (sec, Reply.returns (-ERESTARTSYS))
      else none) := by
  obtain ⟨sec, hsec⟩ := (@cutShort_begins size _ (sound.called busy)).1
  have hreturned : p'.pc.isReturned = true := by rw [pc]; rfl
  have hpc : p'.pc ≠ .locked := by simp [pc]
  rw [if_neg hpc, waits, hreturned, call, hsec]
  exact .refused sec p' outside owed busy hsec call pc

theorem took_cases (sound : q.Sound)
    (h : q.step choice pipe sem = some (pipe', sem', q', done)) :
    q.Took choice pipe sem pipe' sem' q' done := by
  unfold Worker.step at h
  split at h
  · next place hplace =>
    split at h
    · next l' pipe'' ran =>
      cases h
      exact .stays place l' pipe' hplace ran
    · next finished pipe'' ran =>
      cases h
      exact .leaves place finished pipe' hplace ran
  · next hnone =>
    obtain ⟨⟨pipe'', sem'', p'⟩, hstep, heq⟩ := Option.map_eq_some_iff.mp h
    cases heq
    have hlocked : q.process.pc ≠ .locked := by
      intro hpc
      rw [sound.inside.mpr hpc |> Option.isSome_iff_exists.mp |>.choose_spec] at hnone
      cases hnone
    cases step_went hstep with
    | interrupted pc signal =>
      have busy : q.Busy := by simp [Worker.Busy, pc, Pc.isReturned]
      have hcall := (@cutShort_begins size _ (sound.called busy)).2.2.2
      exact took_refused sound (by rw [pc]; rfl) (by rw [pc]; rfl) busy rfl hcall (by rw [pc]; rfl)
    | taken pc calm free =>
      have busy : q.Busy := by simp [Worker.Busy, pc, Pc.isReturned]
      obtain ⟨-, ⟨first, hfirst⟩, htaken, -⟩ := @cutShort_begins size _ (sound.called busy)
      simp only [htaken, hfirst, Pc.isReturned, Bool.and_false, if_true]
      exact .enters first pc hfirst (Nat.pos_of_ne_zero free)
    | locked pc after pipe'' ran => exact absurd pc hlocked
    | up after pc =>
      have hpc : after.pc ≠ .locked := by cases after <;> simp [After.pc]
      have hwaits : q.process.pc.interruptible = false := by rw [pc]; rfl
      simp only [if_neg hpc, hwaits, Bool.false_and]
      exact .up after pc
    | flags pc next ran =>
      have busy : q.Busy := by simp [Worker.Busy, pc, Pc.isReturned]
      refine took_quiet (by rw [pc]; rfl) busy ?_ (flags_outside ran) ?_ ?_ ?_
      · rfl
      · rw [pc]
        exact flags_owes ran
      · rcases flags_cases ran with ⟨ret, rfl⟩ | rfl | rfl <;> simp
      · rw [pc]
        rfl
    | test pc =>
      have busy : q.Busy := by simp [Worker.Busy, pc, Pc.isReturned]
      refine took_quiet (by rw [pc]; rfl) busy ?_ ?_ ?_ ?_ ?_
      · rfl
      · dsimp only
        split <;> rfl
      · rw [pc]
        dsimp only
        split <;> rfl
      · dsimp only
        split <;> simp
      · rw [pc]
        rfl
    | prepareToWait pc =>
      have busy : q.Busy := by simp [Worker.Busy, pc, Pc.isReturned]
      refine took_quiet (by rw [pc]; rfl) busy ?_ ?_ ?_ ?_ ?_
      · rfl
      · rfl
      · rw [pc]
        rfl
      · simp
      · rw [pc]
        rfl
    | evaluate pc p' ran =>
      have busy : q.Busy := by simp [Worker.Busy, pc, Pc.isReturned]
      obtain ⟨hcall, hpc⟩ := evaluate_returns ran
      rcases hpc with hpc | hpc | hpc | hpc
      · exact took_refused sound (by rw [pc]; rfl) (by rw [pc]; rfl) busy hcall hpc (by rw [pc]; rfl)
      all_goals
        refine took_quiet (by rw [pc]; rfl) busy hcall ?_ ?_ ?_ ?_
        · rw [hpc]
          rfl
        · rw [hpc, pc]
          rfl
        · simp [hpc]
        · simp [hpc, Pc.isReturned]
    | asleep pc next roused ran =>
      have busy : q.Busy := by simp [Worker.Busy, pc, Pc.isReturned]
      refine took_quiet (by rw [pc]; rfl) busy ?_ (rouse_outside ran) ?_ ?_ ?_
      · rfl
      · rw [pc]
        rcases rouse_cases ran with rfl | rfl <;> rfl
      · rcases rouse_cases ran with rfl | rfl <;> simp
      · rw [pc]
        rfl
    | finishWait pc =>
      have busy : q.Busy := by simp [Worker.Busy, pc, Pc.isReturned]
      by_cases hsignal : choice.signal = true
      · exact took_refused sound (by rw [pc]; rfl) (by rw [pc]; rfl) busy rfl (if_pos hsignal)
          (by rw [pc]; rfl)
      · have hdown : (if choice.signal = true then Pc.returned (-ERESTARTSYS) else .down) = .down :=
          if_neg hsignal
        rw [hdown]
        refine took_quiet (by rw [pc]; rfl) busy ?_ ?_ ?_ ?_ ?_
        · rfl
        · rfl
        · rw [pc]
          rfl
        · simp
        · simp [Pc.isReturned]
    | wake ret pc =>
      have busy : q.Busy := by simp [Worker.Busy, pc, Pc.isReturned]
      refine took_quiet (by rw [pc]; rfl) busy ?_ ?_ ?_ ?_ ?_
      · rfl
      · rfl
      · rw [pc]
        rfl
      · simp
      · rw [pc]
        rfl
    | pollWait pc => exact absurd pc sound.polls.1
    | pollUp mask pc => exact absurd pc (sound.polls.2 mask)

theorem inside_locked {l : Inside size} (sound : q.Sound)
    (h : q.inside = some l) : q.process.pc = .locked :=
  sound.inside.mp (by rw [h]; rfl)

theorem took_sound (sound : q.Sound)
    (took : q.Took choice pipe sem pipe' sem' q' done) : q'.Sound := by
  cases took with
  | stays l l' pipe' place ran =>
    have hpc := inside_locked sound place
    exact ⟨iff_of_true rfl hpc, sound.called, sound.polls⟩
  | leaves l done pipe' place ran =>
    have busy : q.Busy := by simp [Worker.Busy, inside_locked sound place, Pc.isReturned]
    exact ⟨by simp, fun _ => sound.called busy, by simp⟩
  | enters first pc begins free =>
    have busy : q.Busy := by simp [Worker.Busy, pc, Pc.isReturned]
    exact ⟨by simp, fun _ => sound.called busy, by simp⟩
  | up after pc =>
    have busy : q.Busy := by simp [Worker.Busy, pc, Pc.isReturned]
    refine ⟨?_, fun _ => sound.called busy, ?_⟩ <;> cases after <;> simp [After.pc]
  | refused sec p' outside owed busy cut call pc =>
    refine ⟨by simp [pc], fun h => ?_, by simp [pc]⟩
    simp [Worker.Busy, pc, Pc.isReturned] at h
  | quiet p' outside busy call outside' owes polls =>
    refine ⟨?_, fun _ => ?_, polls⟩
    · have hpc : p'.pc ≠ .locked := by
        intro h
        rw [h] at outside'
        cases outside'
      simp [hpc]
    · rw [call]
      exact sound.called busy

theorem took_kept (sound : q.Sound) (took : q.Took choice pipe sem pipe' sem' q' done) :
    q'.process.call = q.process.call ∧ q'.file = q.file ∧ q.Busy := by
  cases took with
  | stays l l' pipe' place ran =>
    exact ⟨rfl, rfl, by simp [Worker.Busy, inside_locked sound place, Pc.isReturned]⟩
  | leaves l done pipe' place ran =>
    exact ⟨rfl, rfl, by simp [Worker.Busy, inside_locked sound place, Pc.isReturned]⟩
  | enters first pc begins free => exact ⟨rfl, rfl, by simp [Worker.Busy, pc, Pc.isReturned]⟩
  | up after pc => exact ⟨rfl, rfl, by simp [Worker.Busy, pc, Pc.isReturned]⟩
  | refused sec p' outside owed busy cut call pc => exact ⟨call, rfl, busy⟩
  | quiet p' outside busy call outside' owes polls => exact ⟨call, rfl, busy⟩

end Steps

structure Worker.Same (q q' : Worker size φ) : Prop where
  pc : q'.process.pc = q.process.pc
  call : q'.process.call = q.process.call
  inside : q'.inside = q.inside
  file : q'.file = q.file

theorem woken_same (queue : Option WaitQueue) (q : Worker size φ) : q.Same (q.woken queue) := by
  constructor <;> simp [Worker.woken]

section Others
variable {q q' : Worker size φ}

theorem Worker.Same.busy (h : q.Same q') : q'.Busy ↔ q.Busy := by
  rw [Worker.Busy, Worker.Busy, h.pc]

theorem Worker.Same.sound (h : q.Same q') (sound : q.Sound) : q'.Sound := by
  constructor
  · rw [h.inside, h.pc]
    exact sound.inside
  · rw [h.busy, h.call]
    exact sound.called
  · rw [h.pc]
    exact sound.polls

end Others

/-! ## All processes -/

/-- `history` lists the sections that have been run, and by whom. Nothing depends on
it. -/
structure System (size : Nat) (ι φ : Type) where
  pipe : Backed
  sem : Nat
  workers : ι → Worker size φ
  files : List (φ × FMode)
  history : List (ι × Section size × Reply)

inductive Act (size : Nat) (φ : Type) where
  | start (call : Call) (file : φ)
  | go (choice : Choice size)

structure Orderly (w : System size ι φ) : Prop where
  exclusive : Exclusive w.sem fun i => (w.workers i).process.pc.inside = true
  sound : ∀ i, (w.workers i).Sound

/-! ## What a step does to the committed device -/

def Worker.owes (q : Worker size φ) : Option Int := q.process.pc.owes q.process.call

theorem busy_of_owes {q : Worker size φ} (h : q.owes = none) : q.Busy := by
  unfold Worker.Busy
  cases hpc : q.process.pc <;> simp_all [Worker.owes, Pc.owes, Pc.isReturned]

/-- Either the step is no end of a section, or it is the end of the one section of
its call that settles what the call returns. -/
inductive Settled (q q' : Worker size φ) (committed : Backed) :
    Option (Section size × Reply) → Backed → Prop
  | unseen (owes : q'.owes = q.owes) : Settled q q' committed none committed
  | ran (sec : Section size) (reply : Reply) (committed' : Backed) (owed : q.owes = none)
      (owes : q'.owes = reply.ret) (called : sec.Of q.process.call)
      (runs : ∀ files, (sec.run ⟨committed, files⟩).1 = reply ∧
        (sec.run ⟨committed, files⟩).2.pipe = committed') :
      Settled q q' committed (some (sec, reply)) committed'

theorem cutShort_runs {call : Call} {sec : Section size} (h : call.cutShort = some sec)
    (pipe : Backed) : sec.Of call ∧ ∀ files,
      (sec.run ⟨pipe, files⟩).1 = .returns (-ERESTARTSYS) ∧ (sec.run ⟨pipe, files⟩).2.pipe = pipe := by
  cases call with
  | scullPOpen mode =>
    cases h
    exact ⟨rfl, fun _ => ⟨rfl, rfl⟩⟩
  | scullPRelease mode =>
    cases h
    exact ⟨rfl, fun _ => ⟨rfl, rfl⟩⟩
  | scullPRead fFlags count =>
    cases h
    exact ⟨⟨rfl, rfl⟩, fun _ => ⟨rfl, rfl⟩⟩
  | scullPWrite fFlags buff =>
    cases h
    exact ⟨⟨rfl, rfl⟩, fun _ => ⟨rfl, rfl⟩⟩
  | scullPPoll => cases h

def begins (workers : ι → Worker size φ) (i : ι) (first : Inside size) : Prop :=
  (workers i).process.call.begins = some first

theorem nobody_inside {w : System size ι φ} (h : Orderly w) (free : 0 < w.sem) (i : ι) :
    (w.workers i).inside = none := by
  cases hi : (w.workers i).inside with
  | none => rfl
  | some l =>
    rcases h.exclusive with ⟨-, hnone⟩ | ⟨hsem, -⟩
    · have hpc := inside_locked (h.sound i) hi
      exact absurd (show (w.workers i).process.pc.inside = true by rw [hpc]; rfl) (hnone i)
    · omega

variable [DecidableEq ι]

section Exclusive
variable {w : System size ι φ}

theorem same_other {i j : ι} (hj : j ≠ i) (queue : Option WaitQueue) (q' : Worker size φ) :
    (w.workers j).Same (Function.update (fun j => (w.workers j).woken queue) i q' j) := by
  rw [Function.update_of_ne hj]
  exact woken_same queue (w.workers j)

theorem exclusive_went {i : ι} {choice : Choice size} {pipe' : Backed} {sem' : Nat}
    {q' : Worker size φ} {done : Option (Section size × Reply)} (h : Orderly w)
    (took : (w.workers i).Took choice w.pipe w.sem pipe' sem' q' done)
    (workers : ι → Worker size φ) (hi : workers i = q')
    (others : ∀ j, j ≠ i → (w.workers j).Same (workers j)) :
    Exclusive sem' fun j => (workers j).process.pc.inside = true := by
  have quiet (hsame : q'.process.pc.inside = (w.workers i).process.pc.inside) :
      Exclusive w.sem fun j => (workers j).process.pc.inside = true := by
    apply h.exclusive.congr
    intro j
    by_cases hj : j = i
    · rw [hj, hi, hsame]
    · rw [(others j hj).pc]
  cases took with
  | stays l l' pipe' place ran => exact quiet rfl
  | leaves l done pipe' place ran =>
    apply quiet
    rw [inside_locked (h.sound i) place]
    rfl
  | enters first pc begins free =>
    apply h.exclusive.down (i := i) free
    intro j
    by_cases hj : j = i
    · simp [hj, hi, Pc.inside]
    · simp [hj, (others j hj).pc]
  | up after pc =>
    apply h.exclusive.up (i := i) (by rw [pc]; rfl)
    intro j
    by_cases hj : j = i
    · simp [hj, hi, after_outside]
    · simp [hj, (others j hj).pc]
  | refused sec p' outside owed busy cut call pc =>
    apply quiet
    rw [outside, pc]
    rfl
  | quiet p' outside busy call outside' owes polls => exact quiet (outside'.trans outside.symm)

theorem guarded_went {i : ι} {choice : Choice size} {pipe' committed : Backed} {sem' : Nat}
    {q' : Worker size φ} {done : Option (Section size × Reply)} (h : Orderly w)
    (guarded : Guarded access (begins w.workers) (fun j => (w.workers j).inside) committed w.pipe)
    (took : (w.workers i).Took choice w.pipe w.sem pipe' sem' q' done)
    (workers : ι → Worker size φ) (hi : workers i = q')
    (others : ∀ j, j ≠ i → (w.workers j).Same (workers j)) :
    ∃ committed', Settled (w.workers i) q' committed done committed' ∧
      Guarded access (begins workers) (fun j => (workers j).inside) committed' pipe' := by
  have hothers (j : ι) (hj : j ≠ i) : (workers j).inside = (w.workers j).inside := (others j hj).inside
  have hkept (hcall : q'.process.call = (w.workers i).process.call) (j : ι) (first : Inside size)
      (hbegins : begins w.workers j first) : begins workers j first := by
    by_cases hj : j = i
    · subst hj
      rw [begins, hi, hcall]
      exact hbegins
    · rw [begins, (others j hj).call]
      exact hbegins
  have hframe (hcall : q'.process.call = (w.workers i).process.call)
      (hsame : q'.inside = (w.workers i).inside) :
      Guarded access (begins workers) (fun j => (workers j).inside) committed w.pipe := by
    apply guarded.frame
    · intro j
      by_cases hj : j = i
      · rw [hj, hi, hsame]
      · exact hothers j hj
    · exact fun j first _ => hkept hcall j first
  have hout (hpc : (w.workers i).process.pc ≠ .locked) : (w.workers i).inside = none := by
    rw [← Option.not_isSome_iff_eq_none, (h.sound i).inside]
    exact hpc
  have hfar (houtside : (w.workers i).process.pc.inside = false) :
      (w.workers i).process.pc ≠ .locked := by
    intro hpc
    rw [hpc] at houtside
    cases houtside
  cases took with
  | stays l l' pipe' place ran =>
    exact ⟨committed, .unseen rfl, guarded.stay place ran (by rw [hi]) hothers (hkept rfl i)⟩
  | leaves l finished pipe' place ran =>
    have hleave : (∃ first, begins w.workers i first ∧ Ends access first committed finished pipe') ∧
        Guarded access (begins workers) (fun j => (workers j).inside) pipe' pipe' :=
      guarded.leave place ran (by rw [hi]) hothers
    obtain ⟨⟨first, hfirst, hends⟩, hafter⟩ := hleave
    have hof := ends_section hfirst hends
    refine ⟨pipe', .ran _ _ pipe' ?_ hof.owes hof.called hof.runs, hafter⟩
    rw [Worker.owes, inside_locked (h.sound i) place]
    rfl
  | enters first pc hbegins free =>
    refine ⟨committed, .unseen ?_, guarded.enter (nobody_inside h free) ?_ (by rw [hi]) hothers⟩
    · rw [Worker.owes, Worker.owes, pc]
      rfl
    · rw [begins, hi]
      exact hbegins
  | up after pc =>
    refine ⟨committed, .unseen ?_, hframe rfl (hout (by simp [pc])).symm⟩
    rw [Worker.owes, Worker.owes, pc]
    exact owes_after _ after
  | refused sec p' outside owed busy cut call pc =>
    obtain ⟨hof, hruns⟩ := cutShort_runs cut committed
    refine ⟨committed, .ran _ _ _ owed ?_ hof hruns, hframe call (hout (hfar outside)).symm⟩
    rw [Worker.owes, pc]
    rfl
  | quiet p' outside busy call outside' owes polls =>
    exact ⟨committed, .unseen owes, hframe call (hout (hfar outside)).symm⟩

end Exclusive

variable [DecidableEq φ]

def filesAfter (files : List (φ × FMode)) (file : φ) :
    Option (Section size × Reply) → List (φ × FMode)
  | some (.scullPOpen mode _ _, reply) =>
      if reply.ret = some 0 then (file, mode) :: files else files
  | some (.scullPRelease mode _, _) => files.erase (file, mode)
  | _ => files

def System.step (w : System size ι φ) (i : ι) : Act size φ → Option (System size ι φ)
  | .start call file =>
      if (w.workers i).process.pc.isReturned then
        some { w with workers := Function.update w.workers i ⟨.start call, none, file⟩ }
      else none
  | .go choice =>
      ((w.workers i).step choice w.pipe w.sem).map fun (pipe, sem, q, done) =>
        { pipe, sem
          workers := Function.update
            (fun j => (w.workers j).woken (w.workers i).process.waking) i q
          files := filesAfter w.files (w.workers i).file done
          history := w.history ++ done.toList.map fun done => (i, done) }

def System.Startable (w : System size ι φ) (file : φ) : Call → Prop
  | .scullPOpen _ => file ∉ w.files.map Prod.fst ∧ ∀ i, (w.workers i).Busy → (w.workers i).file ≠ file
  | .scullPRelease mode =>
      (file, mode) ∈ w.files ∧ ∀ i, (w.workers i).Busy → (w.workers i).file ≠ file
  | .scullPPoll => False
  | _ =>
      file ∈ w.files.map Prod.fst ∧ ∀ i, (w.workers i).Busy → (w.workers i).file = file →
        (w.workers i).process.call.transfers = true

instance [Fintype ι] (w : System size ι φ) (file : φ) :
    (call : Call) → Decidable (w.Startable file call)
  | .scullPOpen _ => inferInstanceAs (Decidable (_ ∧ _))
  | .scullPRelease _ => inferInstanceAs (Decidable (_ ∧ _))
  | .scullPRead _ _ => inferInstanceAs (Decidable (_ ∧ _))
  | .scullPWrite _ _ => inferInstanceAs (Decidable (_ ∧ _))
  | .scullPPoll => inferInstanceAs (Decidable False)

def System.Allowed (w : System size ι φ) (label : ι × Act size φ) : Prop :=
  match label.2 with
  | .start call file => w.Startable file call
  | .go _ => True

instance [Fintype ι] (w : System size ι φ) : (label : ι × Act size φ) → Decidable (w.Allowed label)
  | (_, .start call file) => inferInstanceAs (Decidable (w.Startable file call))
  | (_, .go _) => inferInstanceAs (Decidable True)

def Advances (w : System size ι φ) (label : ι × Act size φ) (w' : System size ι φ) : Prop :=
  w.step label.1 label.2 = some w'

def System.init (size : Nat) (mem : Nat → Byte) (file : φ) : System size ι φ :=
  ⟨⟨scullPInitDev size, mem⟩, 1,
    fun _ => ⟨⟨.scullPPoll, .returned 0, 0, 0, none, false, []⟩, none, file⟩, [], []⟩

inductive Advanced (w : System size ι φ) : ι × Act size φ → System size ι φ → Prop
  | started (i : ι) (call : Call) (file : φ) (idle : ¬ (w.workers i).Busy) :
      Advanced w (i, .start call file)
        { w with workers := Function.update w.workers i ⟨.start call, none, file⟩ }
  | went (i : ι) (choice : Choice size) (pipe' : Backed) (sem' : Nat) (q' : Worker size φ)
      (done : Option (Section size × Reply))
      (took : (w.workers i).Took choice w.pipe w.sem pipe' sem' q' done) :
      Advanced w (i, .go choice)
        { pipe := pipe', sem := sem'
          workers := Function.update
            (fun j => (w.workers j).woken (w.workers i).process.waking) i q'
          files := filesAfter w.files (w.workers i).file done
          history := w.history ++ done.toList.map fun done => (i, done) }

theorem advances_cases {w w' : System size ι φ} {label : ι × Act size φ}
    (sound : ∀ i, (w.workers i).Sound) (h : Advances w label w') : Advanced w label w' := by
  obtain ⟨i, act⟩ := label
  cases act with
  | start call file =>
    simp only [Advances, System.step] at h
    split at h
    · next hidle =>
      cases h
      exact .started i call file (by simp [Worker.Busy, hidle])
    · cases h
  | go choice =>
    simp only [Advances, System.step, Option.map_eq_some_iff] at h
    obtain ⟨⟨pipe', sem', q', done⟩, hstep, hresult⟩ := h
    cases hresult
    exact .went i choice pipe' sem' q' done (took_cases (sound i) hstep)

section Orderly
variable {w w' : System size ι φ} {label : ι × Act size φ}

theorem advances_orderly (h : Orderly w) (hstep : Advances w label w') (allowed : w.Allowed label) :
    Orderly w' := by
  cases advances_cases h.sound hstep with
  | started i call file idle =>
    have hcall : call ≠ .scullPPoll := by
      rintro rfl
      exact allowed
    constructor
    · apply h.exclusive.congr
      intro j
      by_cases hj : j = i
      · subst hj
        have hpc : (w.workers j).process.pc.inside = false := by
          simp only [Worker.Busy, Bool.not_eq_false] at idle
          cases hpc : (w.workers j).process.pc <;> simp_all [Pc.isReturned, Pc.inside]
        simp [hpc, start_outside]
      · simp [Function.update_of_ne hj]
    · intro j
      by_cases hj : j = i
      · subst hj
        simp only [Function.update_self]
        exact ⟨by simp [Process.start], fun _ => hcall, by simp [Process.start]⟩
      · simpa [Function.update_of_ne hj] using h.sound j
  | went i choice pipe' sem' q' done took =>
    constructor
    · refine exclusive_went h took _ ?_ fun j hj => same_other hj _ q'
      simp
    · intro j
      by_cases hj : j = i
      · subst hj
        simpa using took_sound (h.sound j) took
      · exact (same_other hj _ q').sound (h.sound j)

end Orderly

end MyDrivers.Pipe
