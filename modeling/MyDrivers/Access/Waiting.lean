import Mathlib.Logic.Function.Basic
import MyDrivers.Access.Ownership
import MyDrivers.Lib.WaitQueue

/-! `scull_w_open` and `scull_w_release`, step by step, by any number of
processes. The count and the owner change under the spinlock; a process that has
joined `scull_w_wait` looks at them without it. -/
namespace MyDrivers.Access
open Lib Lib.Machine
open Store (Globals ScullDev EAGAIN ERESTARTSYS O_NONBLOCK)

inductive After where
  | wait
  | granted
  /-- The count it has left behind. -/
  | released (temp : Int)
  deriving DecidableEq, Repr

inductive Pc where
  | returned (ret : Int)
  | openLock
  /-- `scull_w_available`, under the lock. -/
  | check
  | enter
  | unlock (after : After)
  | flags
  /-- The condition of `wait_event_interruptible`, before the queue is joined. -/
  | test
  | prepareToWait
  /-- The condition, once the queue is joined. -/
  | evaluate
  | asleep
  | releaseLock
  | leave
  | wake
  deriving DecidableEq, Repr

structure Process where
  task : Task
  fFlags : Nat
  pc : Pc
  /-- On `scull_w_wait`. -/
  queued : Bool
  /-- Woken since it joined the queue last. -/
  awake : Bool
  deriving DecidableEq, Repr

/-- What the processes share; `files` counts the opens granted and not yet released. -/
structure Shared where
  guard : Guard
  locked : Bool
  files : Nat

structure World (ι : Type) where
  shared : Shared
  processes : ι → Process

/-! ## The code of one process -/

def After.pc : After → Pc
  | .wait => .flags
  | .granted => .returned 0
  | .released temp => if temp = 0 then .wake else .returned 0

def Shared.unlock (shared : Shared) (after : After) : Shared :=
  { shared with
    locked := false
    files := if after = .granted then shared.files + 1 else shared.files }

/-- One step of a process that is in a call. There is none while the process
cannot go on. -/
def Process.step (g : Globals) (signal : Bool) (shared : Shared) (p : Process) :
    Option (Shared × Process) :=
  match p.pc with
  | .returned _ => none
  | .openLock =>
      if shared.locked then none
      else some ({ shared with locked := true }, { p with pc := .check })
  | .check =>
      some (shared,
        { p with pc := if scullWAvailable p.task shared.guard then .enter else .unlock .wait })
  | .enter =>
      (shared.guard.enter g p.task p.fFlags).result.map fun guard =>
        ({ shared with guard := guard }, { p with pc := .unlock .granted })
  | .unlock after => some (shared.unlock after, { p with pc := after.pc })
  | .flags =>
      some (shared,
        { p with pc := if p.fFlags &&& O_NONBLOCK ≠ 0 then .returned (-EAGAIN) else .test })
  | .test =>
      some (shared,
        { p with pc := if scullWAvailable p.task shared.guard then .openLock else .prepareToWait })
  | .prepareToWait =>
      some (shared, { p with pc := .evaluate, queued := true, awake := false })
  | .evaluate =>
      if scullWAvailable p.task shared.guard then
        some (shared, { p with pc := .openLock, queued := false })
      else if signal then
        some (shared, { p with pc := .returned (-ERESTARTSYS), queued := false })
      else some (shared, { p with pc := .asleep })
  | .asleep =>
      if p.awake || signal then some (shared, { p with pc := .prepareToWait }) else none
  | .releaseLock =>
      if shared.locked then none
      else some ({ shared with locked := true }, { p with pc := .leave })
  | .leave =>
      let guard := shared.guard.leave
      some ({ shared with guard := guard }, { p with pc := .unlock (.released guard.count) })
  | .wake => some (shared, { p with pc := .returned 0 })

/-! ## All processes -/

/-- `wake_up_interruptible_sync`: a process that is woken leaves the queue. -/
def Process.woken (loud : Bool) (p : Process) : Process :=
  if loud && p.queued then { p with queued := false, awake := true } else p

inductive Action where
  | open (task : Task) (fFlags : Nat)
  | release
  | go (signal : Bool)
  deriving DecidableEq, Repr

section Worlds
variable {ι : Type} [DecidableEq ι]

/-- A call begins when the process is in none; a release needs a file to release. -/
def World.step (g : Globals) (w : World ι) (i : ι) : Action → Option (World ι)
  | .open task fFlags =>
      match (w.processes i).pc with
      | .returned _ =>
          some { w with
            processes := Function.update w.processes i ⟨task, fFlags, .openLock, false, false⟩ }
      | _ => none
  | .release =>
      match (w.processes i).pc with
      | .returned _ =>
          if w.shared.files = 0 then none
          else some
            ⟨{ w.shared with files := w.shared.files - 1 },
              Function.update w.processes i { w.processes i with pc := .releaseLock }⟩
      | _ => none
  | .go signal =>
      ((w.processes i).step g signal w.shared).map fun (shared, p) =>
        ⟨shared,
          Function.update
            (fun j => (w.processes j).woken (decide ((w.processes i).pc = .wake))) i p⟩

def Moves (g : Globals) (w : World ι) (label : ι × Action) (w' : World ι) : Prop :=
  w.step g label.1 label.2 = some w'

end Worlds

/-! ## What one step can do -/

inductive Process.Went (g : Globals) (shared : Shared) (p : Process) : Shared → Process → Prop
  | locked (next : Pc) (pc : p.pc = .openLock ∧ next = .check ∨ p.pc = .releaseLock ∧ next = .leave) :
      Went g shared p { shared with locked := true } { p with pc := next }
  | enter (pc : p.pc = .enter) (guard : Guard)
      (ran : (shared.guard.enter g p.task p.fFlags).result = some guard) :
      Went g shared p { shared with guard := guard } { p with pc := .unlock .granted }
  | unlock (after : After) (pc : p.pc = .unlock after) :
      Went g shared p (shared.unlock after) { p with pc := after.pc }
  | on (next : Pc) (queued : Bool)
      (pc : p.pc = .check ∨ p.pc = .flags ∨ p.pc = .test ∨ p.pc = .evaluate ∨ p.pc = .asleep)
      (place : next ≠ .evaluate ∧ next ≠ .asleep) :
      Went g shared p shared { p with pc := next, queued := queued }
  | prepareToWait (pc : p.pc = .prepareToWait) :
      Went g shared p shared { p with pc := .evaluate, queued := true, awake := false }
  | sleep (pc : p.pc = .evaluate) (busy : scullWAvailable p.task shared.guard = false) :
      Went g shared p shared { p with pc := .asleep }
  | leave (pc : p.pc = .leave) :
      Went g shared p { shared with guard := shared.guard.leave }
        { p with pc := .unlock (.released shared.guard.leave.count) }
  | wake (pc : p.pc = .wake) : Went g shared p shared { p with pc := .returned 0 }

theorem step_went {g : Globals} {signal : Bool} {shared shared' : Shared} {p p' : Process}
    (h : p.step g signal shared = some (shared', p')) : p.Went g shared shared' p' := by
  unfold Process.step at h
  cases hpc : p.pc with
  | returned ret =>
    rw [hpc] at h
    cases h
  | openLock =>
    simp only [hpc] at h
    split at h
    · cases h
    · cases h
      exact .locked .check (.inl ⟨hpc, rfl⟩)
  | check =>
    simp only [hpc] at h
    cases h
    refine .on _ p.queued (by simp [hpc]) ?_
    split <;> simp
  | enter =>
    simp only [hpc, Option.map_eq_some_iff] at h
    obtain ⟨guard, ran, hresult⟩ := h
    cases hresult
    exact .enter hpc guard ran
  | unlock after =>
    simp only [hpc] at h
    cases h
    exact .unlock after hpc
  | flags =>
    simp only [hpc] at h
    cases h
    refine .on _ p.queued (by simp [hpc]) ?_
    split <;> simp
  | test =>
    simp only [hpc] at h
    cases h
    refine .on _ p.queued (by simp [hpc]) ?_
    split <;> simp
  | prepareToWait =>
    simp only [hpc] at h
    cases h
    exact .prepareToWait hpc
  | evaluate =>
    simp only [hpc] at h
    split at h
    · cases h
      exact .on .openLock false (by simp [hpc]) (by simp)
    · next hbusy =>
      split at h
      · cases h
        exact .on _ false (by simp [hpc]) (by simp)
      · cases h
        exact .sleep hpc (Bool.eq_false_iff.mpr hbusy)
  | asleep =>
    simp only [hpc] at h
    split at h
    · cases h
      exact .on .prepareToWait p.queued (by simp [hpc]) (by simp)
    · cases h
  | releaseLock =>
    simp only [hpc] at h
    split at h
    · cases h
    · cases h
      exact .locked .leave (.inr ⟨hpc, rfl⟩)
  | leave =>
    simp only [hpc] at h
    cases h
    exact .leave hpc
  | wake =>
    simp only [hpc] at h
    cases h
    exact .wake hpc

inductive Moved {ι : Type} [DecidableEq ι] (g : Globals) (w : World ι) : ι × Action → World ι → Prop
  | started (i : ι) (action : Action) (files : Nat) (p : Process)
      (idle : ∃ ret, (w.processes i).pc = .returned ret)
      (place : p.pc = .openLock ∨ p.pc = .releaseLock) :
      Moved g w (i, action)
        ⟨{ w.shared with files := files }, Function.update w.processes i p⟩
  | went (i : ι) (signal : Bool) (shared' : Shared) (p' : Process)
      (step : (w.processes i).Went g w.shared shared' p') :
      Moved g w (i, .go signal)
        ⟨shared', Function.update
          (fun j => (w.processes j).woken (decide ((w.processes i).pc = .wake))) i p'⟩

theorem moves_cases {ι : Type} [DecidableEq ι] {g : Globals} {w w' : World ι}
    {label : ι × Action} (h : Moves g w label w') : Moved g w label w' := by
  obtain ⟨i, action⟩ := label
  cases action with
  | «open» task fFlags =>
    simp only [Moves, World.step] at h
    split at h
    · next ret idle =>
      cases h
      exact .started i _ w.shared.files _ ⟨ret, idle⟩ (.inl rfl)
    · cases h
  | release =>
    simp only [Moves, World.step] at h
    split at h
    · next ret idle =>
      split at h
      · cases h
      · cases h
        exact .started i _ _ _ ⟨ret, idle⟩ (.inr rfl)
    · cases h
  | go signal =>
    simp only [Moves, World.step, Option.map_eq_some_iff] at h
    obtain ⟨⟨shared', p'⟩, hstep, hresult⟩ := h
    cases hresult
    exact .went i signal shared' p' (step_went hstep)

/-! ## Sleepers and wake-ups -/

/-- Asleep on `scull_w_wait`, without a wake-up since the queue was joined. -/
structure Process.Asleep (p : Process) : Prop where
  asleep : p.pc = .asleep
  unwoken : p.awake = false

/-- The process has brought the count to 0 and has yet to wake the queue. -/
def Process.WillWake (p : Process) : Prop := p.pc = .unlock (.released 0) ∨ p.pc = .wake

/-- No open is granted that takes the count from -1 to 0. -/
def Counts {ι : Type} (w : World ι) (label : ι × Action) : Prop :=
  match label.2 with
  | .go _ => (w.processes label.1).pc = .enter → w.shared.guard.count ≠ -1
  | _ => True

structure World.Idle {ι : Type} (w : World ι) : Prop where
  returned : ∀ i, ∃ ret, (w.processes i).pc = .returned ret
  lower : -2147483648 ≤ w.shared.guard.count
  upper : w.shared.guard.count < 2147483648

/-- Only a wake-up takes a process off the queue between joining it and sleeping. -/
def Process.Queued (p : Process) : Prop :=
  p.pc = .evaluate ∨ p.pc = .asleep → p.awake = false → p.queued = true

structure Attended {ι : Type} (w : World ι) : Prop where
  lower : -2147483648 ≤ w.shared.guard.count
  upper : w.shared.guard.count < 2147483648
  queued : ∀ i, (w.processes i).Queued
  awaited : Awaited (fun i => (w.processes i).Asleep)
    (fun i => scullWAvailable (w.processes i).task w.shared.guard = true)
    (fun j => (w.processes j).WillWake)

section Guards
variable {g : Globals} {task : Task} {guard guard' : Guard}

theorem available_iff : scullWAvailable task guard = true ↔
    guard.count = 0 ∨ task.Allowed guard.owner := by
  unfold scullWAvailable Task.Allowed
  rw [eq_comm (a := task.uid), eq_comm (a := task.euid)]
  simp only [Bool.or_eq_true, decide_eq_true_eq, or_assoc]

theorem enter_eq {fFlags : Nat} (ran : (guard.enter g task fFlags).result = some guard') :
    guard'.count = int32 (guard.count + 1) ∧
      guard'.owner = if guard.count = 0 then task.uid else guard.owner := by
  simp only [Guard.enter, Traced.result_bind, Option.bind_eq_some_iff] at ran
  obtain ⟨dev, -, hresult⟩ := ran
  cases hresult
  exact ⟨rfl, rfl⟩

/-- An open makes the device available to nobody to whom it was not. -/
theorem enter_available {opener : Task} {fFlags : Nat}
    (ran : (guard.enter g opener fFlags).result = some guard')
    (lower : -2147483648 ≤ guard.count) (upper : guard.count < 2147483648)
    (counts : guard.count ≠ -1) (h : scullWAvailable task guard' = true) :
    scullWAvailable task guard = true := by
  obtain ⟨hcount, howner⟩ := enter_eq ran
  rw [available_iff] at h ⊢
  rw [hcount, howner] at h
  by_cases hfree : guard.count = 0
  · exact .inl hfree
  · rw [if_neg hfree] at h
    apply h.imp_left
    intro hzero
    unfold int32 at hzero
    omega

/-- Nor does a release that leaves the device open. -/
theorem leave_available (more : guard.leave.count ≠ 0)
    (h : scullWAvailable task guard.leave = true) : scullWAvailable task guard = true := by
  have howner : guard.leave.owner = guard.owner := if_neg more
  rw [available_iff] at h ⊢
  rw [howner] at h
  exact .inr (h.resolve_left more)

end Guards

section Steps
variable {g : Globals} {shared shared' : Shared} {p p' : Process}

theorem woken_asleep {loud : Bool} (h : (p.woken loud).Asleep) :
    p.Asleep ∧ ¬ (loud = true ∧ p.queued = true) := by
  unfold Process.woken at h
  split at h
  · exact absurd h.unwoken Bool.noConfusion
  · next hloud => exact ⟨h, by simpa using hloud⟩

@[simp] theorem woken_pc (loud : Bool) : (p.woken loud).pc = p.pc := by
  unfold Process.woken
  split <;> rfl

@[simp] theorem woken_task (loud : Bool) : (p.woken loud).task = p.task := by
  unfold Process.woken
  split <;> rfl

theorem woken_queued {loud : Bool} (h : p.Queued) : (p.woken loud).Queued := by
  unfold Process.woken
  split
  · exact fun _ hawake => Bool.noConfusion hawake
  · exact h

theorem queued_on (on : p.pc ≠ .evaluate ∧ p.pc ≠ .asleep) : p.Queued :=
  fun hpc => absurd hpc (not_or.mpr on)

theorem after_pc (after : After) : after.pc ≠ .evaluate ∧ after.pc ≠ .asleep := by
  cases after with
  | wait => simp [After.pc]
  | granted => simp [After.pc]
  | released temp =>
    unfold After.pc
    dsimp only
    split <;> simp

theorem went_queued (h : p.Queued) (step : p.Went g shared shared' p') : p'.Queued := by
  cases step with
  | locked next pc =>
    apply queued_on
    rcases pc with ⟨-, rfl⟩ | ⟨-, rfl⟩ <;> simp
  | enter pc guard ran => exact queued_on (by simp)
  | unlock after pc => exact queued_on (after_pc after)
  | on next queued pc place => exact queued_on place
  | prepareToWait pc => exact fun _ _ => rfl
  | sleep pc busy => exact fun _ => h (.inl pc)
  | leave pc => exact queued_on (by simp)
  | wake pc => exact queued_on (by simp)

inductive Process.Signals (p : Process) (guard guard' : Guard) (p' : Process) : Prop
  | quiet (silent : p.pc ≠ .wake)
      (others : ∀ task, scullWAvailable task guard' = true → scullWAvailable task guard = true)
      (sleeps : p'.Asleep → scullWAvailable p'.task guard' = false)
      (kept : p.WillWake → p'.WillWake)
  | announces (ahead : p'.WillWake)
  | wakes (loud : p.pc = .wake) (up : p'.pc ≠ .asleep)

theorem quiet_on (guard : Guard) (silent : ¬ p.WillWake) (up : p'.pc ≠ .asleep) :
    p.Signals guard guard p' :=
  .quiet (fun h => silent (.inr h)) (fun _ h => h) (fun h => absurd h.asleep up)
    fun h => absurd h silent

theorem went_signals (lower : -2147483648 ≤ shared.guard.count)
    (upper : shared.guard.count < 2147483648) (step : p.Went g shared shared' p')
    (counts : p.pc = .enter → shared.guard.count ≠ -1) :
    p.Signals shared.guard shared'.guard p' := by
  cases step with
  | locked next pc =>
    rcases pc with ⟨pc, rfl⟩ | ⟨pc, rfl⟩
    · exact quiet_on _ (by simp [Process.WillWake, pc]) (by simp)
    · exact quiet_on _ (by simp [Process.WillWake, pc]) (by simp)
  | enter pc guard ran =>
    refine .quiet (by simp [pc]) ?_ ?_ ?_
    · intro task h
      exact enter_available ran lower upper (counts pc) h
    · intro h
      cases h.asleep
    · intro h
      simp [Process.WillWake, pc] at h
  | unlock after pc =>
    refine .quiet (by simp [pc]) (fun _ h => h) (fun h => absurd h.asleep (after_pc after).2) ?_
    intro h
    rcases h with h | h
    · rw [pc] at h
      cases h
      exact .inr rfl
    · rw [pc] at h
      cases h
  | on next queued pc place =>
    apply quiet_on
    · rcases pc with pc | pc | pc | pc | pc <;> simp [Process.WillWake, pc]
    · exact place.2
  | prepareToWait pc => exact quiet_on _ (by simp [Process.WillWake, pc]) (by simp)
  | sleep pc busy =>
    refine .quiet (by simp [pc]) (fun _ h => h) (fun _ => busy) ?_
    intro h
    simp [Process.WillWake, pc] at h
  | leave pc =>
    by_cases hlast : shared.guard.leave.count = 0
    · apply Process.Signals.announces
      rw [hlast]
      exact .inl rfl
    · refine .quiet (by simp [pc]) (fun _ h => leave_available hlast h) ?_ ?_
      · intro h
        cases h.asleep
      · intro h
        simp [Process.WillWake, pc] at h
  | wake pc => exact .wakes pc (by simp)

theorem went_count (lower : -2147483648 ≤ shared.guard.count)
    (upper : shared.guard.count < 2147483648) (step : p.Went g shared shared' p') :
    -2147483648 ≤ shared'.guard.count ∧ shared'.guard.count < 2147483648 := by
  cases step with
  | enter pc guard ran =>
    rw [(enter_eq ran).1]
    exact int32_bounds _
  | leave pc => exact int32_bounds _
  | _ => exact ⟨lower, upper⟩

end Steps

theorem idle_attended {ι : Type} {w : World ι} (h : w.Idle) : Attended w := by
  refine ⟨h.lower, h.upper, ?_, ?_⟩
  · intro i
    obtain ⟨ret, hret⟩ := h.returned i
    exact queued_on (by simp [hret])
  · intro i hasleep
    obtain ⟨ret, hret⟩ := h.returned i
    rw [hasleep.asleep] at hret
    cases hret

section Runs
variable {ι : Type} [DecidableEq ι] {g : Globals} {w w' : World ι}

theorem attended_started {i : ι} {files : Nat} {p : Process} (h : Attended w)
    (idle : ∃ ret, (w.processes i).pc = .returned ret)
    (place : p.pc = .openLock ∨ p.pc = .releaseLock) :
    Attended ⟨{ w.shared with files := files }, Function.update w.processes i p⟩ := by
  have hup : p.pc ≠ .evaluate ∧ p.pc ≠ .asleep := by
    rcases place with hpc | hpc <;> simp [hpc]
  refine ⟨h.lower, h.upper, ?_, ?_⟩
  · intro j
    by_cases hj : j = i
    · subst hj
      simpa using queued_on hup
    · simpa [Function.update_of_ne hj] using h.queued j
  · apply h.awaited.frame
    · intro j hasleep havailable
      by_cases hj : j = i
      · subst hj
        have hpc := hasleep.asleep
        simp only [Function.update_self] at hpc
        exact absurd hpc hup.2
      · simp only [Function.update_of_ne hj] at hasleep havailable
        exact ⟨hasleep, havailable⟩
    · intro j hwill
      have hj : j ≠ i := by
        rintro rfl
        obtain ⟨ret, hret⟩ := idle
        simp [Process.WillWake, hret] at hwill
      simpa [Function.update_of_ne hj] using hwill

theorem attended_went {i : ι} {shared' : Shared} {p' : Process} (h : Attended w)
    (step : (w.processes i).Went g w.shared shared' p')
    (counts : (w.processes i).pc = .enter → w.shared.guard.count ≠ -1) :
    Attended ⟨shared', Function.update
      (fun j => (w.processes j).woken (decide ((w.processes i).pc = .wake))) i p'⟩ := by
  obtain ⟨hlower, hupper⟩ := went_count h.lower h.upper step
  refine ⟨hlower, hupper, ?_, ?_⟩
  · intro j
    by_cases hj : j = i
    · subst hj
      simpa using went_queued (h.queued j) step
    · simpa [Function.update_of_ne hj] using woken_queued (h.queued j)
  · cases went_signals h.lower h.upper step counts with
    | quiet silent others sleeps kept =>
      apply h.awaited.frame
      · intro j hasleep havailable
        by_cases hj : j = i
        · subst hj
          simp only [Function.update_self] at hasleep havailable
          exact Bool.noConfusion (havailable.symm.trans (sleeps hasleep))
        · simp only [Function.update_of_ne hj, woken_task] at hasleep havailable
          exact ⟨(woken_asleep hasleep).1, others _ havailable⟩
      · intro j hwill
        by_cases hj : j = i
        · subst hj
          simpa using kept hwill
        · simpa [Function.update_of_ne hj, Process.WillWake] using hwill
    | announces ahead => exact .announce (j := i) (by simpa using ahead)
    | wakes loud up =>
      apply Awaited.deliver
      intro j hasleep
      by_cases hj : j = i
      · subst hj
        exact up (by simpa using hasleep.asleep)
      · simp only [Function.update_of_ne hj] at hasleep
        obtain ⟨hasleep, hmissed⟩ := woken_asleep hasleep
        exact hmissed ⟨decide_eq_true loud, h.queued j (.inr hasleep.asleep) hasleep.unwoken⟩

theorem moves_attended {label : ι × Action} (h : Attended w) (hmove : Moves g w label w')
    (counts : Counts w label) : Attended w' := by
  cases moves_cases hmove with
  | started i action files p idle place => exact attended_started h idle place
  | went i signal shared' p' step => exact attended_went h step counts

theorem run_attended {labels : List (ι × Action)} (idle : w.Idle)
    (run : Run (While Counts (Moves g)) w labels w') : Attended w' :=
  run.invariant (fun _ => Attended) (idle_attended idle)
    fun _ _ _ _ _ h hmove => moves_attended h hmove.2 hmove.1

/-- An open that sleeps although the device is available to it has a wake-up coming. -/
theorem release_wakes {labels : List (ι × Action)} {i : ι} (idle : w.Idle)
    (run : Run (While Counts (Moves g)) w labels w') (asleep : (w'.processes i).Asleep)
    (available : scullWAvailable (w'.processes i).task w'.shared.guard = true) :
    ∃ j, (w'.processes j).WillWake :=
  (run_attended idle run).awaited i asleep available

end Runs

/-! ## One user waits for another -/

def user : Task := ⟨1000, 1000, false⟩

def opener (pc : Pc) : Process := ⟨root, 0, pc, false, false⟩

def sleeper (pc : Pc) (queued : Bool) : Process := ⟨user, 0, pc, queued, false⟩

/-- `n` files open, all of them root's. -/
def crowd (n : Nat) : Shared := ⟨⟨int32 n, 0, emptyDev⟩, false, n⟩

def pair (shared : Shared) (p q : Process) : World Bool := ⟨shared, fun b => if b then p else q⟩

section Pairs
variable {g : Globals} {shared shared' : Shared} {p p' q q' : Process}

theorem update_true : Function.update (fun b => if b = true then p else q) true p' =
    fun b => if b = true then p' else q := by
  funext b
  cases b <;> rfl

theorem update_false : Function.update (fun b => if b = true then p else q) false q' =
    fun b => if b = true then p else q' := by
  funext b
  cases b <;> rfl

theorem pair_opens {ret : Int} (h : p.pc = .returned ret) (task : Task) (fFlags : Nat) :
    Moves g (pair shared p q) (true, .open task fFlags)
      (pair shared ⟨task, fFlags, .openLock, false, false⟩ q) := by
  simp [Moves, World.step, pair, h, update_true]

theorem pair_asks {ret : Int} (h : q.pc = .returned ret) (task : Task) (fFlags : Nat) :
    Moves g (pair shared p q) (false, .open task fFlags)
      (pair shared p ⟨task, fFlags, .openLock, false, false⟩) := by
  simp [Moves, World.step, pair, h, update_false]

theorem pair_goes (h : p.step g false shared = some (shared', p')) (silent : p.pc ≠ .wake) :
    Moves g (pair shared p q) (true, .go false) (pair shared' p' q) := by
  simp [Moves, World.step, pair, h, silent, Process.woken, update_true]

theorem pair_follows (h : q.step g false shared = some (shared', q')) (silent : q.pc ≠ .wake) :
    Moves g (pair shared p q) (false, .go false) (pair shared' p q') := by
  simp [Moves, World.step, pair, h, silent, Process.woken, update_false]

end Pairs

def openSteps : List (Bool × Action) :=
  [(true, .open root 0), (true, .go false), (true, .go false), (true, .go false), (true, .go false)]

theorem crowd_enter (n : Nat) :
    ((crowd n).guard.enter quiet root 0).result = some (crowd (n + 1)).guard := by
  have hcount : int32 (int32 (n : Int) + 1) = int32 ((n + 1 : Nat) : Int) := by
    unfold int32
    omega
  have hdev : (Store.scullOpen quiet emptyDev 0).result = some emptyDev := rfl
  simp only [crowd, Guard.enter, Traced.result_bind, hdev, hcount]
  exact congrArg (fun owner => some (⟨int32 (n + 1 : Nat), owner, emptyDev⟩ : Guard)) (ite_self 0)

theorem crowd_available (n : Nat) : scullWAvailable root (crowd n).guard = true :=
  available_iff.mpr (.inr (.inl rfl))

theorem crowd_grows (n : Nat) (q : Process) :
    Run (Moves quiet) (pair (crowd n) (opener (.returned 0)) q) openSteps
      (pair (crowd (n + 1)) (opener (.returned 0)) q) := by
  have hlock : (opener .openLock).step quiet false (crowd n) =
      some ({ crowd n with locked := true }, opener .check) := rfl
  have hcheck : (opener .check).step quiet false { crowd n with locked := true } =
      some ({ crowd n with locked := true }, opener .enter) := by
    simp [Process.step, opener, crowd_available]
  have henter : (opener .enter).step quiet false { crowd n with locked := true } =
      some (⟨(crowd (n + 1)).guard, true, n⟩, opener (.unlock .granted)) := by
    simp only [Process.step, opener, crowd_enter]
    rfl
  apply Run.cons (pair_opens rfl root 0)
  apply Run.cons (pair_goes hlock (by simp [opener]))
  apply Run.cons (pair_goes hcheck (by simp [opener]))
  apply Run.cons (pair_goes henter (by simp [opener]))
  exact Run.single (pair_goes rfl (by simp [opener]))

def sleepSteps : List (Bool × Action) :=
  (false, .open user 0) :: List.replicate 7 (false, .go false)

theorem crowd_sleeps :
    Run (Moves quiet) (pair (crowd 1) (opener (.returned 0)) (sleeper (.returned 0) false))
      sleepSteps (pair (crowd 1) (opener (.returned 0)) (sleeper .asleep true)) := by
  have hbusy : scullWAvailable user (crowd 1).guard = false := by decide +kernel
  have hlock : (sleeper .openLock false).step quiet false (crowd 1) =
      some ({ crowd 1 with locked := true }, sleeper .check false) := rfl
  have hcheck : (sleeper .check false).step quiet false { crowd 1 with locked := true } =
      some ({ crowd 1 with locked := true }, sleeper (.unlock .wait) false) := by
    simp [Process.step, sleeper, hbusy]
  have hunlock : (sleeper (.unlock .wait) false).step quiet false { crowd 1 with locked := true } =
      some (crowd 1, sleeper .flags false) := rfl
  have hflags : (sleeper .flags false).step quiet false (crowd 1) =
      some (crowd 1, sleeper .test false) := rfl
  have htest : (sleeper .test false).step quiet false (crowd 1) =
      some (crowd 1, sleeper .prepareToWait false) := by
    simp [Process.step, sleeper, hbusy]
  have hprepare : (sleeper .prepareToWait false).step quiet false (crowd 1) =
      some (crowd 1, sleeper .evaluate true) := rfl
  have hevaluate : (sleeper .evaluate true).step quiet false (crowd 1) =
      some (crowd 1, sleeper .asleep true) := by
    simp [Process.step, sleeper, hbusy]
  apply Run.cons (pair_asks rfl user 0)
  apply Run.cons (pair_follows hlock (by simp [sleeper]))
  apply Run.cons (pair_follows hcheck (by simp [sleeper]))
  apply Run.cons (pair_follows hunlock (by simp [sleeper]))
  apply Run.cons (pair_follows hflags (by simp [sleeper]))
  apply Run.cons (pair_follows htest (by simp [sleeper]))
  apply Run.cons (pair_follows hprepare (by simp [sleeper]))
  exact Run.single (pair_follows hevaluate (by simp [sleeper]))

/-- Root opens the device `n` times, all but the first while the user sleeps. -/
def crowdSteps (n : Nat) : List (Bool × Action) :=
  openSteps ++ sleepSteps ++ (List.replicate (n - 1) openSteps).flatten

theorem crowd_run (n : Nat) (h : 0 < n) :
    Run (Moves quiet) (pair (crowd 0) (opener (.returned 0)) (sleeper (.returned 0) false))
      (crowdSteps n) (pair (crowd n) (opener (.returned 0)) (sleeper .asleep true)) := by
  induction n with
  | zero => exact absurd h (Nat.lt_irrefl 0)
  | succ n ih =>
    cases n with
    | zero => simpa [crowdSteps] using (crowd_grows 0 _).append crowd_sleeps
    | succ n =>
      have hsteps : crowdSteps (n + 2) = crowdSteps (n + 1) ++ openSteps := by
        simp [crowdSteps, List.replicate_succ']
      rw [hsteps]
      exact (ih (Nat.succ_pos n)).append (crowd_grows (n + 1) _)

def idlePair : World Bool := pair (crowd 0) (opener (.returned 0)) (sleeper (.returned 0) false)

theorem idle_pair : idlePair.Idle := by
  refine ⟨?_, by decide +kernel, by decide +kernel⟩
  intro i
  cases i with
  | false => exact ⟨0, rfl⟩
  | true => exact ⟨0, rfl⟩

instance (w : World Bool) (label : Bool × Action) : Decidable (Counts w label) :=
  match label with
  | (_, .open _ _) => isTrue trivial
  | (_, .release) => isTrue trivial
  | (i, .go _) =>
      inferInstanceAs (Decidable ((w.processes i).pc = .enter → w.shared.guard.count ≠ -1))

/-- Root opens the device, the user waits for it, and root is about to give the
lock back in its release. -/
def releaseSteps : List (Bool × Action) :=
  openSteps ++ sleepSteps ++ [(true, .release), (true, .go false), (true, .go false)]

def afterRelease : Option (World Bool) :=
  releaseSteps.foldlM
    (fun (w : World Bool) label =>
      if Counts w label then w.step quiet label.1 label.2 else none) idlePair

def releasedPair : World Bool := afterRelease.getD idlePair

theorem released_run :
    Run (While Counts (Moves quiet)) idlePair releaseSteps releasedPair := by
  have hpossible : afterRelease.isSome = true := by decide +kernel
  exact (Run.of_possible hpossible).checked

theorem release_wakes_user : ∃ j, (releasedPair.processes j).WillWake :=
  release_wakes (i := false) idle_pair released_run ⟨by decide +kernel, by decide +kernel⟩
    (by decide +kernel)

theorem crowd_lost {n : Nat} (h : n = 4294967296) :
    ∃ w : World Bool, Run (Moves quiet) idlePair (crowdSteps n) w ∧
      (w.processes false).Asleep ∧
      scullWAvailable (w.processes false).task w.shared.guard = true ∧
      ∀ j, ¬ (w.processes j).WillWake := by
  have hcount : (crowd n).guard.count = 0 := by
    unfold crowd int32
    simp only
    omega
  refine ⟨_, crowd_run n (by omega), ⟨rfl, rfl⟩, available_iff.mpr (.inl hcount), ?_⟩
  intro j hwill
  cases j with
  | false => rcases hwill with hpc | hpc <;> cases hpc
  | true => rcases hwill with hpc | hpc <;> cases hpc

/-- Root holds the device open `2 ^ 32` times: the count is 0 again and the user
sleeps on. -/
theorem wakeup_lost :
    idlePair.Idle ∧ ∃ w : World Bool, Run (Moves quiet) idlePair (crowdSteps 4294967296) w ∧
      (w.processes false).Asleep ∧
      scullWAvailable (w.processes false).task w.shared.guard = true ∧
      ∀ j, ¬ (w.processes j).WillWake :=
  ⟨idle_pair, crowd_lost rfl⟩

end MyDrivers.Access
