import MyDrivers.Access.Waiting
import MyDrivers.Lib.Census
import MyDrivers.Lib.Progress
import MyDrivers.Lib.Semaphore
import MyDrivers.Store.Trim

/-! `scull_wuid` left alone. The spinlock has one holder at most, the count is the
number of files while it does not overflow, and every process returns but those
whom the owner of an open file keeps out. -/
namespace MyDrivers.Access
open Lib Lib.Machine
open Store (Globals ScullDev EAGAIN O_NONBLOCK O_ACCMODE O_WRONLY)

def Pc.inside : Pc → Bool
  | .check => true
  | .enter => true
  | .unlock _ => true
  | .leave => true
  | _ => false

/-- The file of the call is counted by the device, but not by who opened it. -/
def Pc.holds (pc : Pc) : Prop :=
  pc = .unlock .granted ∨ pc = .releaseLock ∨ pc = .leave

def Pc.busy (pc : Pc) : Prop := ∀ ret, pc ≠ .returned ret

def Shared.permits (shared : Shared) : Nat := if shared.locked then 0 else 1

/-- `scull_trim` finds as many slots as it looks at. -/
def Trims (dev : ScullDev) : Prop :=
  ∀ node array, Store.slotsAt dev.data node = some array → (array.slots.length : Int) = dev.qset

/-- Two before the count changes, one until the queue has been woken. -/
def Pc.credit : Pc → Nat
  | .returned _ => 0
  | .unlock .granted => 1
  | .unlock (.released _) => 1
  | .wake => 1
  | _ => 2

/-- The steps to the end of the call or to sleep, while the count stays as it is and
nobody wakes the process. -/
def Pc.effort (available awake : Bool) : Pc → Nat
  | .returned _ => 0
  | .openLock => if available then 2 else 7
  | .check => if available then 1 else 6
  | .enter => 0
  | .unlock .wait => 5
  | .unlock .granted => 0
  | .unlock (.released _) => 1
  | .flags => 4
  | .test => 3
  | .prepareToWait => if available then 4 else 2
  | .evaluate => if available then 3 else if awake then 4 else 1
  | .asleep => if awake then if available then 5 else 3 else 0
  | .releaseLock => 1
  | .leave => 0
  | .wake => 0

def Process.effort (guard : Guard) (p : Process) : Nat :=
  p.pc.effort (scullWAvailable p.task guard) p.awake

/-- The scheduler's own steps: no call begins and no signal comes. -/
def Calm {ι : Type} (_ : World ι) (label : ι × Action) : Prop := label.2 = .go false

/-- No open begins where the files of all processes might be too many to count. -/
def Room {ι : Type} [Fintype ι] (w : World ι) (label : ι × Action) : Prop :=
  match label.2 with
  | .open _ _ => w.shared.files + Fintype.card ι < 2147483648
  | _ => True

section Steps
variable {g : Globals} {signal : Bool} {shared shared' : Shared} {p p' : Process}

inductive Process.Goes (g : Globals) (signal : Bool) (shared : Shared) (p : Process) :
    Shared → Process → Prop
  | takes (next : Pc) (pc : p.pc = .openLock ∧ next = .check ∨ p.pc = .releaseLock ∧ next = .leave)
      (free : shared.locked = false) :
      Goes g signal shared p { shared with locked := true } { p with pc := next }
  | check (pc : p.pc = .check) :
      Goes g signal shared p shared
        { p with pc := if scullWAvailable p.task shared.guard then .enter else .unlock .wait }
  | enter (pc : p.pc = .enter) (guard : Guard)
      (ran : (shared.guard.enter g p.task p.fFlags).result = some guard) :
      Goes g signal shared p { shared with guard := guard } { p with pc := .unlock .granted }
  | unlock (after : After) (pc : p.pc = .unlock after) :
      Goes g signal shared p (shared.unlock after) { p with pc := after.pc }
  | refused (pc : p.pc = .flags) : Goes g signal shared p shared { p with pc := .returned (-EAGAIN) }
  | waits (pc : p.pc = .flags) : Goes g signal shared p shared { p with pc := .test }
  | test (pc : p.pc = .test) :
      Goes g signal shared p shared
        { p with
          pc := if scullWAvailable p.task shared.guard then .openLock else .prepareToWait }
  | prepareToWait (pc : p.pc = .prepareToWait) :
      Goes g signal shared p shared { p with pc := .evaluate, queued := true, awake := false }
  | again (pc : p.pc = .evaluate) (available : scullWAvailable p.task shared.guard = true) :
      Goes g signal shared p shared { p with pc := .openLock, queued := false }
  | interrupted (pc : p.pc = .evaluate) (came : signal = true) :
      Goes g signal shared p shared { p with pc := .returned (-ERESTARTSYS), queued := false }
  | sleep (pc : p.pc = .evaluate) (busy : scullWAvailable p.task shared.guard = false) :
      Goes g signal shared p shared { p with pc := .asleep }
  | roused (pc : p.pc = .asleep) (up : p.awake = true ∨ signal = true) :
      Goes g signal shared p shared { p with pc := .prepareToWait }
  | leave (pc : p.pc = .leave) :
      Goes g signal shared p { shared with guard := shared.guard.leave }
        { p with pc := .unlock (.released shared.guard.leave.count) }
  | wake (pc : p.pc = .wake) : Goes g signal shared p shared { p with pc := .returned 0 }

theorem step_goes (h : p.step g signal shared = some (shared', p')) :
    p.Goes g signal shared shared' p' := by
  unfold Process.step at h
  cases hpc : p.pc with
  | returned ret =>
    rw [hpc] at h
    cases h
  | openLock =>
    simp only [hpc] at h
    split at h
    · cases h
    · next hfree =>
      cases h
      exact .takes _ (.inl ⟨hpc, rfl⟩) (Bool.eq_false_iff.mpr hfree)
  | check =>
    simp only [hpc] at h
    cases h
    exact .check hpc
  | enter =>
    simp only [hpc, Option.map_eq_some_iff] at h
    obtain ⟨guard, ran, hresult⟩ := h
    cases hresult
    exact .enter hpc guard ran
  | unlock after =>
    simp only [hpc] at h
    cases h
    exact .unlock after hpc
  | flags =>
    simp only [hpc] at h
    cases h
    split
    · exact .refused hpc
    · exact .waits hpc
  | test =>
    simp only [hpc] at h
    cases h
    exact .test hpc
  | prepareToWait =>
    simp only [hpc] at h
    cases h
    exact .prepareToWait hpc
  | evaluate =>
    simp only [hpc] at h
    split at h
    · next havailable =>
      cases h
      exact .again hpc havailable
    · next hbusy =>
      split at h
      · next hsignal =>
        cases h
        exact .interrupted hpc hsignal
      · cases h
        exact .sleep hpc (Bool.eq_false_iff.mpr hbusy)
  | asleep =>
    simp only [hpc] at h
    split at h
    · next hroused =>
      cases h
      exact .roused hpc (by simpa using hroused)
    · cases h
  | releaseLock =>
    simp only [hpc] at h
    split at h
    · cases h
    · next hfree =>
      cases h
      exact .takes _ (.inr ⟨hpc, rfl⟩) (Bool.eq_false_iff.mpr hfree)
  | leave =>
    simp only [hpc] at h
    cases h
    exact .leave hpc
  | wake =>
    simp only [hpc] at h
    cases h
    exact .wake hpc

/-! ### The spinlock -/

inductive Process.Locks (p : Process) (shared shared' : Shared) (p' : Process) : Prop
  | takes (free : shared.locked = false) (now : shared'.locked = true)
      (outside : p.pc.inside = false) (inside : p'.pc.inside = true)
  | gives (inside : p.pc.inside = true) (now : shared'.locked = false)
      (outside : p'.pc.inside = false)
  | keeps (same : shared'.locked = shared.locked) (place : p'.pc.inside = p.pc.inside)

theorem goes_locks (step : p.Goes g signal shared shared' p') : p.Locks shared shared' p' := by
  cases step with
  | takes next pc free =>
    rcases pc with ⟨pc, rfl⟩ | ⟨pc, rfl⟩
    · exact .takes free rfl (by rw [pc]; rfl) rfl
    · exact .takes free rfl (by rw [pc]; rfl) rfl
  | check pc =>
    apply Process.Locks.keeps rfl
    rw [pc]
    dsimp only
    split <;> rfl
  | test pc =>
    apply Process.Locks.keeps rfl
    rw [pc]
    dsimp only
    split <;> rfl
  | unlock after pc =>
    apply Process.Locks.gives
    · rw [pc]
      rfl
    · rfl
    · cases after with
      | released temp =>
        dsimp only [After.pc]
        split <;> rfl
      | _ => rfl
  | enter pc guard ran => exact .keeps rfl (by rw [pc]; rfl)
  | refused pc => exact .keeps rfl (by rw [pc]; rfl)
  | waits pc => exact .keeps rfl (by rw [pc]; rfl)
  | prepareToWait pc => exact .keeps rfl (by rw [pc]; rfl)
  | again pc available => exact .keeps rfl (by rw [pc]; rfl)
  | interrupted pc came => exact .keeps rfl (by rw [pc]; rfl)
  | sleep pc busy => exact .keeps rfl (by rw [pc]; rfl)
  | roused pc up => exact .keeps rfl (by rw [pc]; rfl)
  | leave pc => exact .keeps rfl (by rw [pc]; rfl)
  | wake pc => exact .keeps rfl (by rw [pc]; rfl)

/-! ### The count -/

inductive Process.Tallies (p : Process) (shared shared' : Shared) (p' : Process) : Prop
  | enters (count : shared'.guard.count = int32 (shared.guard.count + 1))
      (files : shared'.files = shared.files) (pc : p.pc = .enter) (now : p'.pc.holds)
  | leaves (count : shared'.guard.count = int32 (shared.guard.count - 1))
      (files : shared'.files = shared.files) (had : p.pc.holds) (gone : ¬ p'.pc.holds)
  | granted (count : shared'.guard.count = shared.guard.count)
      (files : shared'.files = shared.files + 1) (had : p.pc.holds) (gone : ¬ p'.pc.busy)
  | keeps (count : shared'.guard.count = shared.guard.count)
      (files : shared'.files = shared.files) (place : p'.pc.holds ↔ p.pc.holds)

theorem holds_busy (pc : Pc) (h : pc.holds) : pc.busy := by
  intro ret
  rcases h with rfl | rfl | rfl <;> simp

theorem goes_busy (step : p.Goes g signal shared shared' p') : p.pc.busy := by
  intro ret
  cases step with
  | takes next pc free => rcases pc with ⟨pc, -⟩ | ⟨pc, -⟩ <;> simp [pc]
  | _ => simp [*]

theorem goes_tallies (step : p.Goes g signal shared shared' p') : p.Tallies shared shared' p' := by
  cases step with
  | takes next pc free =>
    refine .keeps rfl rfl ?_
    rcases pc with ⟨pc, rfl⟩ | ⟨pc, rfl⟩ <;> simp [Pc.holds, pc]
  | check pc =>
    apply Process.Tallies.keeps rfl rfl
    dsimp only
    split <;> simp [Pc.holds, pc]
  | enter pc guard ran => exact .enters (enter_eq ran).1 rfl pc (.inl rfl)
  | unlock after pc =>
    cases after with
    | granted => exact .granted rfl rfl (.inl pc) (by simp [Pc.busy, After.pc])
    | wait => exact .keeps rfl rfl (by simp [Pc.holds, After.pc, pc])
    | released temp =>
      refine .keeps rfl rfl ?_
      dsimp only [After.pc]
      split <;> simp [Pc.holds, pc]
  | test pc =>
    apply Process.Tallies.keeps rfl rfl
    dsimp only
    split <;> simp [Pc.holds, pc]
  | refused pc => exact .keeps rfl rfl (by simp [Pc.holds, pc])
  | waits pc => exact .keeps rfl rfl (by simp [Pc.holds, pc])
  | prepareToWait pc => exact .keeps rfl rfl (by simp [Pc.holds, pc])
  | again pc available => exact .keeps rfl rfl (by simp [Pc.holds, pc])
  | interrupted pc came => exact .keeps rfl rfl (by simp [Pc.holds, pc])
  | sleep pc busy => exact .keeps rfl rfl (by simp [Pc.holds, pc])
  | roused pc up => exact .keeps rfl rfl (by simp [Pc.holds, pc])
  | leave pc => exact .leaves rfl rfl (.inr (.inr pc)) (by simp [Pc.holds])
  | wake pc => exact .keeps rfl rfl (by simp [Pc.holds, pc])

/-! ### The device -/

theorem trimmed_trims (dev : ScullDev) : Trims (Store.trimmed g dev) := by
  intro node array harray
  simp [Store.trimmed, Store.slotsAt] at harray

theorem enter_trims (h : Trims shared.guard.dev) (task : Task) (fFlags : Nat) :
    ∃ guard, (shared.guard.enter g task fFlags).result = some guard ∧ Trims guard.dev := by
  have hopen : ∃ dev, (Store.scullOpen g shared.guard.dev fFlags).result = some dev ∧
      Trims dev := by
    unfold Store.scullOpen
    split
    · obtain ⟨dev, hdev, rfl⟩ := (@Store.scullTrim_safe 0 _ _ g rfl h).ends
      exact ⟨_, hdev, trimmed_trims _⟩
    · exact ⟨_, rfl, h⟩
  obtain ⟨dev, hdev, htrims⟩ := hopen
  let owner := if shared.guard.count = 0 then task.uid else shared.guard.owner
  refine ⟨⟨int32 (shared.guard.count + 1), owner, dev⟩, ?_, htrims⟩
  simp only [Guard.enter, Traced.result_bind, hdev]
  rfl

theorem goes_trims (h : Trims shared.guard.dev) (step : p.Goes g signal shared shared' p') :
    Trims shared'.guard.dev := by
  cases step with
  | enter pc guard ran =>
    obtain ⟨guard', ran', htrims⟩ := enter_trims (g := g) h p.task p.fFlags
    cases ran.symm.trans ran'
    exact htrims
  | _ => exact h

/-! ### How far a process goes -/

theorem effort_le (guard : Guard) (p : Process) : p.effort guard ≤ 7 := by
  unfold Process.effort
  generalize scullWAvailable p.task guard = available
  cases p.pc with
  | unlock after => cases after <;> simp [Pc.effort]
  | _ => cases available <;> cases p.awake <;> simp [Pc.effort]

theorem credit_le (pc : Pc) : pc.credit ≤ 2 := by
  cases pc with
  | unlock after => cases after <;> simp [Pc.credit]
  | _ => simp [Pc.credit]

/-- What a step is worth: it spends credit, or it works on while nothing else changes. -/
inductive Process.Progresses (p : Process) (guard guard' : Guard) (p' : Process) : Prop
  | spends (less : p'.pc.credit < p.pc.credit)
  | works (credit : p'.pc.credit = p.pc.credit) (same : guard' = guard) (silent : p.pc ≠ .wake)
      (less : p'.effort guard < p.effort guard)

theorem goes_progresses (step : p.Goes g false shared shared' p') :
    p.Progresses shared.guard shared'.guard p' := by
  cases step with
  | takes next pc free =>
    rcases pc with ⟨pc, rfl⟩ | ⟨pc, rfl⟩
    · refine .works (by simp [pc, Pc.credit]) rfl (by simp [pc]) ?_
      simp only [Process.effort, pc, Pc.effort]
      split <;> omega
    · refine .works (by simp [pc, Pc.credit]) rfl (by simp [pc]) ?_
      simp [Process.effort, pc, Pc.effort]
  | check pc =>
    cases havailable : scullWAvailable p.task shared.guard with
    | true =>
      refine .works (by simp [pc, Pc.credit]) rfl (by simp [pc]) ?_
      simp [Process.effort, pc, Pc.effort, havailable]
    | false =>
      refine .works (by simp [pc, Pc.credit]) rfl (by simp [pc]) ?_
      simp [Process.effort, pc, Pc.effort, havailable]
  | enter pc guard ran => exact .spends (by simp [pc, Pc.credit])
  | unlock after pc =>
    cases after with
    | wait =>
      refine .works (by simp [pc, Pc.credit, After.pc]) rfl (by simp [pc]) ?_
      simp [Process.effort, pc, Pc.effort, After.pc]
    | granted => exact .spends (by simp [pc, Pc.credit, After.pc])
    | released temp =>
      by_cases hlast : temp = 0
      · refine .works (by simp [pc, Pc.credit, After.pc, hlast]) rfl (by simp [pc]) ?_
        simp [Process.effort, pc, Pc.effort, After.pc, hlast]
      · exact .spends (by simp [pc, Pc.credit, After.pc, hlast])
  | refused pc => exact .spends (by simp [pc, Pc.credit])
  | waits pc =>
    refine .works (by simp [pc, Pc.credit]) rfl (by simp [pc]) ?_
    simp [Process.effort, pc, Pc.effort]
  | test pc =>
    cases havailable : scullWAvailable p.task shared.guard with
    | true =>
      refine .works (by simp [pc, Pc.credit]) rfl (by simp [pc]) ?_
      simp [Process.effort, pc, Pc.effort, havailable]
    | false =>
      refine .works (by simp [pc, Pc.credit]) rfl (by simp [pc]) ?_
      simp [Process.effort, pc, Pc.effort, havailable]
  | prepareToWait pc =>
    refine .works (by simp [pc, Pc.credit]) rfl (by simp [pc]) ?_
    simp only [Process.effort, pc, Pc.effort]
    split <;> simp
  | again pc available =>
    refine .works (by simp [pc, Pc.credit]) rfl (by simp [pc]) ?_
    simp [Process.effort, pc, Pc.effort, available]
  | interrupted pc came => cases came
  | sleep pc busy =>
    refine .works (by simp [pc, Pc.credit]) rfl (by simp [pc]) ?_
    simp only [Process.effort, pc, Pc.effort, busy]
    cases p.awake <;> simp
  | roused pc up =>
    have hawake : p.awake = true := up.resolve_right Bool.false_ne_true
    refine .works (by simp [pc, Pc.credit]) rfl (by simp [pc]) ?_
    simp only [Process.effort, pc, Pc.effort, hawake, if_true]
    split <;> omega
  | leave pc => exact .spends (by simp [pc, Pc.credit])
  | wake pc => exact .spends (by simp [pc, Pc.credit])

theorem stuck_cases (trims : Trims shared.guard.dev) (stuck : p.step g false shared = none) :
    (∃ ret, p.pc = .returned ret) ∨
      p.pc.inside = false ∧ p.pc ≠ .asleep ∧ shared.locked = true ∨ p.Asleep := by
  unfold Process.step at stuck
  cases hpc : p.pc with
  | returned ret => exact .inl ⟨ret, rfl⟩
  | openLock =>
    simp only [hpc] at stuck
    split at stuck
    · next hlocked => exact .inr (.inl ⟨rfl, by simp, hlocked⟩)
    · cases stuck
  | enter =>
    simp only [hpc, Option.map_eq_none_iff] at stuck
    obtain ⟨guard, hguard, -⟩ := enter_trims (g := g) trims p.task p.fFlags
    rw [stuck] at hguard
    cases hguard
  | evaluate =>
    simp only [hpc] at stuck
    split at stuck
    · cases stuck
    · cases stuck
  | asleep =>
    simp only [hpc, Bool.or_false] at stuck
    cases hawake : p.awake with
    | false => exact .inr (.inr ⟨hpc, hawake⟩)
    | true => simp [hawake] at stuck
  | releaseLock =>
    simp only [hpc] at stuck
    split at stuck
    · next hlocked => exact .inr (.inl ⟨rfl, by simp, hlocked⟩)
    · cases stuck
  | _ => simp [hpc] at stuck

end Steps

/-! ## Runs -/

section Worlds
variable {ι : Type} {g : Globals} {w w' : World ι} {label : ι × Action}

def World.pcs (w : World ι) (i : ι) : Pc := (w.processes i).pc

structure Tallied (w : World ι) (n : Nat) : Prop where
  holders : census w.pcs Pc.holds + w.shared.files = n
  count : w.shared.guard.count = n
  room : census w.pcs Pc.busy + w.shared.files < 2147483648

structure Lively (w : World ι) : Prop where
  attended : Attended w
  exclusive : Exclusive w.shared.permits fun i => (w.processes i).pc.inside = true
  trims : Trims w.shared.guard.dev
  tallied : ∃ n, Tallied w n

/-- Everybody has returned, or sleeps because the device is another user's; the count
is the number of files that are open, and without one everybody has returned. -/
structure Rested (w : World ι) : Prop where
  rest : ∀ i, (∃ ret, (w.processes i).pc = .returned ret) ∨
    (w.processes i).Asleep ∧ scullWAvailable (w.processes i).task w.shared.guard = false
  count : w.shared.guard.count = w.shared.files
  closed : w.shared.files = 0 → ∀ i, ∃ ret, (w.processes i).pc = .returned ret

theorem Tallied.bound {n : Nat} (h : Tallied w n) : n < 2147483648 := by
  have hle : (n : ℕ∞) ≤ census w.pcs Pc.busy + w.shared.files := by
    rw [← h.holders]
    exact add_le_add_left (census_le holds_busy) _
  exact_mod_cast hle.trans_lt h.room

theorem tallied_counts (h : ∃ n, Tallied w n) (label : ι × Action) : Counts w label := by
  obtain ⟨n, h⟩ := h
  unfold Counts
  split
  · intro _
    have hcount := h.count
    omega
  · trivial

theorem calm_room [Fintype ι] (h : Calm w label) : Room w label := by
  obtain ⟨i, action⟩ := label
  cases h
  trivial

variable [DecidableEq ι]

theorem started_pcs (shared : Shared) (i : ι) (p : Process) :
    World.pcs ⟨shared, Function.update w.processes i p⟩ = Function.update w.pcs i p.pc := by
  funext j
  by_cases hj : j = i
  · subst hj
    simp [World.pcs]
  · simp [World.pcs, Function.update_of_ne hj]

theorem went_pcs (shared : Shared) (loud : Bool) (i : ι) (p : Process) :
    World.pcs ⟨shared, Function.update (fun j => (w.processes j).woken loud) i p⟩ =
      Function.update w.pcs i p.pc := by
  funext j
  by_cases hj : j = i
  · subst hj
    simp [World.pcs]
  · simp [World.pcs, Function.update_of_ne hj]

theorem exclusive_went {i : ι} {shared' : Shared} {p' : Process}
    (h : Exclusive w.shared.permits fun j => (w.pcs j).inside = true)
    (step : (w.processes i).Locks w.shared shared' p') :
    Exclusive shared'.permits fun j => (Function.update w.pcs i p'.pc j).inside = true := by
  cases step with
  | takes free now outside inside =>
    have hpermits : shared'.permits = w.shared.permits - 1 := by simp [Shared.permits, free, now]
    rw [hpermits]
    apply h.down (i := i)
    · simp [Shared.permits, free]
    · intro j
      by_cases hj : j = i
      · subst hj
        simp [inside]
      · simp [hj]
  | gives inside now outside =>
    have hlocked : w.shared.permits = 0 := by
      rcases h with ⟨-, hnone⟩ | ⟨hzero, -⟩
      · exact absurd inside (hnone i)
      · exact hzero
    have hpermits : shared'.permits = w.shared.permits + 1 := by
      rw [hlocked]
      simp [Shared.permits, now]
    rw [hpermits]
    apply h.up (i := i) inside
    intro j
    by_cases hj : j = i
    · subst hj
      simp [outside]
    · simp [hj]
  | keeps same place =>
    have hpermits : shared'.permits = w.shared.permits := by simp [Shared.permits, same]
    rw [hpermits]
    apply h.congr
    intro j
    by_cases hj : j = i
    · subst hj
      simp [place, World.pcs]
    · simp [hj]

theorem room_went {i : ι} {shared' : Shared} {p' : Process} (loud : Bool)
    (h : census w.pcs Pc.busy + w.shared.files < 2147483648) (busy : (w.processes i).pc.busy)
    (step : (w.processes i).Tallies w.shared shared' p') :
    census (World.pcs ⟨shared', Function.update (fun j => (w.processes j).woken loud) i p'⟩)
      Pc.busy + shared'.files < 2147483648 := by
  have hless : census (Function.update w.pcs i p'.pc) Pc.busy ≤ census w.pcs Pc.busy :=
    census_old (f := w.pcs) busy
  rw [went_pcs]
  cases step with
  | enters count files pc now =>
    rw [files]
    exact (add_le_add_left hless _).trans_lt h
  | leaves count files had gone =>
    rw [files]
    exact (add_le_add_left hless _).trans_lt h
  | granted count files had gone =>
    rw [census_leave (f := w.pcs) busy gone] at h
    rw [files, Nat.cast_add, Nat.cast_one, add_comm (w.shared.files : ℕ∞), ← add_assoc]
    exact h
  | keeps count files place =>
    rw [files]
    exact (add_le_add_left hless _).trans_lt h

theorem tallied_went {n : Nat} {i : ι} {shared' : Shared} {p' : Process} {loud : Bool}
    (h : Tallied w n) (busy : (w.processes i).pc.busy)
    (step : (w.processes i).Tallies w.shared shared' p') :
    ∃ n', Tallied ⟨shared', Function.update (fun j => (w.processes j).woken loud) i p'⟩ n' := by
  have hroom := room_went loud h.room busy step
  have hholders := h.holders
  have hcount := h.count
  cases step with
  | enters count files pc now =>
    have hbefore : ¬ (w.pcs i).holds := by simp [World.pcs, pc, Pc.holds]
    have hafter : census (World.pcs ⟨shared', Function.update (fun j => (w.processes j).woken loud)
        i p'⟩) Pc.holds + shared'.files = (n + 1 : Nat) := by
      rw [went_pcs, census_enter hbefore now, files, add_right_comm, hholders]
      rfl
    have hbound : n + 1 < 2147483648 := by
      have hle := hafter.symm.trans_le (add_le_add_left (census_le holds_busy) _)
      exact_mod_cast hle.trans_lt hroom
    refine ⟨n + 1, hafter, ?_, hroom⟩
    rw [count, hcount, int32_eq_self (by omega) (by omega)]
    rfl
  | leaves count files had gone =>
    have hbound := h.bound
    rw [census_leave (f := w.pcs) had gone, add_right_comm] at hholders
    cases n with
    | zero => simp at hholders
    | succ n =>
      refine ⟨n, ?_, ?_, hroom⟩
      · rw [went_pcs, files]
        exact WithTop.add_right_cancel ENat.one_ne_top hholders
      · rw [count, hcount, int32_eq_self (by omega) (by omega)]
        simp
  | granted count files had gone =>
    refine ⟨n, ?_, count.trans hcount, hroom⟩
    have hout : ¬ p'.pc.holds := fun hholds => gone (holds_busy _ hholds)
    rw [went_pcs, files, ← hholders, census_leave (f := w.pcs) had hout]
    push_cast
    rw [add_assoc, add_comm 1]
  | keeps count files place =>
    refine ⟨n, ?_, count.trans hcount, hroom⟩
    rw [went_pcs, files, census_stay (f := w.pcs) place]
    exact hholders

theorem moves_started {action : Action} {i : ι} (hmove : Moves g w (i, action) w')
    (begins : ∀ signal, action ≠ .go signal) :
    ∃ ret p files, (w.processes i).pc = .returned ret ∧
      w' = ⟨{ w.shared with files := files }, Function.update w.processes i p⟩ ∧
      (p.pc = .openLock ∧ files = w.shared.files ∧ (∃ task fFlags, action = .open task fFlags) ∨
        p.pc = .releaseLock ∧ files + 1 = w.shared.files) := by
  cases action with
  | «open» task fFlags =>
    simp only [Moves, World.step] at hmove
    split at hmove
    · next ret idle =>
      cases hmove
      exact ⟨ret, _, _, idle, rfl, .inl ⟨rfl, rfl, task, fFlags, rfl⟩⟩
    · cases hmove
  | release =>
    simp only [Moves, World.step] at hmove
    split at hmove
    · next ret idle =>
      split at hmove
      · cases hmove
      · next hfiles =>
        cases hmove
        refine ⟨ret, _, _, idle, rfl, .inr ⟨rfl, ?_⟩⟩
        omega
    · cases hmove
  | go signal => exact absurd rfl (begins signal)

theorem tallied_started [Fintype ι] {n : Nat} {action : Action} {i : ι} {ret : Int} {p : Process}
    {files : Nat} (h : Tallied w n) (room : Room w (i, action))
    (idle : (w.processes i).pc = .returned ret)
    (begins : p.pc = .openLock ∧ files = w.shared.files ∧ (∃ task fFlags, action = .open task fFlags) ∨
      p.pc = .releaseLock ∧ files + 1 = w.shared.files) :
    Tallied ⟨{ w.shared with files := files }, Function.update w.processes i p⟩ n := by
  have hout : ¬ (w.pcs i).holds := by simp [World.pcs, idle, Pc.holds]
  have hidle : ¬ (w.pcs i).busy := by simp [World.pcs, idle, Pc.busy]
  rcases begins with ⟨hpc, hfiles, task, fFlags, rfl⟩ | ⟨hpc, hfiles⟩
  · refine ⟨?_, h.count, ?_⟩
    · have hstill : ¬ p.pc.holds := by simp [hpc, Pc.holds]
      rw [started_pcs, census_stay (iff_of_false hstill hout), hfiles]
      exact h.holders
    · classical
      rw [started_pcs, hfiles, census_eq_card]
      have hcard := Finset.card_le_univ
        (Finset.univ.filter fun j => (Function.update w.pcs i p.pc j).busy)
      have hroom : w.shared.files + Fintype.card ι < 2147483648 := room
      have hboth : (Finset.univ.filter fun j => (Function.update w.pcs i p.pc j).busy).card +
          w.shared.files < 2147483648 := by omega
      exact_mod_cast hboth
  · refine ⟨?_, h.count, ?_⟩
    · rw [started_pcs, census_enter hout (.inr (.inl hpc)), ← h.holders, ← hfiles]
      push_cast
      rw [add_assoc, add_comm 1]
    · have hroom := h.room
      have hbusy : p.pc.busy := by simp [hpc, Pc.busy]
      rw [← hfiles] at hroom
      rw [started_pcs, census_enter hidle hbusy, add_assoc, add_comm 1]
      exact_mod_cast hroom

theorem moves_lively [Fintype ι] (h : Lively w) (hmove : Moves g w label w') (room : Room w label) :
    Lively w' := by
  have hattended := moves_attended h.attended hmove (tallied_counts h.tallied label)
  obtain ⟨n, htallied⟩ := h.tallied
  obtain ⟨i, action⟩ := label
  by_cases hbegins : ∀ signal, action ≠ .go signal
  · obtain ⟨ret, p, files, idle, rfl, begins⟩ := moves_started hmove hbegins
    refine ⟨hattended, ?_, h.trims, n, tallied_started htallied room idle begins⟩
    have hout : (w.processes i).pc.inside = false := by
      rw [idle]
      rfl
    have hstill : p.pc.inside = false := by
      rcases begins with ⟨hpc, -⟩ | ⟨hpc, -⟩ <;> rw [hpc] <;> rfl
    apply h.exclusive.congr
    intro j
    by_cases hj : j = i
    · subst hj
      simp [hout, hstill]
    · simp [hj]
  · simp only [not_forall, not_not] at hbegins
    obtain ⟨signal, rfl⟩ := hbegins
    simp only [Moves, World.step, Option.map_eq_some_iff] at hmove
    obtain ⟨⟨shared', p'⟩, hstep, rfl⟩ := hmove
    have hgoes := step_goes hstep
    have hexclusive := exclusive_went h.exclusive (goes_locks hgoes)
    rw [← went_pcs] at hexclusive
    exact ⟨hattended, hexclusive, goes_trims h.trims hgoes,
      tallied_went htallied (goes_busy hgoes) (goes_tallies hgoes)⟩

section Measure
variable [Fintype ι]

def World.potential (w : World ι) : Nat :=
  Lib.potential 7 (fun i => (w.processes i).pc.credit) fun i =>
    (w.processes i).effort w.shared.guard

theorem calm_falls (hmove : While Calm (Moves g) w label w') : w'.potential < w.potential := by
  obtain ⟨hcalm, hmove⟩ := hmove
  obtain ⟨i, action⟩ := label
  cases hcalm
  simp only [Moves, World.step, Option.map_eq_some_iff] at hmove
  obtain ⟨⟨shared', p'⟩, hstep, rfl⟩ := hmove
  apply potential_falls (i := i)
  · intro j hj
    simp [Function.update_of_ne hj]
  · exact fun j => effort_le shared'.guard _
  · cases goes_progresses (step_goes hstep) with
    | spends less =>
      left
      simpa using less
    | works credit same silent less =>
      right
      refine ⟨by simpa using credit, by simpa [same] using less, ?_⟩
      intro j hj
      simp [Function.update_of_ne hj, silent, Process.woken, same]

end Measure

/-- Where no calm step is left, nobody is inside the spinlock, holds a file or has a
wake-up ahead. -/
theorem lively_rested (h : Lively w) (stuck : ∀ label w', ¬ While Calm (Moves g) w label w') :
    Rested w := by
  have place (i : ι) := by
    refine stuck_cases (g := g) (p := w.processes i) h.trims ?_
    by_contra hsome
    obtain ⟨next, hnext⟩ := Option.ne_none_iff_exists'.mp hsome
    obtain ⟨w', hw⟩ : ∃ w', w.step g i (.go false) = some w' := by simp [World.step, hnext]
    exact stuck (i, .go false) w' ⟨rfl, hw⟩
  have houtside (i : ι) : ¬ (w.processes i).pc.inside = true := by
    rcases place i with ⟨ret, hpc⟩ | ⟨hinside, -⟩ | hasleep
    · simp [hpc, Pc.inside]
    · simp [hinside]
    · simp [hasleep.asleep, Pc.inside]
  have hfree : w.shared.locked = false := by
    have hpermits := h.exclusive.free houtside
    unfold Shared.permits at hpermits
    split at hpermits
    · cases hpermits
    · next hlocked => exact Bool.eq_false_iff.mpr hlocked
  have rest (i : ι) : (∃ ret, (w.processes i).pc = .returned ret) ∨ (w.processes i).Asleep := by
    rcases place i with hreturned | ⟨-, -, hlocked⟩ | hasleep
    · exact .inl hreturned
    · exact Bool.noConfusion (hfree.symm.trans hlocked)
    · exact .inr hasleep
  have kept_out (i : ι) (hasleep : (w.processes i).Asleep) :
      scullWAvailable (w.processes i).task w.shared.guard = false := by
    apply Bool.eq_false_iff.mpr
    intro havailable
    obtain ⟨j, hwill⟩ := h.attended.awaited i hasleep havailable
    rcases rest j with ⟨ret, hpc⟩ | hup
    · simp [Process.WillWake, hpc] at hwill
    · simp [Process.WillWake, hup.asleep] at hwill
  have hcount : w.shared.guard.count = w.shared.files := by
    obtain ⟨n, htallied⟩ := h.tallied
    have hnone : census w.pcs Pc.holds = 0 := by
      apply census_none
      intro i
      unfold World.pcs
      rcases rest i with ⟨ret, hpc⟩ | hasleep
      · simp [hpc, Pc.holds]
      · simp [hasleep.asleep, Pc.holds]
    have hholders := htallied.holders
    rw [hnone, zero_add] at hholders
    rw [htallied.count, ENat.natCast_inj.mp hholders]
  refine ⟨?_, hcount, ?_⟩
  · intro i
    apply (rest i).imp_right
    exact fun hasleep => ⟨hasleep, kept_out i hasleep⟩
  · intro hclosed i
    apply (rest i).resolve_right
    intro hasleep
    have havailable : scullWAvailable (w.processes i).task w.shared.guard = true := by
      apply available_iff.mpr
      left
      rw [hcount, hclosed]
      rfl
    exact Bool.noConfusion ((kept_out i hasleep).symm.trans havailable)

/-- Left alone after any run of opens, releases and signals, the processes take so many
steps at most, and when they can take no more they have come to rest; and so they do. -/
theorem open_settles [Fintype ι] {start : World ι} (idle : start.Idle)
    (free : start.shared.locked = false) (trims : Trims start.shared.guard.dev)
    (count : start.shared.guard.count = start.shared.files) {labels : List (ι × Action)}
    (run : Run (While Room (Moves g)) start labels w) :
    (∀ labels' w', Run (While Calm (Moves g)) w labels' w' →
      labels'.length ≤ Fintype.card ι * (14 * Fintype.card ι + 9) ∧
        ((∀ label w'', ¬ While Calm (Moves g) w' label w'') → Rested w')) ∧
      ∃ labels' w', Run (While Calm (Moves g)) w labels' w' ∧ Rested w' := by
  have hpcs (i : ι) : ∃ ret, start.pcs i = .returned ret := idle.returned i
  have hlively : Lively w := by
    refine run.invariant (fun _ => Lively) ?_ fun _ _ _ _ _ h hmove =>
      moves_lively h hmove.2 hmove.1
    refine ⟨idle_attended idle, ?_, trims, start.shared.files, ?_, count, ?_⟩
    · left
      refine ⟨by simp [Shared.permits, free], fun i => ?_⟩
      obtain ⟨ret, hret⟩ := idle.returned i
      simp [hret, Pc.inside]
    · rw [census_none, zero_add]
      intro i
      obtain ⟨ret, hret⟩ := hpcs i
      simp [hret, Pc.holds]
    · rw [census_none, zero_add]
      · have hupper := idle.upper
        have hfiles : start.shared.files < 2147483648 := by omega
        exact_mod_cast hfiles
      · intro i
        obtain ⟨ret, hret⟩ := hpcs i
        simp [hret, Pc.busy]
  apply Run.settles hlively
  · intro s label t h hmove
    exact moves_lively h hmove.2 (calm_room hmove.1)
  · exact fun _ _ _ _ => calm_falls
  · exact fun s => lively_rested
  · have hmost := @potential_le ι _ 7 _ _ 2
      (fun i => credit_le (w.processes i).pc) fun i => effort_le w.shared.guard (w.processes i)
    have heq : (Fintype.card ι * 7 + 1) * 2 + 7 = 14 * Fintype.card ι + 9 := by omega
    rw [heq] at hmost
    exact hmost

end Worlds

instance (w : World Bool) (label : Bool × Action) : Decidable (Room w label) :=
  match label with
  | (_, .open _ _) => inferInstanceAs (Decidable (w.shared.files + Fintype.card Bool < 2147483648))
  | (_, .release) => isTrue trivial
  | (_, .go _) => isTrue trivial

theorem open_settles_released : ∃ w, Run (While Room (Moves quiet)) idlePair releaseSteps w ∧
    ∃ labels' w', Run (While Calm (Moves quiet)) w labels' w' ∧ Rested w' := by
  have hpossible : (releaseSteps.foldlM (fun (w : World Bool) label =>
      if Room w label then w.step quiet label.1 label.2 else none) idlePair).isSome = true := by
    decide +kernel
  have hrun := (Run.of_possible hpossible).checked
  have htrims : Trims idlePair.shared.guard.dev := by
    intro node array harray
    cases harray
  exact ⟨_, hrun, (open_settles idle_pair rfl htrims (by decide +kernel) hrun).2⟩

end MyDrivers.Access
