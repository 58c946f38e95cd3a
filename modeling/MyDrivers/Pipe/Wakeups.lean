import MyDrivers.Lib.WaitQueue
import MyDrivers.Pipe.Processes

/-! Wake-ups of readers and writers. The conditions of `inq` and `outq` are looked
at without the semaphore, but after the queue is joined; a pointer moves under
the semaphore, and its wake-up comes after that. -/
namespace MyDrivers.Pipe
open Lib
open Store (Byte)

variable {size : Nat} {ι : Type}

/-- Asleep on the queue, without a wake-up since it was joined. -/
structure Process.SleepsOn (queue : WaitQueue) (p : Process) : Prop where
  asleep : p.pc = .asleep
  unwoken : p.awake = false
  waits : p.call.waitsOn = some queue

/-- The process has moved its pointer and has yet to wake the queue. -/
structure Process.WillWake (queue : WaitQueue) (p : Process) : Prop where
  ahead : ∃ ret, p.pc = .up (.wake ret) ∨ p.pc = .wake ret
  wakes : p.call.wakes = some queue

def Call.transfers : Call → Bool
  | .scullPRead _ _ => true
  | .scullPWrite _ _ => true
  | _ => false

def Transfers (_ : World ι) (label : ι × Action size) : Prop :=
  match label.2 with
  | .start call => call.transfers = true
  | .go _ => True

def World.Idle (w : World ι) : Prop := ∀ i, ∃ ret, (w.processes i).pc = .returned ret

structure Process.Sound (p : Process) : Prop where
  transfers : (∀ ret, p.pc ≠ .returned ret) → p.call.transfers = true
  /-- Only a wake-up takes a process off the queue between joining it and sleeping. -/
  queued : p.pc = .evaluate ∨ p.pc = .asleep → p.awake = false → p.queue = p.call.waitsOn

structure Attended (w : World ι) : Prop where
  sound : ∀ i, (w.processes i).Sound
  awaited : ∀ queue : WaitQueue, Awaited (fun i => (w.processes i).SleepsOn queue)
    (fun _ => queue.ready w.pipe.dev) (fun j => (w.processes j).WillWake queue)

/-! ## What one step does to a queue -/

section Steps
variable {p p' : Process} {choice : Choice size} {pipe pipe' : Backed} {sem sem' : Nat}
  {queue : WaitQueue}

theorem not_sleepsOn (h : p.pc ≠ .asleep) : ¬ p.SleepsOn queue :=
  fun hsleeps => h hsleeps.asleep

theorem woken_sleepsOn {other : Option WaitQueue} (h : (p.woken other).SleepsOn queue) :
    p.SleepsOn queue ∧ ¬ (p.queue.isSome ∧ p.queue = other) := by
  unfold Process.woken at h
  split at h
  · exact absurd h.unwoken Bool.noConfusion
  · next hother => exact ⟨h, hother⟩

theorem woken_willWake (other : Option WaitQueue) :
    (p.woken other).WillWake queue ↔ p.WillWake queue := by
  constructor
  · intro h
    exact ⟨by simpa using h.ahead, by simpa using h.wakes⟩
  · intro h
    exact ⟨by simpa using h.ahead, by simpa using h.wakes⟩

theorem woken_sound {other : Option WaitQueue} (h : p.Sound) : (p.woken other).Sound := by
  unfold Process.woken
  split
  · exact ⟨h.transfers, fun _ hawake => Bool.noConfusion hawake⟩
  · exact h

theorem sound_idle {ret : Int} (h : p.pc = .returned ret) : p.Sound := by
  constructor
  · intro hpc
    exact absurd h (hpc ret)
  · intro hpc
    rw [h] at hpc
    rcases hpc with hpc | hpc <;> cases hpc

theorem start_sound {call : Call} (h : call.transfers = true) : (Process.start call).Sound := by
  constructor
  · intro _
    exact h
  · intro hpc
    rcases hpc with hpc | hpc <;> cases hpc

theorem rouse_awake {call : Call} {next : Pc} (h : call.rouse = some next) :
    next ≠ .asleep ∧ next ≠ .evaluate := by
  rcases rouse_cases h with rfl | rfl <;> simp

theorem flags_awake {call : Call} {next : Pc} (h : call.flags = some next) :
    next ≠ .asleep ∧ next ≠ .evaluate := by
  rcases flags_cases h with ⟨ret, rfl⟩ | rfl | rfl <;> simp

theorem sound_on (h : p.Sound) (busy : ∀ ret, p.pc ≠ .returned ret) (call : p'.call = p.call)
    (on : p'.pc ≠ .asleep ∧ p'.pc ≠ .evaluate) : p'.Sound := by
  constructor
  · intro _
    rw [call]
    exact h.transfers busy
  · intro hpc
    exact absurd hpc (not_or.mpr ⟨on.2, on.1⟩)

theorem evaluate_sound {signal : Bool} {dev : ScullPipe} (h : p.Sound) (hpc : p.pc = .evaluate)
    (ran : p.evaluate signal dev = some p') : p'.Sound := by
  cases evaluate_cases ran with
  | on next queue place =>
    refine sound_on h (by simp [hpc]) rfl ?_
    rcases place with rfl | rfl | ⟨ret, rfl⟩ <;> simp
  | sleeps queue waits blocked =>
    exact ⟨fun _ => h.transfers (by simp [hpc]), fun _ => h.queued (.inl hpc)⟩

theorem evaluate_sleeps {signal : Bool} {dev : ScullPipe}
    (ran : p.evaluate signal dev = some p') (h : p'.SleepsOn queue) : ¬ queue.ready dev := by
  cases evaluate_cases ran with
  | on next queue' place =>
    have hasleep : next = .asleep := h.asleep
    rcases place with rfl | rfl | ⟨ret, rfl⟩ <;> cases hasleep
  | sleeps queue' waits blocked =>
    have hwaits : p.call.waitsOn = some queue := h.waits
    rw [waits] at hwaits
    cases hwaits
    exact blocked

theorem went_sound (h : p.Sound) (step : p.Went choice pipe sem pipe' sem' p') : p'.Sound := by
  cases step with
  | interrupted pc signal =>
    refine sound_on h (by simp [pc]) rfl ?_
    cases p.call <;> simp [Call.interrupted]
  | taken pc calm free =>
    refine sound_on h (by simp [pc]) rfl ?_
    cases p.call <;> simp [Call.taken]
  | locked pc after pipe' ran => exact sound_on h (by simp [pc]) rfl (by simp)
  | up after pc =>
    refine sound_on h (by simp [pc]) rfl ?_
    cases after <;> simp [After.pc]
  | flags pc next ran => exact sound_on h (by simp [pc]) rfl (flags_awake ran)
  | test pc =>
    refine sound_on h (by simp [pc]) rfl ?_
    dsimp only
    split <;> simp
  | prepareToWait pc => exact ⟨fun _ => h.transfers (by simp [pc]), fun _ _ => rfl⟩
  | evaluate pc p' ran => exact evaluate_sound h pc ran
  | asleep pc next roused ran => exact sound_on h (by simp [pc]) rfl (rouse_awake ran)
  | finishWait pc =>
    refine sound_on h (by simp [pc]) rfl ?_
    dsimp only
    split <;> simp
  | wake ret pc => exact sound_on h (by simp [pc]) rfl (by simp)
  | pollWait pc => exact sound_on h (by simp [pc]) rfl (by simp)
  | pollUp mask pc => exact sound_on h (by simp [pc]) rfl (by simp)

theorem copied_wakes {short : Bool} (h : short = false) (reply : Reply) :
    ∃ ret, After.copied short reply = .wake ret := by
  rw [h]
  exact ⟨_, rfl⟩

theorem locked_announces {call : Call} {after : After} (htransfers : call.transfers = true)
    (ran : call.locked choice pipe = some (after, pipe')) :
    pipe'.dev = pipe.dev ∨ ∃ queue, call.wakes = some queue ∧ (∃ ret, after = .wake ret) ∧
      ∀ other, other ≠ queue → other.ready pipe.dev := by
  cases call with
  | scullPRead fFlags count =>
    simp only [Call.locked] at ran
    split at ran
    · cases ran
      exact .inl rfl
    · next hdata =>
      simp only [Option.some.injEq, Prod.mk.injEq] at ran
      obtain ⟨hafter, hpipe⟩ := ran
      rw [← hafter, ← hpipe]
      by_cases hshort : choice.accessible < readCount pipe.dev count
      · exact .inl (by simp [scullPReadLocked, hshort])
      · refine .inr ⟨.outq, rfl, copied_wakes (decide_eq_false hshort) _, ?_⟩
        intro other hother
        cases other with
        | inq => exact hdata
        | outq => exact absurd rfl hother
  | scullPWrite fFlags buff =>
    simp only [Call.locked] at ran
    split at ran
    · cases ran
      exact .inl rfl
    · next hspace =>
      simp only [Option.some.injEq, Prod.mk.injEq] at ran
      obtain ⟨hafter, hpipe⟩ := ran
      rw [← hafter, ← hpipe]
      by_cases hshort : choice.accessible < writeCount pipe.dev buff.length
      · exact .inl (by simp [scullPWriteLocked, hshort])
      · refine .inr ⟨.inq, rfl, copied_wakes (decide_eq_false hshort) _, ?_⟩
        intro other hother
        cases other with
        | inq => exact absurd rfl hother
        | outq => exact hspace
  | scullPOpen mode => cases htransfers
  | scullPRelease mode => cases htransfers
  | scullPPoll => cases htransfers

inductive Process.Signals (p : Process) (dev dev' : ScullPipe) (p' : Process) : Prop
  | quiet (same : dev' = dev) (silent : p.waking = none)
      (sleeps : ∀ queue, p'.SleepsOn queue → ¬ queue.ready dev)
      (kept : ∀ queue, p.WillWake queue → p'.WillWake queue)
  | announces (queue : WaitQueue) (silent : p.waking = none) (ahead : p'.WillWake queue)
      (up : ∀ other, ¬ p'.SleepsOn other) (first : ∀ other, ¬ p.WillWake other)
      (others : ∀ other, other ≠ queue → other.ready dev)
  | wakes (queue : WaitQueue) (same : dev' = dev) (loud : p.waking = some queue)
      (up : ∀ other, ¬ p'.SleepsOn other) (only : ∀ other, p.WillWake other → other = queue)

theorem silent_of (h : ∀ ret, p.pc ≠ .wake ret) : p.waking = none := by
  unfold Process.waking
  split
  · next ret hpc => exact absurd hpc (h ret)
  · rfl

theorem quiet_on (dev : ScullPipe) (hwake : ∀ ret, p.pc ≠ .wake ret)
    (hup : ∀ ret, p.pc ≠ .up (.wake ret)) (on : p'.pc ≠ .asleep) : p.Signals dev dev p' := by
  refine .quiet rfl (silent_of hwake) (fun queue h => absurd h.asleep on) ?_
  intro queue h
  obtain ⟨ret, hpc | hpc⟩ := h.ahead
  · exact absurd hpc (hup ret)
  · exact absurd hpc (hwake ret)

theorem went_signals (h : p.Sound) (step : p.Went choice pipe sem pipe' sem' p') :
    p.Signals pipe.dev pipe'.dev p' := by
  cases step with
  | interrupted pc signal =>
    apply quiet_on _ (by simp [pc]) (by simp [pc])
    cases p.call <;> simp [Call.interrupted]
  | taken pc calm free =>
    apply quiet_on _ (by simp [pc]) (by simp [pc])
    cases p.call <;> simp [Call.taken]
  | locked pc after pipe' ran =>
    have hup : ∀ other, ¬ Process.SleepsOn other { p with pc := .up after } :=
      fun other => not_sleepsOn (by simp)
    have hfirst : ∀ other, ¬ p.WillWake other := by
      intro other hother
      obtain ⟨ret, hpc⟩ := hother.ahead
      simp [pc] at hpc
    rcases locked_announces (h.transfers (by simp [pc])) ran with hdev | ⟨queue, hwakes, hafter, hothers⟩
    · refine .quiet hdev (silent_of (by simp [pc])) (fun other hother => absurd hother (hup other)) ?_
      intro other hother
      exact absurd hother (hfirst other)
    · obtain ⟨ret, rfl⟩ := hafter
      exact .announces queue (silent_of (by simp [pc])) ⟨⟨ret, .inl rfl⟩, hwakes⟩ hup hfirst hothers
  | up after pc =>
    refine .quiet rfl (silent_of (by simp [pc])) ?_ ?_
    · intro queue hqueue
      have hasleep := hqueue.asleep
      cases after <;> cases hasleep
    · intro queue hqueue
      obtain ⟨ret, hpc | hpc⟩ := hqueue.ahead
      · rw [pc] at hpc
        cases hpc
        exact ⟨⟨ret, .inr rfl⟩, hqueue.wakes⟩
      · rw [pc] at hpc
        cases hpc
  | flags pc next ran => exact quiet_on _ (by simp [pc]) (by simp [pc]) (flags_awake ran).1
  | test pc =>
    apply quiet_on _ (by simp [pc]) (by simp [pc])
    dsimp only
    split <;> simp
  | prepareToWait pc => exact quiet_on _ (by simp [pc]) (by simp [pc]) (by simp)
  | evaluate pc p' ran =>
    refine .quiet rfl (silent_of (by simp [pc])) (fun queue => evaluate_sleeps ran) ?_
    intro queue hqueue
    obtain ⟨ret, hpc⟩ := hqueue.ahead
    simp [pc] at hpc
  | asleep pc next roused ran => exact quiet_on _ (by simp [pc]) (by simp [pc]) (rouse_awake ran).1
  | finishWait pc =>
    apply quiet_on _ (by simp [pc]) (by simp [pc])
    dsimp only
    split <;> simp
  | wake ret pc =>
    cases hwakes : p.call.wakes with
    | some queue =>
      refine .wakes queue rfl (by simp [Process.waking, pc, hwakes])
        (fun other => not_sleepsOn (by simp)) ?_
      intro other hother
      have := hother.wakes
      rw [hwakes] at this
      exact (Option.some.inj this).symm
    | none =>
      refine .quiet rfl (by simp [Process.waking, pc, hwakes])
        (fun other hother => absurd hother (not_sleepsOn (by simp))) ?_
      intro other hother
      have := hother.wakes
      rw [hwakes] at this
      cases this
  | pollWait pc => exact quiet_on _ (by simp [pc]) (by simp [pc]) (by simp)
  | pollUp mask pc => exact quiet_on _ (by simp [pc]) (by simp [pc]) (by simp)

end Steps

/-! ## Runs -/

theorem idle_attended {w : World ι} (h : w.Idle) : Attended w := by
  constructor
  · intro i
    obtain ⟨ret, hret⟩ := h i
    exact sound_idle hret
  · intro queue i hsleeps
    obtain ⟨ret, hret⟩ := h i
    rw [hsleeps.asleep] at hret
    cases hret

section Runs
variable [DecidableEq ι] {w w' : World ι}

theorem attended_went {i : ι} {choice : Choice size} {pipe' : Backed} {sem' : Nat} {p' : Process}
    (h : Attended w) (step : (w.processes i).Went choice w.pipe w.sem pipe' sem' p') :
    Attended ⟨pipe', sem',
      Function.update (fun j => (w.processes j).woken (w.processes i).waking) i p'⟩ := by
  have hsound := h.sound i
  constructor
  · intro j
    by_cases hj : j = i
    · subst hj
      simpa using went_sound hsound step
    · simpa [Function.update_of_ne hj] using woken_sound (h.sound j)
  · intro queue
    have hbefore := h.awaited queue
    cases went_signals hsound step with
    | quiet same silent sleeps kept =>
      apply hbefore.frame
      · intro j hsleeps hready
        rw [same] at hready
        by_cases hj : j = i
        · subst hj
          exact absurd hready (sleeps queue (by simpa using hsleeps))
        · simp only [Function.update_of_ne hj] at hsleeps
          exact ⟨(woken_sleepsOn hsleeps).1, hready⟩
      · intro j hwill
        by_cases hj : j = i
        · subst hj
          simpa using kept queue hwill
        · simpa [Function.update_of_ne hj, woken_willWake] using hwill
    | announces announced silent ahead up first others =>
      by_cases hqueue : queue = announced
      · subst hqueue
        exact .announce (j := i) (by simpa using ahead)
      · apply hbefore.frame
        · intro j hsleeps _
          by_cases hj : j = i
          · subst hj
            exact absurd (by simpa using hsleeps) (up queue)
          · simp only [Function.update_of_ne hj] at hsleeps
            exact ⟨(woken_sleepsOn hsleeps).1, others queue hqueue⟩
        · intro j hwill
          have hj : j ≠ i := fun hj => first queue (hj ▸ hwill)
          simpa [Function.update_of_ne hj, woken_willWake] using hwill
    | wakes woken same loud up only =>
      by_cases hqueue : queue = woken
      · apply Awaited.deliver
        intro j hsleeps
        by_cases hj : j = i
        · subst hj
          exact up queue (by simpa using hsleeps)
        · simp only [Function.update_of_ne hj] at hsleeps
          obtain ⟨hasleep, hmissed⟩ := woken_sleepsOn hsleeps
          have hqueued := (h.sound j).queued (.inr hasleep.asleep) hasleep.unwoken
          rw [hasleep.waits] at hqueued
          exact hmissed ⟨by simp [hqueued], by rw [hqueued, loud, hqueue]⟩
      · apply hbefore.frame
        · intro j hsleeps hready
          rw [same] at hready
          by_cases hj : j = i
          · subst hj
            exact absurd (by simpa using hsleeps) (up queue)
          · simp only [Function.update_of_ne hj] at hsleeps
            exact ⟨(woken_sleepsOn hsleeps).1, hready⟩
        · intro j hwill
          have hj : j ≠ i := fun hj => hqueue (only queue (hj ▸ hwill))
          simpa [Function.update_of_ne hj, woken_willWake] using hwill

theorem attended_started {i : ι} {call : Call} {ret : Int} (h : Attended w)
    (idle : (w.processes i).pc = .returned ret) (transfers : call.transfers = true) :
    Attended { w with processes := Function.update w.processes i (.start call) } := by
  constructor
  · intro j
    by_cases hj : j = i
    · subst hj
      simpa using start_sound transfers
    · simpa [Function.update_of_ne hj] using h.sound j
  · intro queue
    apply (h.awaited queue).frame
    · intro j hsleeps hready
      by_cases hj : j = i
      · subst hj
        have hasleep := hsleeps.asleep
        simp [Process.start] at hasleep
      · simp only [Function.update_of_ne hj] at hsleeps
        exact ⟨hsleeps, hready⟩
    · intro j hwill
      have hj : j ≠ i := by
        rintro rfl
        obtain ⟨ret, hpc⟩ := hwill.ahead
        simp [idle] at hpc
      simpa [Function.update_of_ne hj] using hwill

theorem moves_attended {label : ι × Action size} (h : Attended w) (hmove : Moves w label w')
    (htransfers : Transfers w label) : Attended w' := by
  cases moves_cases hmove with
  | started i call ret idle => exact attended_started h idle htransfers
  | went i choice pipe' sem' p' step => exact attended_went h step

theorem run_attended {labels : List (ι × Action size)} (idle : w.Idle)
    (run : Run (While Transfers Moves) w labels w') : Attended w' :=
  run.invariant (fun _ => Attended) (idle_attended idle)
    fun _ _ _ _ _ h hmove => moves_attended h hmove.2 hmove.1

/-- A reader that sleeps although there is data, or a writer that sleeps although
there is space, has a wake-up coming. -/
theorem wakeup_pending {labels : List (ι × Action size)} {i : ι} {queue : WaitQueue}
    (idle : w.Idle) (run : Run (While Transfers Moves) w labels w')
    (sleeps : (w'.processes i).SleepsOn queue) (ready : queue.ready w'.pipe.dev) :
    ∃ j, (w'.processes j).WillWake queue :=
  (run_attended idle run).awaited queue i sleeps ready

end Runs

def sharedWorld : World Bool :=
  ⟨⟨⟨4096, 4100, 4, 4096, 4096, 1, 1⟩, fun _ => 0⟩, 1,
    fun _ => ⟨.scullPPoll, .returned 0, 0, 0, none, false, []⟩⟩

def readerSteps : List (Bool × Action 4) :=
  (false, .start (.scullPRead 0 4)) ::
    List.replicate 7 (false, .go ⟨false, false, 4, none⟩)

def writerSteps : List (Bool × Action 4) :=
  (true, .start (.scullPWrite 0 [1])) ::
    List.replicate 3 (true, .go ⟨false, false, 4, none⟩)

/-- The write has moved `wp`, and the reader sleeps on. -/
def unwokenWorld : World Bool :=
  (sharedWorld.steps (readerSteps ++ writerSteps)).getD sharedWorld

theorem unwoken_run :
    Run (While Transfers Moves) sharedWorld (readerSteps ++ writerSteps) unwokenWorld := by
  apply (run_steps (by decide +kernel)).guarded
  intro w label hlabel
  simp only [readerSteps, writerSteps, List.mem_append, List.mem_cons, List.mem_replicate] at hlabel
  rcases hlabel with (h | ⟨-, h⟩) | (h | ⟨-, h⟩) <;> rw [h] <;> trivial

theorem wakeup_pending_reader : ∃ j, (unwokenWorld.processes j).WillWake .inq :=
  wakeup_pending (i := false) (fun _ => ⟨0, rfl⟩) unwoken_run
    ⟨by decide +kernel, by decide +kernel, by decide +kernel⟩
    (show unwokenWorld.pipe.dev.rp ≠ unwokenWorld.pipe.dev.wp by decide +kernel)

end MyDrivers.Pipe
