import MyDrivers.Lib.Progress
import MyDrivers.Pipe.Discipline
import MyDrivers.Pipe.Nonblock
import MyDrivers.Pipe.Wakeups

/-! Reads and writes come to rest. Left alone, any number of them go only finitely far,
and where none of them can go on, all have returned but those that wait for what is
not there: data, or else space, never both. -/
namespace MyDrivers.Pipe
open Lib Lib.Machine
open Store (Byte EAGAIN ENOMEM EFAULT ERESTARTSYS O_NONBLOCK)

variable {size : Nat} {ι : Type}

def Call.Served (dev : ScullPipe) : Call → Prop
  | .scullPRead _ _ => dev.rp ≠ dev.wp
  | .scullPWrite _ _ => spacefree dev ≠ 0
  | _ => True

instance (dev : ScullPipe) : (call : Call) → Decidable (call.Served dev)
  | .scullPRead _ _ => inferInstanceAs (Decidable (dev.rp ≠ dev.wp))
  | .scullPWrite _ _ => inferInstanceAs (Decidable (spacefree dev ≠ 0))
  | .scullPOpen _ => inferInstanceAs (Decidable True)
  | .scullPRelease _ => inferInstanceAs (Decidable True)
  | .scullPPoll => inferInstanceAs (Decidable True)

/-- Two before a pointer is moved, one until the other queue has been woken. -/
def Pc.credit : Pc → Nat
  | .returned _ => 0
  | .up (.return _) => 0
  | .up (.wake _) => 1
  | .wake _ => 1
  | _ => 2

/-- The steps to the end of the call or to sleep, while what the call waits for stays as
it is and nobody wakes it. -/
def Pc.effort (served awake : Bool) : Pc → Nat
  | .returned _ => 0
  | .down => if served then 1 else 7
  | .locked => if served then 0 else 6
  | .up .flags => if served then 6 else 5
  | .up (.wake _) => 1
  | .up (.return _) => 1
  | .flags => if served then 5 else 4
  | .test => if served then 2 else 3
  | .prepareToWait => if served then 4 else 2
  | .evaluate => if served then 3 else if awake then 10 else 1
  | .asleep => if awake then if served then 5 else 9 else 0
  | .finishWait => if served then 2 else 8
  | .wake _ => 0
  | .pollWait => 0
  | .pollUp _ => 0

def Process.effort (dev : ScullPipe) (p : Process) : Nat :=
  p.pc.effort (decide (p.call.Served dev)) p.awake

def Choice.quiet (size : Nat) : Choice size := ⟨false, false, 0, none⟩

/-- The scheduler's own steps: no call begins and no signal comes. -/
def Calm (_ : World ι) (label : ι × Action size) : Prop :=
  match label.2 with
  | .start _ => False
  | .go choice => choice.interrupted = false ∧ choice.signal = false

structure Process.Placed (p : Process) : Prop where
  polls : p.pc ≠ .pollWait ∧ ∀ mask, p.pc ≠ .pollUp mask
  test : p.pc = .test → ∃ fFlags count, p.call = .scullPRead fFlags count

section Steps
variable {p p' : Process} {choice : Choice size} {pipe pipe' : Backed} {sem sem' : Nat}

theorem effort_le (dev : ScullPipe) (p : Process) : p.effort dev ≤ 10 := by
  unfold Process.effort
  generalize decide (p.call.Served dev) = served
  cases p.pc with
  | up after => cases after <;> cases served <;> simp [Pc.effort]
  | _ => cases served <;> cases p.awake <;> simp [Pc.effort]

theorem credit_le (pc : Pc) : pc.credit ≤ 2 := by
  cases pc with
  | up after => cases after <;> simp [Pc.credit]
  | _ => simp [Pc.credit]

theorem start_placed (call : Call) : (Process.start call).Placed :=
  ⟨by simp [Process.start], by simp [Process.start]⟩

theorem idle_placed {ret : Int} (h : p.pc = .returned ret) : p.Placed :=
  ⟨by simp [h], by simp [h]⟩

theorem woken_placed (queue : Option WaitQueue) (h : p.Placed) : (p.woken queue).Placed :=
  ⟨by simpa using h.polls, by simpa using h.test⟩

theorem placed_on (polls : p.pc ≠ .pollWait ∧ ∀ mask, p.pc ≠ .pollUp mask) (test : p.pc ≠ .test) :
    p.Placed :=
  ⟨polls, fun h => absurd h test⟩

theorem waking_none (h : ∀ ret, p.pc ≠ .wake ret) : p.waking = none := silent_of h

theorem locked_progresses (htransfers : p.call.transfers = true) {after : After}
    (ran : p.call.locked choice pipe = some (after, pipe')) :
    (∃ ret, after = .wake ret ∨ after = .return ret) ∨
      after = .flags ∧ pipe' = pipe ∧ ¬ p.call.Served pipe.dev := by
  generalize p.call = call at htransfers ran
  cases call with
  | scullPRead fFlags count =>
    simp only [Call.locked] at ran
    split at ran
    · next hempty =>
      cases ran
      exact .inr ⟨rfl, rfl, fun h => h hempty⟩
    · simp only [Option.some.injEq, Prod.mk.injEq] at ran
      left
      rw [← ran.1]
      unfold After.copied
      dsimp only
      split
      · exact ⟨_, .inr rfl⟩
      · exact ⟨_, .inl rfl⟩
  | scullPWrite fFlags buff =>
    simp only [Call.locked] at ran
    split at ran
    · next hfull =>
      cases ran
      exact .inr ⟨rfl, rfl, fun h => h hfull⟩
    · simp only [Option.some.injEq, Prod.mk.injEq] at ran
      left
      rw [← ran.1]
      unfold After.copied
      dsimp only
      split
      · exact ⟨_, .inr rfl⟩
      · exact ⟨_, .inl rfl⟩
  | scullPOpen mode => cases htransfers
  | scullPRelease mode => cases htransfers
  | scullPPoll => cases htransfers

/-- What a step is worth: it spends credit, or it works on while nothing else changes. -/
inductive Process.Progresses (p : Process) (dev dev' : ScullPipe) (p' : Process) : Prop
  | spends (less : p'.pc.credit < p.pc.credit)
  | works (credit : p'.pc.credit = p.pc.credit) (same : dev' = dev) (silent : p.waking = none)
      (less : p'.effort dev < p.effort dev)

theorem evaluate_progresses {dev : ScullPipe} (pc : p.pc = .evaluate)
    (ran : p.evaluate false dev = some p') : p.Progresses dev dev p' := by
  have hsilent : p.waking = none := waking_none (by simp [pc])
  unfold Process.evaluate at ran
  split at ran
  · next fFlags count hcall =>
    split at ran
    · next hdata =>
      cases ran
      refine .works (by simp [pc, Pc.credit]) rfl hsilent ?_
      simp [Process.effort, pc, Pc.effort, hcall, Call.Served, hdata]
    · next hempty =>
      cases ran
      refine .works (by simp [pc, Pc.credit]) rfl hsilent ?_
      have hnot : ¬ p.call.Served dev := by
        rw [hcall]
        exact hempty
      simp only [Process.effort, pc, Pc.effort, decide_eq_false hnot]
      cases p.awake <;> simp
  · next fFlags buff hcall =>
    split at ran
    · next hfull =>
      cases ran
      refine .works (by simp [pc, Pc.credit]) rfl hsilent ?_
      have hnot : ¬ p.call.Served dev := by
        rw [hcall]
        exact fun h => h hfull
      simp only [Process.effort, pc, Pc.effort, decide_eq_false hnot]
      cases p.awake <;> simp
    · next hspace =>
      cases ran
      refine .works (by simp [pc, Pc.credit]) rfl hsilent ?_
      simp [Process.effort, pc, Pc.effort, hcall, Call.Served, hspace]
  · cases ran

theorem went_progresses (sound : p.Sound) (placed : p.Placed) (interrupted : choice.interrupted = false)
    (signal : choice.signal = false) (step : p.Went choice pipe sem pipe' sem' p') :
    p.Progresses pipe.dev pipe'.dev p' := by
  cases step with
  | interrupted pc hinterrupted => exact absurd hinterrupted (by simp [interrupted])
  | taken pc calm free =>
    have hpc := taken_pc (sound.transfers (by simp [pc]))
    refine .works ?_ rfl (waking_none (by simp [pc])) ?_
    · simp [hpc, pc, Pc.credit]
    · simp only [Process.effort, hpc, pc, Pc.effort]
      split <;> omega
  | locked pc after pipe' ran =>
    rcases locked_progresses (sound.transfers (by simp [pc])) ran with
      ⟨ret, rfl | rfl⟩ | ⟨rfl, hpipe, hnot⟩
    · exact .spends (by simp [pc, Pc.credit])
    · exact .spends (by simp [pc, Pc.credit])
    · refine .works (by simp [pc, Pc.credit]) (by rw [hpipe]) (waking_none (by simp [pc])) ?_
      simp [Process.effort, pc, Pc.effort, hnot]
  | up after pc =>
    cases after with
    | flags =>
      refine .works (by simp [pc, Pc.credit, After.pc]) rfl (waking_none (by simp [pc])) ?_
      simp only [Process.effort, After.pc, pc, Pc.effort]
      split <;> omega
    | wake ret =>
      refine .works (by simp [pc, Pc.credit, After.pc]) rfl (waking_none (by simp [pc])) ?_
      simp [Process.effort, After.pc, pc, Pc.effort]
    | «return» ret =>
      refine .works (by simp [pc, Pc.credit, After.pc]) rfl (waking_none (by simp [pc])) ?_
      simp [Process.effort, After.pc, pc, Pc.effort]
  | flags pc next ran =>
    rcases flags_cases ran with ⟨ret, rfl⟩ | rfl | rfl
    · exact .spends (by simp [pc, Pc.credit])
    · refine .works (by simp [pc, Pc.credit]) rfl (waking_none (by simp [pc])) ?_
      simp only [Process.effort, pc, Pc.effort]
      split <;> omega
    · refine .works (by simp [pc, Pc.credit]) rfl (waking_none (by simp [pc])) ?_
      simp only [Process.effort, pc, Pc.effort]
      split <;> omega
  | test pc =>
    obtain ⟨fFlags, count, hcall⟩ := placed.test pc
    refine .works ?_ rfl (waking_none (by simp [pc])) ?_
    · rw [pc]
      dsimp only
      split <;> rfl
    · by_cases hdata : pipe.dev.rp = pipe.dev.wp
      · simp [Process.effort, pc, Pc.effort, hcall, Call.Served, hdata]
      · simp [Process.effort, pc, Pc.effort, hcall, Call.Served, hdata]
  | prepareToWait pc =>
    refine .works (by simp [pc, Pc.credit]) rfl (waking_none (by simp [pc])) ?_
    simp only [Process.effort, pc, Pc.effort]
    split <;> simp
  | evaluate pc p' ran =>
    rw [signal] at ran
    exact evaluate_progresses pc ran
  | asleep pc next roused ran =>
    have hawake : p.awake = true := by simpa [signal] using roused
    refine .works ?_ rfl (waking_none (by simp [pc])) ?_
    · rcases rouse_cases ran with rfl | rfl <;> simp [pc, Pc.credit]
    · rcases rouse_cases ran with rfl | rfl
      · simp only [Process.effort, pc, Pc.effort, hawake, if_true]
        split <;> omega
      · simp only [Process.effort, pc, Pc.effort, hawake, if_true]
        split <;> omega
  | finishWait pc =>
    refine .works (by simp [pc, Pc.credit, signal]) rfl (waking_none (by simp [pc])) ?_
    simp only [Process.effort, pc, Pc.effort, signal, Bool.false_eq_true, if_false]
    split <;> omega
  | wake ret pc => exact .spends (by simp [pc, Pc.credit])
  | pollWait pc => exact absurd pc placed.polls.1
  | pollUp mask pc => exact absurd pc (placed.polls.2 mask)

theorem went_placed (sound : p.Sound) (h : p.Placed)
    (step : p.Went choice pipe sem pipe' sem' p') : p'.Placed := by
  cases step with
  | interrupted pc signal =>
    have htransfers := sound.transfers (by simp [pc])
    have hpc := interrupted_pc htransfers
    exact placed_on (by simp [hpc]) (by simp [hpc])
  | taken pc calm free =>
    have hpc := taken_pc (sound.transfers (by simp [pc]))
    exact placed_on (by simp [hpc]) (by simp [hpc])
  | locked pc after pipe' ran => exact placed_on (by simp) (by simp)
  | up after pc => cases after <;> exact placed_on (by simp [After.pc]) (by simp [After.pc])
  | flags pc next ran =>
    refine ⟨?_, fun hpc => ?_⟩
    · rcases flags_cases ran with ⟨ret, rfl⟩ | rfl | rfl <;> simp
    · have hnext : next = .test := hpc
      subst hnext
      generalize hcall : p.call = call at ran
      cases call with
      | scullPRead fFlags count => exact ⟨fFlags, count, rfl⟩
      | scullPWrite fFlags buff =>
        simp only [Call.flags, Option.some.injEq] at ran
        split at ran <;> cases ran
      | _ => cases ran
  | test pc =>
    apply placed_on
    · dsimp only
      split <;> simp
    · dsimp only
      split <;> simp
  | prepareToWait pc => exact placed_on (by simp) (by simp)
  | evaluate pc p' ran =>
    cases evaluate_cases ran with
    | on next queue place =>
      rcases place with rfl | rfl | ⟨ret, rfl⟩ <;> exact placed_on (by simp) (by simp)
    | sleeps queue waits blocked => exact placed_on (by simp) (by simp)
  | asleep pc next roused ran =>
    rcases rouse_cases ran with rfl | rfl <;> exact placed_on (by simp) (by simp)
  | finishWait pc =>
    apply placed_on
    · dsimp only
      split <;> simp
    · dsimp only
      split <;> simp
  | wake ret pc => exact placed_on (by simp) (by simp)
  | pollWait pc => exact absurd pc h.polls.1
  | pollUp mask pc => exact absurd pc (h.polls.2 mask)

theorem transfers_go {call : Call} (h : call.transfers = true) :
    (call.locked choice pipe).isSome ∧ call.flags.isSome ∧ call.rouse.isSome := by
  cases call with
  | scullPRead fFlags count =>
    refine ⟨?_, rfl, rfl⟩
    simp only [Call.locked]
    split <;> rfl
  | scullPWrite fFlags buff =>
    refine ⟨?_, rfl, rfl⟩
    simp only [Call.locked]
    split <;> rfl
  | scullPOpen mode => cases h
  | scullPRelease mode => cases h
  | scullPPoll => cases h

theorem evaluate_goes (h : p.call.transfers = true) (signal : Bool) (dev : ScullPipe) :
    (p.evaluate signal dev).isSome := by
  unfold Process.evaluate
  generalize p.call = call at h
  cases call with
  | scullPRead fFlags count =>
    dsimp only
    split
    · rfl
    · split <;> rfl
  | scullPWrite fFlags buff =>
    dsimp only
    split <;> rfl
  | scullPOpen mode => cases h
  | scullPRelease mode => cases h
  | scullPPoll => cases h

theorem stuck_cases (sound : p.Sound) (interrupted : choice.interrupted = false)
    (stuck : p.step choice pipe sem = none) :
    (∃ ret, p.pc = .returned ret) ∨ p.pc = .down ∧ sem = 0 ∨
      p.pc = .asleep ∧ p.awake = false := by
  unfold Process.step at stuck
  cases hpc : p.pc with
  | returned ret => exact .inl ⟨ret, rfl⟩
  | down =>
    simp only [hpc, interrupted, Bool.false_eq_true, if_false] at stuck
    split at stuck
    · next hsem => exact .inr (.inl ⟨rfl, hsem⟩)
    · cases stuck
  | locked =>
    have hgoes := (@transfers_go _ choice pipe _ (sound.transfers (by simp [hpc]))).1
    simp only [hpc, Option.map_eq_none_iff] at stuck
    rw [stuck] at hgoes
    cases hgoes
  | flags =>
    have hgoes := (@transfers_go _ choice pipe _ (sound.transfers (by simp [hpc]))).2.1
    simp only [hpc, Option.map_eq_none_iff] at stuck
    rw [stuck] at hgoes
    cases hgoes
  | evaluate =>
    have hgoes := evaluate_goes (sound.transfers (by simp [hpc])) choice.signal pipe.dev
    simp only [hpc, Option.map_eq_none_iff] at stuck
    rw [stuck] at hgoes
    cases hgoes
  | asleep =>
    have hgoes := (@transfers_go _ choice pipe _ (sound.transfers (by simp [hpc]))).2.2
    simp only [hpc] at stuck
    cases hawake : p.awake with
    | false => exact .inr (.inr ⟨rfl, rfl⟩)
    | true =>
      simp only [hawake, Bool.true_or, if_true, Option.map_eq_none_iff] at stuck
      rw [stuck] at hgoes
      cases hgoes
  | _ => simp [hpc] at stuck

end Steps

/-! ## Runs -/

structure Lively (size : Nat) (w : World ι) : Prop where
  attended : Attended w
  disciplined : Disciplined w
  placed : ∀ i, (w.processes i).Placed
  capacity : w.pipe.dev.buffersize = size

/-- Everybody has returned, or sleeps over what is not there; and those who sleep all
wait for the same. -/
structure Rested (w : World ι) : Prop where
  rest : ∀ i, (∃ ret, (w.processes i).pc = .returned ret) ∨
    ∃ queue : WaitQueue, (w.processes i).SleepsOn queue ∧ ¬ queue.ready w.pipe.dev
  alike : ∀ i j queue other, (w.processes i).SleepsOn queue → (w.processes j).SleepsOn other →
    queue = other

theorem section_buffersize (s : Session) (sec : Section size) :
    (sec.run s).2.pipe.dev.buffersize = s.pipe.dev.buffersize := by
  cases sec with
  | scullPOpen mode interrupted kmalloc =>
    simp only [Section.run, scullPOpen, scullPOpenLocked]
    repeat' split
    all_goals rfl
  | scullPRelease mode interrupted =>
    simp only [Section.run, scullPRelease, scullPReleaseLocked]
    repeat' split
    all_goals rfl
  | scullPRead fFlags count interrupted accessible =>
    simp only [Section.run, scullPRead, scullPReadLocked]
    repeat' split
    all_goals rfl
  | scullPWrite fFlags buff interrupted accessible =>
    simp only [Section.run, scullPWrite, scullPWriteLocked]
    repeat' split
    all_goals rfl

section Runs
variable {w w' : World ι} {label : ι × Action size}

theorem calm_transfers (h : Calm w label) : Transfers w label := by
  obtain ⟨i, action⟩ := label
  cases action with
  | start call => exact absurd h id
  | go choice => trivial

theorem lively_polls (h : Lively size w) (label : ι × Action size) : PollStopped w label := by
  unfold PollStopped
  split
  · trivial
  · split
    · next choice _ hpc =>
      intro hcall
      have htransfers := (h.attended.sound label.1).transfers (by simp [hpc])
      rw [hcall] at htransfers
      cases htransfers
    · next choice _ mask hpc => exact absurd hpc ((h.placed label.1).polls.2 mask)
    · trivial

variable [DecidableEq ι]

theorem moves_lively (h : Lively size w) (hmove : Moves w label w')
    (htransfers : Transfers w label) : Lively size w' := by
  refine ⟨moves_attended h.attended hmove htransfers,
    (moves_disciplined h.disciplined hmove).mpr (lively_polls h label), ?_, ?_⟩
  · cases moves_cases hmove with
    | started i call ret idle =>
      intro j
      by_cases hj : j = i
      · subst hj
        simpa using start_placed call
      · simpa [Function.update_of_ne hj] using h.placed j
    | went i choice pipe' sem' p' step =>
      intro j
      by_cases hj : j = i
      · subst hj
        simpa using went_placed (h.attended.sound j) (h.placed j) step
      · simpa [Function.update_of_ne hj] using woken_placed _ (h.placed j)
  · rcases moves_section hmove [] with hsame | ⟨sec, hsec⟩
    · rw [hsame]
      exact h.capacity
    · rw [← hsec, section_buffersize]
      exact h.capacity

theorem calm_lively (h : Lively size w) (hmove : While Calm Moves w label w') : Lively size w' :=
  moves_lively h hmove.2 (calm_transfers hmove.1)

/-! ### How far they go -/

section Measure
variable [Fintype ι]

def World.potential (w : World ι) : Nat :=
  Lib.potential 10 (fun i => (w.processes i).pc.credit) fun i => (w.processes i).effort w.pipe.dev

theorem calm_falls (h : Lively size w) (hmove : While Calm Moves w label w') :
    w'.potential < w.potential := by
  obtain ⟨hcalm, hmove⟩ := hmove
  cases moves_cases hmove with
  | started i call ret idle => exact absurd hcalm id
  | went i choice pipe' sem' p' step =>
    apply potential_falls (i := i)
    · intro j hj
      simp [Function.update_of_ne hj]
    · exact fun j => effort_le pipe'.dev _
    · cases went_progresses (h.attended.sound i) (h.placed i) hcalm.1 hcalm.2 step with
      | spends less =>
        left
        simpa using less
      | works credit same silent less =>
        right
        refine ⟨by simpa using credit, by simpa [same] using less, ?_⟩
        intro j hj
        have hwoken : (w.processes j).woken none = w.processes j := by
          unfold Process.woken
          apply if_neg
          rintro ⟨hsome, hnone⟩
          rw [hnone] at hsome
          cases hsome
        simp [Function.update_of_ne hj, silent, hwoken, same]

end Measure

theorem lively_rested (htwo : 2 ≤ size) (hint : size < 2147483648) (h : Lively size w)
    (stuck : ∀ (label : ι × Action size) w', ¬ While Calm Moves w label w') : Rested w := by
  have place (i : ι) : (∃ ret, (w.processes i).pc = .returned ret) ∨
      (w.processes i).pc = .down ∧ w.sem = 0 ∨
        (w.processes i).pc = .asleep ∧ (w.processes i).awake = false := by
    have hnone : (w.processes i).step (Choice.quiet size) w.pipe w.sem = none := by
      by_contra hsome
      obtain ⟨next, hnext⟩ := Option.ne_none_iff_exists'.mp hsome
      apply stuck (i, .go (.quiet size)) (w.after (i, .go (.quiet size)))
      refine ⟨⟨rfl, rfl⟩, moves_after ?_⟩
      simp [World.step, hnext]
    exact stuck_cases (h.attended.sound i) rfl hnone
  have houtside (i : ι) : (w.processes i).pc.inside = false := by
    rcases place i with ⟨ret, hpc⟩ | ⟨hpc, -⟩ | ⟨hpc, -⟩ <;> rw [hpc] <;> rfl
  have hfree : w.sem = 1 := h.disciplined.free houtside
  have hunready (i : ι) (queue : WaitQueue) (hsleeps : (w.processes i).SleepsOn queue) :
      ¬ queue.ready w.pipe.dev := by
    intro hready
    obtain ⟨j, hj⟩ := h.attended.awaited queue i hsleeps hready
    obtain ⟨ret, hahead⟩ := hj.ahead
    rcases place j with ⟨ret', hpc⟩ | ⟨hpc, -⟩ | ⟨hpc, -⟩ <;> simp [hpc] at hahead
  constructor
  · intro i
    rcases place i with hreturned | ⟨-, hsem⟩ | ⟨hpc, hawake⟩
    · exact .inl hreturned
    · omega
    · right
      have htransfers := (h.attended.sound i).transfers (by simp [hpc])
      have hwaits : ∃ queue, (w.processes i).call.waitsOn = some queue := by
        cases hcall : (w.processes i).call <;> rw [hcall] at htransfers
        all_goals first | exact ⟨_, rfl⟩ | cases htransfers
      obtain ⟨queue, hqueue⟩ := hwaits
      exact ⟨queue, ⟨hpc, hawake, hqueue⟩, hunready i queue ⟨hpc, hawake, hqueue⟩⟩
  · -- an empty pipe has space
    have hspace : w.pipe.dev.rp = w.pipe.dev.wp → spacefree w.pipe.dev ≠ 0 := by
      intro hempty
      rw [spacefree, if_pos hempty.symm, h.capacity, int32_eq_self (by omega) (by omega)]
      omega
    intro i j queue other hi hj
    have hqueue := hunready i queue hi
    have hother := hunready j other hj
    cases queue <;> cases other
    · rfl
    · exact absurd (hspace (not_not.mp hqueue)) hother
    · exact absurd (hspace (not_not.mp hother)) hqueue
    · rfl

/-- Left alone after any run of reads and writes, the processes take so many steps at
most, and when they can take no more they have come to rest; and so they do. -/
theorem transfers_settle [Fintype ι] (htwo : 2 ≤ size) (hint : size < 2147483648) {start : World ι}
    (idle : start.Idle) (disciplined : Disciplined start) (capacity : start.pipe.dev.buffersize = size)
    {labels : List (ι × Action size)} (run : Run (While Transfers Moves) start labels w) :
    (∀ labels' w', Run (While (@Calm size ι) Moves) w labels' w' →
      labels'.length ≤ Fintype.card ι * (20 * Fintype.card ι + 12) ∧
        ((∀ label w'', ¬ While (@Calm size ι) Moves w' label w'') → Rested w')) ∧
      ∃ labels' w', Run (While (@Calm size ι) Moves) w labels' w' ∧ Rested w' := by
  have hlively : Lively size w := by
    refine run.invariant (fun _ => Lively size) ?_ fun _ _ _ _ _ h hmove =>
      moves_lively h hmove.2 hmove.1
    refine ⟨idle_attended idle, disciplined, fun i => ?_, capacity⟩
    obtain ⟨ret, hret⟩ := idle i
    exact idle_placed hret
  apply Run.settles hlively (fun _ _ _ => calm_lively) (fun _ _ _ => calm_falls)
  · exact fun s => lively_rested htwo hint
  · have hmost := @potential_le ι _ 10 _ _ 2
      (fun i => credit_le (w.processes i).pc) fun i => effort_le w.pipe.dev (w.processes i)
    have heq : (Fintype.card ι * 10 + 1) * 2 + 10 = 20 * Fintype.card ι + 12 := by omega
    rw [heq] at hmost
    exact hmost

end Runs

theorem shared_disciplined : Disciplined sharedWorld := by
  apply disciplined_of
  · exact .inl ⟨rfl, fun _ => Bool.false_ne_true⟩
  · intro i
    rfl

theorem transfers_settle_unwoken : ∃ labels w, Run (While (@Calm 4 Bool) Moves) unwokenWorld labels w ∧
    Rested w :=
  (transfers_settle (by decide) (by decide) (fun _ => ⟨0, rfl⟩) shared_disciplined rfl unwoken_run).2

end MyDrivers.Pipe
