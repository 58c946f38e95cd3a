import MyDrivers.Pipe.Processes

/-! What `scull_p_poll` reports. The mask it computes is the right one, but it is
only computed by a poll that failed to get the semaphore: the test of
`down_interruptible` is the wrong way round, and a poll that gets the semaphore
returns at once. -/
namespace MyDrivers.Pipe
open Lib
open Store (Byte)

variable {size : Nat} {ι : Type}

/-- A call started on this pipe finds data, or space: it does not sleep and is not
sent away. -/
def Call.Finds (size : Nat) (call : Call) (pipe : Backed) : Prop :=
  ∀ (choice : Choice size) after pipe', call.locked choice pipe = some (after, pipe') →
    after ≠ .flags

def Reports (bits : Nat) (mask : Int) : Prop := mask.toNat &&& bits = bits

/-- What a poll owes its caller: the answers that a read or write started next
would give, a place on both queues, and an untouched device. -/
structure PollAgrees (size : Nat) (w : World ι) (i : ι) (mask : Int) (w' : World ι) : Prop where
  readable : Reports (POLLIN ||| POLLRDNORM) mask ↔
    ∀ fFlags count, 0 < count → (Call.scullPRead fFlags count).Finds size w.pipe
  writable : Reports (POLLOUT ||| POLLWRNORM) mask ↔
    ∀ fFlags buff, 0 < buff.length → (Call.scullPWrite fFlags buff).Finds size w.pipe
  queues : (w'.processes i).polled = [.inq, .outq]
  pipe : w'.pipe = w.pipe
  sem : w'.sem = w.sem

/-! ## The mask -/

section Mask
variable {pipe : Backed}

theorem read_finds_iff (choice : Choice size) {fFlags count : Nat} :
    (Call.scullPRead fFlags count).Finds size pipe ↔ pipe.dev.rp ≠ pipe.dev.wp := by
  constructor
  · intro h hempty
    exact h choice .flags pipe (by simp [Call.locked, hempty]) rfl
  · intro hdata choice after pipe' ran
    simp only [Call.locked, if_neg hdata, Option.some.injEq, Prod.mk.injEq] at ran
    rw [← ran.1]
    exact copied_ne_flags _ _

theorem write_finds_iff (choice : Choice size) {fFlags : Nat} {buff : List Byte} :
    (Call.scullPWrite fFlags buff).Finds size pipe ↔ spacefree pipe.dev ≠ 0 := by
  constructor
  · intro h hfull
    exact h choice .flags pipe (by simp [Call.locked, hfull]) rfl
  · intro hspace choice after pipe' ran
    simp only [Call.locked, if_neg hspace, Option.some.injEq, Prod.mk.injEq] at ran
    rw [← ran.1]
    exact copied_ne_flags _ _

theorem pollMask_readable (dev : ScullPipe) :
    Reports (POLLIN ||| POLLRDNORM) (pollMask dev) ↔ dev.rp ≠ dev.wp := by
  unfold Reports pollMask
  by_cases hspace : spacefree dev ≠ 0
  · rw [if_pos hspace]
    by_cases hdata : dev.rp ≠ dev.wp
    · rw [if_pos hdata]
      exact iff_of_true rfl hdata
    · rw [if_neg hdata]
      exact iff_of_false (by decide) hdata
  · rw [if_neg hspace]
    by_cases hdata : dev.rp ≠ dev.wp
    · rw [if_pos hdata]
      exact iff_of_true rfl hdata
    · rw [if_neg hdata]
      exact iff_of_false (by decide) hdata

theorem pollMask_writable (dev : ScullPipe) :
    Reports (POLLOUT ||| POLLWRNORM) (pollMask dev) ↔ spacefree dev ≠ 0 := by
  unfold Reports pollMask
  by_cases hdata : dev.rp ≠ dev.wp
  · rw [if_pos hdata]
    by_cases hspace : spacefree dev ≠ 0
    · rw [if_pos hspace]
      exact iff_of_true rfl hspace
    · rw [if_neg hspace]
      exact iff_of_false (by decide) hspace
  · rw [if_neg hdata]
    by_cases hspace : spacefree dev ≠ 0
    · rw [if_pos hspace]
      exact iff_of_true rfl hspace
    · rw [if_neg hspace]
      exact iff_of_false (by decide) hspace

theorem pollMask_agrees (choice : Choice size) (pipe : Backed) :
    (Reports (POLLIN ||| POLLRDNORM) (pollMask pipe.dev) ↔
      ∀ fFlags count, 0 < count → (Call.scullPRead fFlags count).Finds size pipe) ∧
    (Reports (POLLOUT ||| POLLWRNORM) (pollMask pipe.dev) ↔
      ∀ fFlags buff, 0 < buff.length → (Call.scullPWrite fFlags buff).Finds size pipe) := by
  constructor
  · rw [pollMask_readable]
    constructor
    · intro hdata fFlags count _
      exact (read_finds_iff choice).mpr hdata
    · intro h
      exact (read_finds_iff choice).mp (h 0 1 Nat.one_pos)
  · rw [pollMask_writable]
    constructor
    · intro hspace fFlags buff _
      exact (write_finds_iff choice).mpr hspace
    · intro h
      exact (write_finds_iff choice).mp (h 0 [0] Nat.one_pos)

end Mask

/-! ## The calls -/

def pollSteps (i : ι) (choices : List (Choice size)) : List (ι × Action size) :=
  (i, .start .scullPPoll) :: choices.map fun choice => (i, Action.go choice)

section Calls
variable [DecidableEq ι] {w w' : World ι} {i : ι} {choices : List (Choice size)} {mask : Int}

theorem returned_stays (mask : Int) (hdone : (w.processes i).pc = .returned mask)
    (run : Run Moves w (choices.map fun choice => (i, Action.go choice)) w') : w' = w := by
  cases choices with
  | nil => exact run.nil_end
  | cons choice rest =>
    obtain ⟨s, hstep, -⟩ := run.cons_inv
    simp [Moves, World.step, Process.step, hdone] at hstep

theorem poll_returns (calm : ∀ choice ∈ choices, choice.interrupted = false)
    (poll : Run Moves w (pollSteps i choices) w') (done : (w'.processes i).pc = .returned mask) :
    mask = 0 ∧ (w'.processes i).polled = [] ∧ 0 < w.sem ∧ w'.sem = w.sem - 1 := by
  obtain ⟨started, hstart, hrest⟩ := poll.cons_inv
  simp only [Moves, World.step] at hstart
  split at hstart
  · cases hstart
    cases choices with
    | nil =>
      cases hrest.nil_end
      simp [Process.start] at done
    | cons choice rest =>
      obtain ⟨polled, hdown, hstays⟩ := hrest.cons_inv
      have hcalm : choice.interrupted = false := calm choice (by simp)
      simp only [Moves, World.step, Process.step, Function.update_self, Process.start, hcalm,
        Bool.false_eq_true, if_false, Option.map_eq_some_iff] at hdown
      obtain ⟨⟨pipe', sem', p'⟩, htaken, hresult⟩ := hdown
      split at htaken
      · cases htaken
      · next hsem =>
        cases htaken
        cases hresult
        have hreturned := returned_stays 0 (by simp [Call.taken]) hstays
        rw [hreturned] at done ⊢
        simp only [Call.taken, Function.update_self, Pc.returned.injEq] at done ⊢
        exact ⟨done.symm, trivial, Nat.pos_of_ne_zero hsem, trivial⟩
  · cases hstart

/-- In no state does an uninterrupted poll do what it owes. -/
theorem poll_disagrees (calm : ∀ choice ∈ choices, choice.interrupted = false)
    (poll : Run Moves w (pollSteps i choices) w') (done : (w'.processes i).pc = .returned mask) :
    ¬ PollAgrees size w i mask w' := by
  intro hagrees
  obtain ⟨-, hpolled, -⟩ := poll_returns calm poll done
  have hqueues := hagrees.queues
  rw [hpolled] at hqueues
  cases hqueues

end Calls

def openSteps : List (Unit × Action 4) :=
  ((), .start (.scullPOpen ⟨true, true⟩)) ::
    List.replicate 3
      ((), .go ⟨false, false, 0, some ⟨16, fun _ => 0, sixteen_nonnull, sixteen_inside⟩⟩)

def openWorld : World Unit :=
  ((World.init 4 fun _ => 0).steps openSteps).getD (World.init 4 fun _ => 0)

def unhurried : List (Choice 4) := [⟨false, false, 0, none⟩]

def polledWorld : World Unit := (openWorld.steps (pollSteps () unhurried)).getD openWorld

theorem polled_run : Run Moves openWorld (pollSteps () unhurried) polledWorld :=
  run_steps (by decide +kernel)

theorem poll_disagrees_open : ¬ PollAgrees 4 openWorld () 0 polledWorld :=
  poll_disagrees (by simp [unhurried]) polled_run (by decide +kernel)

/-- The pipe has space and nobody holds its semaphore; the poll reports nothing
and keeps the semaphore. -/
theorem poll_misses :
    ∃ w w' : World Unit, Run Moves (.init 4 fun _ => 0) openSteps w ∧ w.sem = 1 ∧
      spacefree w.pipe.dev ≠ 0 ∧ Run Moves w (pollSteps () unhurried) w' ∧
      (w'.processes ()).pc = .returned 0 ∧ ¬ PollAgrees 4 w () 0 w' := by
  refine ⟨openWorld, polledWorld, run_steps (by decide +kernel), by decide +kernel,
    by decide +kernel, polled_run, by decide +kernel, ?_⟩
  intro hagrees
  have hsem : polledWorld.sem ≠ openWorld.sem := by decide +kernel
  exact hsem hagrees.sem

end MyDrivers.Pipe
