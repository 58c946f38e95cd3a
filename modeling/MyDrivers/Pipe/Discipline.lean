import MyDrivers.Pipe.Processes

/-! The semaphore of a pipe device. Every path through the calls that move bytes
and through `open` and `release` gives back what it took; `scull_p_poll` tests
its `down_interruptible` the wrong way round and gives back what it did not take. -/
namespace MyDrivers.Pipe
open Lib
open Store (Byte)

variable {size : Nat} {ι : Type}

/-- Between a `down_interruptible` that succeeded and the `up` that answers it. -/
def Pc.inside : Pc → Bool
  | .locked => true
  | .up _ => true
  | _ => false

structure Disciplined (w : World ι) : Prop where
  /-- In particular, a call that has returned did as many `up`s as it took the semaphore. -/
  outside : ∀ i, (w.processes i).pc.inside = false → (w.processes i).downs = (w.processes i).ups
  inside : ∀ i, (w.processes i).pc.inside = true →
    (w.processes i).downs = (w.processes i).ups + 1
  bounded : w.sem ≤ 1
  alone : ∀ i j, (w.processes i).pc.inside = true → (w.processes j).pc.inside = true → i = j
  taken : ∀ i, (w.processes i).pc.inside = true → w.sem = 0
  /-- In particular, when no call is in progress. -/
  free : (∀ i, (w.processes i).pc.inside = false) → w.sem = 1

/-- No `scull_p_poll` gets past its `down_interruptible`: none takes the
semaphore, and none that was interrupted reaches its `up`. -/
def PollStopped (w : World ι) (label : ι × Action size) : Prop :=
  match label.2 with
  | .start _ => True
  | .go choice =>
      match (w.processes label.1).pc with
      | .down => (w.processes label.1).call = .scullPPoll → choice.interrupted = true
      | .pollUp _ => False
      | _ => True

theorem exclusive_of {w : World ι} (h : Disciplined w) :
    Exclusive w.sem fun i => (w.processes i).pc.inside = true := by
  by_cases hsome : ∃ i, (w.processes i).pc.inside = true
  · obtain ⟨i, hi⟩ := hsome
    exact .inr ⟨h.taken i hi, i, hi, fun j hj => h.alone j i hj hi⟩
  · refine .inl ⟨h.free fun i => ?_, fun i hi => hsome ⟨i, hi⟩⟩
    exact Bool.eq_false_iff.mpr fun hi => hsome ⟨i, hi⟩

theorem disciplined_of {w : World ι}
    (h : Exclusive w.sem fun i => (w.processes i).pc.inside = true)
    (balanced : ∀ i, (w.processes i).downs =
      (w.processes i).ups + if (w.processes i).pc.inside then 1 else 0) : Disciplined w := by
  refine ⟨?_, ?_, h.le_one, fun i j => h.alone, ?_, ?_⟩
  · intro i hi
    simpa [hi] using balanced i
  · intro i hi
    simpa [hi] using balanced i
  · intro i hi
    rcases h with ⟨-, hnone⟩ | ⟨hsem, -⟩
    · exact absurd hi (hnone i)
    · exact hsem
  · intro hnone
    exact h.free fun i hi => Bool.noConfusion (hi.symm.trans (hnone i))

theorem Disciplined.balanced {w : World ι} (h : Disciplined w) (i : ι) :
    (w.processes i).downs =
      (w.processes i).ups + if (w.processes i).pc.inside then 1 else 0 := by
  cases hi : (w.processes i).pc.inside with
  | true => simpa using h.inside i hi
  | false => simpa using h.outside i hi

/-! ## What one step of a process does to the semaphore -/

inductive Effect (p : Process) (sem sem' : Nat) (p' : Process) : Prop where
  | quiet (same : sem' = sem) (place : p'.pc.inside = p.pc.inside) (downs : p'.downs = p.downs)
      (ups : p'.ups = p.ups)
  | down (free : 0 < sem) (less : sem' = sem - 1) (before : p.pc.inside = false)
      (after : p'.pc.inside = true) (downs : p'.downs = p.downs + 1) (ups : p'.ups = p.ups)
  | up (more : sem' = sem + 1) (before : p.pc.inside = true) (after : p'.pc.inside = false)
      (downs : p'.downs = p.downs) (ups : p'.ups = p.ups + 1)

section Effects
variable {p p' : Process} {choice : Choice size} {pipe pipe' : Backed} {sem sem' : Nat}

theorem interrupted_outside (call : Call) : call.interrupted.inside = false := by
  cases call <;> rfl

theorem taken_inside {call : Call} (h : call ≠ .scullPPoll) : call.taken.inside = true := by
  cases call with
  | scullPPoll => exact absurd rfl h
  | scullPOpen mode => rfl
  | scullPRelease mode => rfl
  | scullPRead fFlags count => rfl
  | scullPWrite fFlags buff => rfl

theorem after_outside (after : After) : after.pc.inside = false := by
  cases after <;> rfl

theorem start_outside (call : Call) : (Process.start call).pc.inside = false := rfl

theorem flags_outside {call : Call} {pc : Pc} (h : call.flags = some pc) : pc.inside = false := by
  rcases flags_cases h with ⟨ret, rfl⟩ | rfl | rfl <;> rfl

theorem rouse_outside {call : Call} {pc : Pc} (h : call.rouse = some pc) : pc.inside = false := by
  rcases rouse_cases h with rfl | rfl <;> rfl

theorem evaluate_quiet {signal : Bool} {dev : ScullPipe} (h : p.evaluate signal dev = some p') :
    p'.pc.inside = false ∧ p'.downs = p.downs ∧ p'.ups = p.ups := by
  cases evaluate_cases h with
  | on next queue place =>
    refine ⟨?_, rfl, rfl⟩
    rcases place with rfl | rfl | ⟨ret, rfl⟩ <;> rfl
  | sleeps queue waits blocked => exact ⟨rfl, rfl, rfl⟩

theorem went_effect (step : p.Went choice pipe sem pipe' sem' p')
    (hdown : p.pc = .down → p.call = .scullPPoll → choice.interrupted = true)
    (hpoll : ∀ mask, p.pc ≠ .pollUp mask) : Effect p sem sem' p' := by
  cases step with
  | interrupted pc signal =>
    exact .quiet rfl (by rw [pc]; exact interrupted_outside p.call) rfl rfl
  | taken pc calm free =>
    have hcall : p.call ≠ .scullPPoll := fun h => Bool.noConfusion (calm.symm.trans (hdown pc h))
    exact .down (Nat.pos_of_ne_zero free) rfl (by rw [pc]; rfl) (taken_inside hcall) rfl rfl
  | locked pc after pipe' ran => exact .quiet rfl (by rw [pc]; rfl) rfl rfl
  | up after pc => exact .up rfl (by rw [pc]; rfl) (after_outside after) rfl rfl
  | flags pc next ran => exact .quiet rfl (by rw [pc]; exact flags_outside ran) rfl rfl
  | test pc =>
    refine .quiet rfl ?_ rfl rfl
    rw [pc]
    dsimp only
    split <;> rfl
  | prepareToWait pc => exact .quiet rfl (by rw [pc]; rfl) rfl rfl
  | evaluate pc p' ran =>
    obtain ⟨hplace, hdowns, hups⟩ := evaluate_quiet ran
    exact .quiet rfl (by rw [pc]; exact hplace) hdowns hups
  | asleep pc next roused ran => exact .quiet rfl (by rw [pc]; exact rouse_outside ran) rfl rfl
  | finishWait pc =>
    refine .quiet rfl ?_ rfl rfl
    rw [pc]
    dsimp only
    split <;> rfl
  | wake ret pc => exact .quiet rfl (by rw [pc]; rfl) rfl rfl
  | pollWait pc => exact .quiet rfl (by rw [pc]; rfl) rfl rfl
  | pollUp mask pc => exact absurd pc (hpoll mask)

end Effects

/-! ## Runs -/

section Runs
variable [DecidableEq ι] {w w' : World ι} {i : ι}

theorem update_other (queue : Option WaitQueue) (p' : Process) {j : ι} (hj : j ≠ i) :
    (Function.update (fun j => (w.processes j).woken queue) i p' j).pc = (w.processes j).pc ∧
      (Function.update (fun j => (w.processes j).woken queue) i p' j).downs =
        (w.processes j).downs ∧
      (Function.update (fun j => (w.processes j).woken queue) i p' j).ups =
        (w.processes j).ups := by
  rw [Function.update_of_ne hj]
  simp

theorem disciplined_effect {p' : Process} (h : Disciplined w) (hi : w'.processes i = p')
    (others : ∀ j, j ≠ i → (w'.processes j).pc = (w.processes j).pc ∧
      (w'.processes j).downs = (w.processes j).downs ∧ (w'.processes j).ups = (w.processes j).ups)
    (effect : Effect (w.processes i) w.sem w'.sem p') : Disciplined w' := by
  have hbalanced := h.balanced i
  apply disciplined_of
  · have hexclusive := exclusive_of h
    cases effect with
    | quiet same place downs ups =>
      rw [same]
      apply hexclusive.congr
      intro j
      by_cases hj : j = i
      · rw [hj, hi, place]
      · rw [(others j hj).1]
    | down free less before after downs ups =>
      rw [less]
      apply hexclusive.down (i := i) free
      intro j
      by_cases hj : j = i
      · simp [hj, hi, after]
      · simp [hj, (others j hj).1]
    | up more before after downs ups =>
      rw [more]
      apply hexclusive.up before
      intro j
      by_cases hj : j = i
      · simp [hj, hi, after]
      · simp [hj, (others j hj).1]
  · intro j
    by_cases hj : j = i
    · subst hj
      rw [hi]
      cases effect with
      | quiet same place downs ups => rw [place, downs, ups, hbalanced]
      | down free less before after downs ups =>
        rw [before] at hbalanced
        simp only [Bool.false_eq_true, if_false] at hbalanced
        rw [after, downs, ups, if_pos rfl, hbalanced]
      | up more before after downs ups =>
        rw [before, if_pos rfl] at hbalanced
        rw [after, downs, ups, hbalanced]
        simp
    · obtain ⟨hpc, hdowns, hups⟩ := others j hj
      rw [hpc, hdowns, hups]
      exact h.balanced j

theorem disciplined_start (h : Disciplined w) {ret : Int} (call : Call)
    (idle : (w.processes i).pc = .returned ret) :
    Disciplined { w with processes := Function.update w.processes i (.start call) } := by
  have hbefore : (w.processes i).pc.inside = false := by rw [idle]; rfl
  apply disciplined_of
  · apply (exclusive_of h).congr
    intro j
    by_cases hj : j = i
    · subst hj
      simp [hbefore, start_outside]
    · simp [Function.update_of_ne hj]
  · intro j
    by_cases hj : j = i
    · subst hj
      simp [Process.start, Pc.inside]
    · simpa [Function.update_of_ne hj] using h.balanced j

theorem undisciplined_poll (h : Disciplined w) {choice : Choice size} {pipe' : Backed}
    {sem' : Nat} {p' : Process} {queue : Option WaitQueue}
    (step : (w.processes i).Went choice w.pipe w.sem pipe' sem' p')
    (past : (w.processes i).pc = .down ∧ (w.processes i).call = .scullPPoll ∧
        choice.interrupted = false ∨ ∃ mask, (w.processes i).pc = .pollUp mask) :
    ¬ Disciplined ⟨pipe', sem',
      Function.update (fun j => (w.processes j).woken queue) i p'⟩ := by
  intro hafter
  have houtside : p'.pc.inside = false → p'.downs = p'.ups := by
    simpa using hafter.outside i
  rcases past with ⟨hpc, hcall, hinterrupted⟩ | ⟨mask, hpc⟩
  · have hbefore := h.outside i (by rw [hpc]; rfl)
    cases step with
    | interrupted pc signal => exact Bool.noConfusion (hinterrupted.symm.trans signal)
    | taken pc calm free =>
      have hdebt : (w.processes i).downs + 1 = (w.processes i).ups :=
        houtside (by rw [hcall]; rfl)
      omega
    | _ => simp_all
  · have hbefore := h.outside i (by rw [hpc]; rfl)
    cases step with
    | pollUp mask pc =>
      have hdebt : (w.processes i).downs = (w.processes i).ups + 1 := houtside rfl
      omega
    | _ => simp_all

theorem moves_disciplined (h : Disciplined w) {label : ι × Action size} (hmove : Moves w label w') :
    Disciplined w' ↔ PollStopped w label := by
  cases moves_cases hmove with
  | started i call ret idle => exact iff_of_true (disciplined_start h call idle) trivial
  | went i choice pipe' sem' p' step =>
    by_cases hstopped : PollStopped w (i, .go choice)
    · refine iff_of_true ?_ hstopped
      have hself : Function.update (fun j => (w.processes j).woken (w.processes i).waking) i p' i =
          p' := Function.update_self ..
      apply disciplined_effect h hself fun j hj => update_other _ p' hj
      simp only [PollStopped] at hstopped
      apply went_effect step
      · intro hpc hcall
        rw [hpc] at hstopped
        exact hstopped hcall
      · intro mask hpc
        rw [hpc] at hstopped
        exact hstopped
    · refine iff_of_false (undisciplined_poll h step ?_) hstopped
      simp only [PollStopped] at hstopped
      split at hstopped
      · next hpc =>
        simp only [Classical.not_imp, Bool.not_eq_true] at hstopped
        exact .inl ⟨hpc, hstopped⟩
      · next mask hpc => exact .inr ⟨mask, hpc⟩
      · exact absurd trivial hstopped

/-- The semaphore is kept in order all along a run if and only if no poll of
the run gets past its `down_interruptible`. -/
theorem disciplined_iff {mem : Nat → Byte} {labels : List (ι × Action size)}
    (run : Run Moves (.init size mem) labels w) :
    (∀ pre s, pre <+: labels → Run Moves (.init size mem) pre s → Disciplined s) ↔
      Run (While PollStopped Moves) (.init size mem) labels w := by
  have initial : Disciplined (World.init size mem : World ι) := by
    apply disciplined_of
    · exact .inl ⟨rfl, fun i => Bool.false_ne_true⟩
    · intro i
      rfl
  refine Run.always_iff moves_deterministic initial ?_ run
  intro labels s label t _ h hmove
  exact moves_disciplined h hmove

end Runs

def Pc.pollsUp : Pc → Bool
  | .pollUp _ => true
  | _ => false

theorem pollStopped_iff {w : World ι} {i : ι} {choice : Choice size} :
    PollStopped w (i, .go choice) ↔ (w.processes i).pc.pollsUp = false ∧
      ((w.processes i).pc = .down → (w.processes i).call = .scullPPoll →
        choice.interrupted = true) := by
  unfold PollStopped
  cases (w.processes i).pc <;> simp [Pc.pollsUp]

instance (w : World ι) : (label : ι × Action size) → Decidable (PollStopped w label)
  | (_, .start _) => .isTrue trivial
  | (_, .go _) => decidable_of_iff _ pollStopped_iff.symm

def Choice.calm : Choice 4 := ⟨false, false, 4, some freshFour⟩

def idleWorld : World Bool := .init 4 fun _ => 0

def pollStart : Bool × Action 4 := (false, .start .scullPPoll)

def proceed : Bool × Action 4 := (false, .go .calm)

/-- The second process reads and falls asleep, the first one writes and wakes it up; then a
poll is interrupted, and another one has just begun. -/
def slept : List (Bool × Action 4) :=
  let go (i : Bool) (n : Nat) : List (Bool × Action 4) := List.replicate n (i, .go .calm)
  [(false, .start (.scullPOpen ⟨true, true⟩))] ++ go false 3 ++
    [(true, .start (.scullPRead 0 5))] ++ go true 7 ++
    [(false, .start (.scullPWrite 0 [1, 2]))] ++ go false 4 ++ go true 7 ++
    [(true, .start .scullPPoll), (true, .go { Choice.calm with interrupted := true }), pollStart]

theorem disciplined_open : ∃ w, Run Moves idleWorld slept w ∧ w.sem = 1 ∧
    (w.processes false).pc = .down ∧ Disciplined w := by
  have possible : ((slept.foldlM (fun (w : World Bool) label =>
      if PollStopped w label then w.step label.1 label.2 else none) idleWorld).any fun w =>
        w.sem = 1 ∧ (w.processes false).pc = .down) = true := by
    decide +kernel
  obtain ⟨w, hw, hsteps⟩ := Run.of_any possible
  obtain ⟨hsem, hpc⟩ := of_decide_eq_true hw
  have run : Run (While PollStopped Moves) idleWorld slept w := hsteps.checked
  exact ⟨w, run.forget, hsem, hpc,
    (disciplined_iff run.forget).mpr run _ _ (List.prefix_refl _) run.forget⟩

/-- A poll of an idle device returns with the semaphore. -/
theorem poll_takes :
    ∃ w, Run Moves idleWorld [pollStart, proceed] w ∧ (w.processes false).pc = .returned 0 ∧
      (w.processes false).downs = 1 ∧ (w.processes false).ups = 0 ∧ w.sem = 0 :=
  ⟨(idleWorld.after pollStart).after proceed,
    (Run.single (moves_after rfl)).snoc (moves_after rfl), rfl, rfl, rfl, rfl⟩

end MyDrivers.Pipe
