import Mathlib.Logic.Function.Basic
import MyDrivers.Lib.Census
import MyDrivers.Lib.Machine
import MyDrivers.Lib.Runs

/-! Any number of calls of `sleepy_read` and `sleepy_write`, with all the orders of
their steps. The readers wait for `flag`, which each of them resets; nothing but the
wait queue has a lock. -/
namespace MyDrivers.Misc.Sleepy
open Lib Lib.Machine

inductive Call where
  | sleepyRead
  | sleepyWrite (size : Nat)
  deriving DecidableEq, Repr

inductive Pc where
  /-- The condition of `wait_event_interruptible`, before the queue is joined. -/
  | test
  | prepareToWait
  /-- The condition, once `prepare_to_wait_event` has seen whether there is a signal. -/
  | evaluate (interrupted : Bool)
  | asleep
  | finishWait
  /-- `flag = 0` is next. -/
  | reset
  | wokenUp
  | returned (ret : Int)
  /-- `flag = 1` is next. -/
  | set (size : Nat)
  | wake (size : Nat)
  | written (ret : Int)
  deriving DecidableEq, Repr

structure Process where
  pc : Pc
  queued : Bool
  /-- Woken since it joined the queue last. -/
  awake : Bool

structure World (ι : Type) where
  flag : Int
  processes : ι → Process

def Call.start : Call → Pc
  | .sleepyRead => .test
  | .sleepyWrite size => .set size

/-- One step of a call: the flag and the process afterwards. There is none while it is
asleep and after its end. -/
def Process.step (signal : Bool) (flag : Int) (p : Process) : Option (Int × Process) :=
  match p.pc with
  | .test => some (flag, { p with pc := if flag ≠ 0 then .reset else .prepareToWait })
  | .prepareToWait =>
      if signal then some (flag, { p with pc := .evaluate true, queued := false })
      else some (flag, ⟨.evaluate false, true, false⟩)
  | .evaluate interrupted =>
      if flag ≠ 0 then some (flag, { p with pc := .finishWait })
      -- What the interrupted wait returns is not looked at.
      else if interrupted then some (flag, { p with pc := .reset })
      else some (flag, { p with pc := .asleep })
  | .asleep => if p.awake || signal then some (flag, { p with pc := .prepareToWait }) else none
  | .finishWait => some (flag, { p with pc := .reset, queued := false })
  | .reset => some (0, { p with pc := .wokenUp })
  | .wokenUp => some (flag, { p with pc := .returned 0 })
  | .returned _ => none
  | .set size => some (1, { p with pc := .wake size })
  | .wake size => some (flag, { p with pc := .written (int64 size) })
  | .written _ => none

/-- `wake_up_interruptible`: a process that is woken leaves the queue. -/
def Process.woken (waking : Bool) (p : Process) : Process :=
  if waking && p.queued then { p with queued := false, awake := true } else p

def Pc.waking : Pc → Bool
  | .wake _ => true
  | _ => false

section Steps
variable {ι : Type} [DecidableEq ι]

def World.step (w : World ι) (label : ι × Bool) : Option (World ι) :=
  let (i, signal) := label
  ((w.processes i).step signal w.flag).map fun (flag, p) =>
    ⟨flag, Function.update (fun j => (w.processes j).woken (w.processes i).pc.waking) i p⟩

def Moves (w : World ι) (label : ι × Bool) (w' : World ι) : Prop :=
  w.step label = some w'

def World.init (calls : ι → Call) : World ι :=
  ⟨0, fun i => ⟨(calls i).start, false, false⟩⟩

end Steps

/-! ## Reads that are through, and writes -/

variable {ι : Type}

def World.pcs (w : World ι) (i : ι) : Pc :=
  (w.processes i).pc

def Pc.Returned : Pc → Prop
  | .returned _ => True
  | _ => False

def Pc.Past : Pc → Prop
  | .finishWait | .reset | .wokenUp | .returned _ => True
  | _ => False

def Pc.Resetting : Pc → Prop
  | .finishWait | .reset => True
  | _ => False

def Pc.HasSet : Pc → Prop
  | .wake _ | .written _ => True
  | _ => False

def Pc.Looking : Pc → Prop
  | .test | .evaluate _ => True
  | _ => False

instance : DecidablePred Pc.Returned := fun pc => by
  cases pc <;> first | exact isTrue trivial | exact isFalse id

instance : DecidablePred Pc.Resetting := fun pc => by
  cases pc <;> first | exact isTrue trivial | exact isFalse id

instance : DecidablePred Pc.HasSet := fun pc => by
  cases pc <;> first | exact isTrue trivial | exact isFalse id

instance : DecidablePred Pc.Looking := fun pc => by
  cases pc <;> first | exact isTrue trivial | exact isFalse id

/-- No read stands between its wait and its `flag = 0`. -/
def World.Unclaimed (w : World ι) : Prop :=
  ∀ i, ¬ (w.pcs i).Resetting

/-- The condition on a step. The reads take turns: one that finds the flag set is the
only one until it has reset it. And a wait that a signal ends finds the flag set. -/
def Orderly (w : World ι) (label : ι × Bool) : Prop :=
  ((w.pcs label.1).Looking → w.flag ≠ 0 → w.Unclaimed) ∧
    (w.pcs label.1 = .evaluate true → w.flag ≠ 0)

instance [Fintype ι] (w : World ι) (label : ι × Bool) : Decidable (Orderly w label) :=
  have : Decidable w.Unclaimed := inferInstanceAs (Decidable (∀ i, ¬ (w.pcs i).Resetting))
  inferInstanceAs (Decidable (_ ∧ _))

/-! ## What one step can do -/

inductive Pc.Step (flag : Int) : Pc → Int → Pc → Prop
  | tested (isSet : flag ≠ 0) : Step flag .test flag .reset
  | evaluated {interrupted : Bool} (isSet : flag ≠ 0) :
      Step flag (.evaluate interrupted) flag .finishWait
  | interrupted (clear : flag = 0) : Step flag (.evaluate true) flag .reset
  | enters : Step flag .test flag .prepareToWait
  | prepares {signal : Bool} : Step flag .prepareToWait flag (.evaluate signal)
  | sleeps : Step flag (.evaluate false) flag .asleep
  | rouses : Step flag .asleep flag .prepareToWait
  | finishes : Step flag .finishWait flag .reset
  | resets : Step flag .reset 0 .wokenUp
  | returns : Step flag .wokenUp flag (.returned 0)
  | sets {size : Nat} : Step flag (.set size) 1 (.wake size)
  | wakes {size : Nat} : Step flag (.wake size) flag (.written (int64 size))

theorem process_cases {signal : Bool} {flag flag' : Int} {p p' : Process}
    (ran : p.step signal flag = some (flag', p')) : p.pc.Step flag flag' p'.pc := by
  obtain ⟨pc, queued, awake⟩ := p
  cases pc with
  | test =>
    cases ran
    dsimp only
    split
    · next isSet => exact .tested isSet
    · exact .enters
  | prepareToWait =>
    simp only [Process.step] at ran
    split at ran
    · cases ran
      exact .prepares
    · cases ran
      exact .prepares
  | evaluate interrupted =>
    simp only [Process.step] at ran
    split at ran
    · next isSet =>
      cases ran
      exact .evaluated isSet
    · next clear =>
      split at ran
      · next hinterrupted =>
        cases ran
        cases hinterrupted
        exact .interrupted (not_not.mp clear)
      · next hinterrupted =>
        cases ran
        rw [Bool.not_eq_true] at hinterrupted
        cases hinterrupted
        exact .sleeps
  | asleep =>
    simp only [Process.step] at ran
    split at ran
    · cases ran
      exact .rouses
    · cases ran
  | finishWait =>
    cases ran
    exact .finishes
  | reset =>
    cases ran
    exact .resets
  | wokenUp =>
    cases ran
    exact .returns
  | returned ret => cases ran
  | set size =>
    cases ran
    exact .sets
  | wake size =>
    cases ran
    exact .wakes
  | written ret => cases ran

theorem woken_pc (waking : Bool) (p : Process) : (p.woken waking).pc = p.pc := by
  unfold Process.woken
  split
  · rfl
  · rfl

variable [DecidableEq ι] {w w' : World ι} {label : ι × Bool}

theorem moves_cases (moves : Moves w label w') : ∃ pc,
    w'.pcs = Function.update w.pcs label.1 pc ∧ (w.pcs label.1).Step w.flag w'.flag pc := by
  obtain ⟨⟨flag, p⟩, ran, hw'⟩ := Option.map_eq_some_iff.mp moves
  subst hw'
  refine ⟨p.pc, ?_, process_cases ran⟩
  funext i
  by_cases hi : i = label.1
  · subst hi
    simp [World.pcs]
  · simp [World.pcs, hi, woken_pc]

/-! ## A read for a write -/

/-- A read has a write behind it once its wait is over. One more write is left while the
flag is set and nobody is about to reset it. -/
def World.Balanced (w : World ι) : Prop :=
  Covered (census w.pcs Pc.Past) (census w.pcs Pc.HasSet) (w.flag ≠ 0 ∧ w.Unclaimed)

section Balance
variable {i : ι} {pc : Pc}

theorem unclaimed_before (unclaimed : w'.Unclaimed) (hpcs : w'.pcs = Function.update w.pcs i pc)
    (free : ¬ pc.Resetting → ¬ (w.pcs i).Resetting) : w.Unclaimed := by
  unfold World.Unclaimed at unclaimed
  rw [hpcs, Function.forall_update_iff w.pcs fun _ pc => ¬ pc.Resetting] at unclaimed
  intro j
  by_cases hj : j = i
  · subst hj
    exact free unclaimed.1
  · exact unclaimed.2 j hj

theorem World.Balanced.leave (h : w.Balanced) (hpcs : w'.pcs = Function.update w.pcs i pc)
    (isSet : w.flag ≠ 0) (unclaimed : w.Unclaimed) (waited : ¬ (w.pcs i).Past) (past : pc.Past)
    (resetting : pc.Resetting) (other : pc.HasSet ↔ (w.pcs i).HasSet) : w'.Balanced := by
  unfold World.Balanced
  rw [hpcs, census_enter waited past, census_stay other]
  apply h.spend ⟨isSet, unclaimed⟩
  intro spare
  apply spare.2 i
  rw [hpcs, Function.update_self]
  exact resetting

theorem World.Balanced.stay (h : w.Balanced) (hpcs : w'.pcs = Function.update w.pcs i pc)
    (same : pc.Past ↔ (w.pcs i).Past) (other : pc.HasSet ↔ (w.pcs i).HasSet)
    (spare : w'.flag ≠ 0 → ¬ pc.Resetting → w.flag ≠ 0 ∧ ¬ (w.pcs i).Resetting) :
    w'.Balanced := by
  unfold World.Balanced
  rw [hpcs, census_stay same, census_stay other]
  apply h.frame
  rintro ⟨isSet, unclaimed⟩
  have free : ¬ pc.Resetting := by
    have now := unclaimed i
    rwa [hpcs, Function.update_self] at now
  refine ⟨(spare isSet free).1, ?_⟩
  exact unclaimed_before unclaimed hpcs fun free => (spare isSet free).2

theorem World.Balanced.set (h : w.Balanced) (hpcs : w'.pcs = Function.update w.pcs i pc)
    (same : pc.Past ↔ (w.pcs i).Past) (before : ¬ (w.pcs i).HasSet) (after : pc.HasSet) :
    w'.Balanced := by
  unfold World.Balanced
  rw [hpcs, census_stay same, census_enter before after]
  exact h.issue

end Balance

theorem balanced_step (h : w.Balanced) (orderly : Orderly w label) (moves : Moves w label w') :
    w'.Balanced := by
  obtain ⟨pc, hpcs, step⟩ := moves_cases moves
  obtain ⟨turn, wait⟩ := orderly
  generalize hold : w.pcs label.1 = old at step turn wait
  generalize hflag : w'.flag = flag at step
  cases step with
  | tested isSet =>
    apply h.leave hpcs isSet (turn trivial isSet)
    · simp [hold, Pc.Past]
    · trivial
    · trivial
    · simp [hold, Pc.HasSet]
  | evaluated isSet =>
    apply h.leave hpcs isSet (turn trivial isSet)
    · simp [hold, Pc.Past]
    · trivial
    · trivial
    · simp [hold, Pc.HasSet]
  | interrupted clear => exact absurd clear (wait rfl)
  | sets =>
    apply h.set hpcs
    · simp [hold, Pc.Past]
    · simp [hold, Pc.HasSet]
    · trivial
  -- Neither a read that gets past its wait nor a write that sets the flag.
  | _ =>
    apply h.stay hpcs
    · simp [hold, Pc.Past]
    · simp [hold, Pc.HasSet]
    · simp [hold, hflag, Pc.Resetting]

omit [DecidableEq ι] in
theorem balanced_init (calls : ι → Call) : (World.init calls).Balanced := by
  have waiting (i : ι) : ¬ ((World.init calls).pcs i).Past := by
    simp only [World.pcs, World.init]
    cases calls i with
    | sleepyRead => exact id
    | sleepyWrite size => exact id
  unfold World.Balanced
  rw [census_none waiting]
  exact Covered.nobody fun spare => spare.1 rfl

/-- As long as the reads take turns and none gives up its wait, no more of them have
returned than writes have set the flag. -/
theorem returned_le_set (calls : ι → Call) {labels : List (ι × Bool)}
    (run : Run (While Orderly Moves) (.init calls) labels w) :
    census w.pcs Pc.Returned ≤ census w.pcs Pc.HasSet := by
  have balanced : w.Balanced :=
    run.invariant (fun _ w => w.Balanced) (balanced_init calls)
      fun _ _ _ _ _ h hstep => balanced_step h hstep.1 hstep.2
  have past : census w.pcs Pc.Returned ≤ census w.pcs Pc.Past := by
    apply census_le
    intro pc returned
    cases pc with
    | returned ret => trivial
    | _ => exact returned.elim
  exact past.trans balanced.1

def oneWrite (readers : Nat) (i : Fin (readers + 1)) : Call :=
  if i = 0 then .sleepyWrite 1 else .sleepyRead

def turns {n : Nat} (order : List (Fin n)) : List (Fin n × Bool) :=
  order.map fun i => (i, false)

theorem returned_le_set_first : ∃ w,
    Run (While Orderly Moves) (.init (oneWrite 1)) (turns [1, 1, 1, 0, 0, 1, 1, 1, 1, 1, 1]) w ∧
      w.pcs 1 = .returned 0 ∧ census w.pcs Pc.Returned ≤ census w.pcs Pc.HasSet := by
  have possible : (((turns [1, 1, 1, 0, 0, 1, 1, 1, 1, 1, 1]).foldlM
      (fun (w : World (Fin 2)) label => if Orderly w label then w.step label else none)
      (.init (oneWrite 1))).any fun w => w.pcs 1 = .returned 0) = true := by
    decide +kernel
  obtain ⟨w, hpc, run⟩ := Run.of_any possible
  exact ⟨w, run.checked, of_decide_eq_true hpc, returned_le_set _ run.checked⟩

def World.exceeds {n : Nat} (w : World (Fin n)) : Bool :=
  (Finset.univ.filter fun i => (w.pcs i).HasSet).card <
    (Finset.univ.filter fun i => (w.pcs i).Returned).card

theorem exceeding_run {n : Nat} {start : World (Fin n)} {labels : List (Fin n × Bool)}
    (possible : ((labels.foldlM World.step start).any World.exceeds) = true) :
    ∃ w, Run Moves start labels w ∧ ¬ census w.pcs Pc.Returned ≤ census w.pcs Pc.HasSet := by
  obtain ⟨w, hexceeds, run⟩ := Run.of_any possible
  refine ⟨w, run, ?_⟩
  rw [census_eq_card, census_eq_card, Nat.cast_le, not_le]
  exact of_decide_eq_true hexceeds

/-- A signal ends the wait of a read that then returns although nobody has written; and
one write lets two reads go on before either of them resets the flag. -/
theorem returned_exceeds :
    (∃ w, Run Moves (.init (oneWrite 1))
        [(1, false), (1, true), (1, true), (1, true), (1, true)] w ∧
      ¬ census w.pcs Pc.Returned ≤ census w.pcs Pc.HasSet) ∧
    ∃ w, Run Moves (.init (oneWrite 2))
        (turns [1, 1, 1, 2, 2, 2, 0, 0, 1, 1, 1, 2, 2, 2, 1, 1, 1, 2, 2, 2]) w ∧
      ¬ census w.pcs Pc.Returned ≤ census w.pcs Pc.HasSet := by
  constructor
  · apply exceeding_run
    decide +kernel
  · apply exceeding_run
    decide +kernel

end MyDrivers.Misc.Sleepy
