import MyDrivers.Lib.Progress
import MyDrivers.Lib.WaitQueue
import MyDrivers.Misc.Sleepy

/-! What becomes of the calls of `sleepy_read`: one that sleeps although the flag is set has
a wake-up coming, and without signals everybody comes to rest. -/
namespace MyDrivers.Misc.Sleepy
open Lib Lib.Machine

variable {ι : Type}

def Process.Sleeps (p : Process) : Prop :=
  p.pc = .asleep ∧ p.awake = false

/-- The next wake-up reaches the process, or one has reached it. -/
def Process.Reachable (p : Process) : Prop :=
  p.pc = .evaluate false ∨ p.pc = .asleep → p.queued = true ∨ p.awake = true

def Pc.Through : Pc → Prop
  | .wokenUp | .returned _ => True
  | _ => False

def Call.Reaches : Call → Pc → Prop
  | .sleepyRead, .returned ret => ret = 0
  | .sleepyRead, .set _ | .sleepyRead, .wake _ | .sleepyRead, .written _ => False
  | .sleepyRead, _ => True
  | .sleepyWrite size, .set n | .sleepyWrite size, .wake n => n = size
  | .sleepyWrite size, .written ret => ret = int64 size
  | .sleepyWrite _, _ => False

/-- Nobody sleeps in vain, and once a write has set the flag, either it is still set or a
read has taken it. -/
structure Sound (calls : ι → Call) (w : World ι) : Prop where
  reached : ∀ i, (calls i).Reaches (w.pcs i)
  reachable : ∀ i, (w.processes i).Reachable
  awaited : Awaited (fun i => (w.processes i).Sleeps) (fun _ => w.flag ≠ 0)
    fun i => (w.pcs i).waking = true
  taken : w.flag = 0 → (∃ i, (w.pcs i).HasSet) → ∃ i, (w.pcs i).Through

/-! ## One step -/

section Steps
variable {signal : Bool} {flag flag' : Int} {p p' : Process} {pc pc' : Pc} {call : Call}

theorem reaches_step (h : call.Reaches pc) (step : pc.Step flag flag' pc') : call.Reaches pc' := by
  cases call with
  | sleepyRead => cases step <;> simp_all [Call.Reaches]
  | sleepyWrite size => cases step <;> simp_all [Call.Reaches]

theorem reachable_step (h : p.Reachable) (ran : p.step signal flag = some (flag', p')) :
    p'.Reachable := by
  obtain ⟨pc, queued, awake⟩ := p
  cases pc with
  | evaluate interrupted =>
    simp only [Process.step] at ran
    split at ran
    · cases ran
      simp [Process.Reachable]
    · split at ran
      · cases ran
        simp [Process.Reachable]
      · next hinterrupted =>
        cases ran
        rw [Bool.not_eq_true] at hinterrupted
        exact fun _ => h (.inl (congrArg Pc.evaluate hinterrupted))
  | prepareToWait =>
    simp only [Process.step] at ran
    split at ran
    · cases ran
      simp [Process.Reachable]
    · cases ran
      simp [Process.Reachable]
  | test =>
    cases ran
    unfold Process.Reachable
    dsimp only
    split <;> simp
  | asleep =>
    simp only [Process.step] at ran
    split at ran
    · cases ran
      simp [Process.Reachable]
    · cases ran
  | returned ret => cases ran
  | written ret => cases ran
  | _ =>
    cases ran
    simp [Process.Reachable]

theorem reachable_woken (waking : Bool) (h : p.Reachable) : (p.woken waking).Reachable := by
  unfold Process.woken
  split
  · exact fun _ => .inr rfl
  · exact h

theorem woken_reaches (h : p.Reachable) : ¬ (p.woken true).Sleeps := by
  rintro ⟨hasleep, hawake⟩
  rw [woken_pc] at hasleep
  unfold Process.woken at hawake
  split at hawake
  · cases hawake
  · next hqueue => simp_all [Process.Reachable]

theorem sleeps_step (ran : p.step signal flag = some (flag', p')) (hsleeps : p'.Sleeps) :
    flag' = 0 := by
  have step := process_cases ran
  rw [hsleeps.1] at step
  obtain ⟨pc, queued, awake⟩ := p
  cases pc with
  | evaluate interrupted =>
    simp only [Process.step] at ran
    split at ran
    · next hset =>
      cases ran
      cases hsleeps.1
    · next hset =>
      rw [not_not] at hset
      split at ran <;> · cases ran; exact hset
  | _ => cases step

end Steps

/-! ## The parties together -/

section Worlds
variable [DecidableEq ι] {w w' : World ι} {label : ι × Bool} {calls : ι → Call}

theorem moves_processes (moves : Moves w label w') : ∃ p,
    (w.processes label.1).step label.2 w.flag = some (w'.flag, p) ∧
      w'.processes = Function.update
        (fun j => (w.processes j).woken (w.pcs label.1).waking) label.1 p := by
  obtain ⟨⟨flag, p⟩, ran, hw'⟩ := Option.map_eq_some_iff.mp moves
  subst hw'
  exact ⟨p, ran, rfl⟩

theorem reachable_moves (h : ∀ i, (w.processes i).Reachable) (moves : Moves w label w') :
    ∀ i, (w'.processes i).Reachable := by
  obtain ⟨p, ran, hprocesses⟩ := moves_processes moves
  rw [hprocesses]
  apply (Function.forall_update_iff _ fun _ (p : Process) => p.Reachable).mpr
  exact ⟨reachable_step (h label.1) ran, fun j _ => reachable_woken _ (h j)⟩

theorem awaited_moves (h : Sound calls w) (moves : Moves w label w') :
    Awaited (fun i => (w'.processes i).Sleeps) (fun _ => w'.flag ≠ 0)
      fun i => (w'.pcs i).waking = true := by
  obtain ⟨p, ran, hprocesses⟩ := moves_processes moves
  obtain ⟨pc, hpcs, step⟩ := moves_cases moves
  have hother (j : ι) (hj : j ≠ label.1) :
      w'.processes j = (w.processes j).woken (w.pcs label.1).waking := by
    rw [hprocesses, Function.update_of_ne hj]
  have hself : w'.processes label.1 = p := by rw [hprocesses, Function.update_self]
  by_cases hset : ∃ size, w.pcs label.1 = .set size
  · obtain ⟨size, hsize⟩ := hset
    rw [hsize] at step
    generalize w'.flag = flag at step
    cases step
    apply Awaited.announce (j := label.1)
    rw [hpcs, Function.update_self]
    rfl
  · cases hwaking : (w.pcs label.1).waking with
    | true =>
      intro i hsleeps hready
      by_cases hi : i = label.1
      · subst hi
        exact absurd (sleeps_step ran (hself ▸ hsleeps)) hready
      · rw [hother i hi, hwaking] at hsleeps
        exact absurd hsleeps (woken_reaches (h.reachable i))
    | false =>
      by_cases hclear : w'.flag = 0
      · exact fun i _ hready => absurd hclear hready
      · have hflag : w'.flag = w.flag := by
          generalize hold : w.pcs label.1 = old at step hset
          generalize w'.flag = flag at step hclear
          cases step with
          | resets => exact absurd rfl hclear
          | sets => exact absurd ⟨_, rfl⟩ hset
          | _ => rfl
        apply h.awaited.frame
        · intro i hsleeps hready
          by_cases hi : i = label.1
          · subst hi
            exact absurd (sleeps_step ran (hself ▸ hsleeps)) hready
          · rw [hother i hi, hwaking] at hsleeps
            exact ⟨hsleeps, hflag ▸ hready⟩
        · intro j hj
          have hne : j ≠ label.1 := by
            rintro rfl
            rw [hwaking] at hj
            cases hj
          rw [hpcs, Function.update_of_ne hne]
          exact hj

theorem taken_moves (h : w.flag = 0 → (∃ i, (w.pcs i).HasSet) → ∃ i, (w.pcs i).Through)
    (moves : Moves w label w') (hclear : w'.flag = 0) (hset : ∃ i, (w'.pcs i).HasSet) :
    ∃ i, (w'.pcs i).Through := by
  obtain ⟨pc, hpcs, step⟩ := moves_cases moves
  rw [hpcs] at hset ⊢
  generalize hold : w.pcs label.1 = old at step
  generalize w'.flag = flag at step hclear
  -- Whoever has set it had done so before, and whoever is through stays so.
  have hframe (same : flag = w.flag) (sets : pc.HasSet → (w.pcs label.1).HasSet)
      (through : (w.pcs label.1).Through → pc.Through) :
      ∃ i, (Function.update w.pcs label.1 pc i).Through := by
    obtain ⟨j, hj⟩ := hset
    have hbefore : (w.pcs j).HasSet := by
      by_cases hji : j = label.1
      · subst hji
        apply sets
        simpa using hj
      · simpa [hji] using hj
    obtain ⟨k, hk⟩ := h (same ▸ hclear) ⟨j, hbefore⟩
    by_cases hki : k = label.1
    · exact ⟨label.1, by simpa using through (hki ▸ hk)⟩
    · exact ⟨k, by simpa [hki] using hk⟩
  cases step with
  | resets => exact ⟨label.1, by simp [Pc.Through]⟩
  | sets => cases hclear
  | _ => exact hframe rfl (by simp [hold, Pc.HasSet]) (by simp [hold, Pc.Through])

theorem sound_moves (h : Sound calls w) (moves : Moves w label w') : Sound calls w' := by
  obtain ⟨pc, hpcs, step⟩ := moves_cases moves
  refine ⟨?_, reachable_moves h.reachable moves, awaited_moves h moves, taken_moves h.taken moves⟩
  rw [hpcs]
  apply (Function.forall_update_iff w.pcs fun j pc => (calls j).Reaches pc).mpr
  exact ⟨reaches_step (h.reached label.1) step, fun j _ => h.reached j⟩

omit [DecidableEq ι] in
theorem sound_init (calls : ι → Call) : Sound calls (.init calls) := by
  have hplace (i : ι) : (calls i).Reaches (calls i).start ∧ (calls i).start ≠ .evaluate false ∧
      (calls i).start ≠ .asleep ∧ ¬ (calls i).start.HasSet := by
    cases calls i with
    | sleepyRead => simp [Call.start, Call.Reaches, Pc.HasSet]
    | sleepyWrite size => simp [Call.start, Call.Reaches, Pc.HasSet]
  constructor
  · exact fun i => (hplace i).1
  · rintro i (h | h)
    · exact absurd h (hplace i).2.1
    · exact absurd h (hplace i).2.2.1
  · exact fun i _ hready => absurd rfl hready
  · rintro - ⟨i, hi⟩
    exact absurd hi (hplace i).2.2.2

end Worlds

/-! ## Coming to rest -/

def Calm (_ : World ι) (label : ι × Bool) : Prop :=
  label.2 = false

/-- The writes are through, and so are the reads, but for those that sleep while the flag
is clear. A write lets some read through. -/
structure Rested (calls : ι → Call) (w : World ι) : Prop where
  writes : ∀ i size, calls i = .sleepyWrite size → w.pcs i = .written (int64 size)
  reads : ∀ i, calls i = .sleepyRead → w.pcs i = .returned 0 ∨ w.pcs i = .asleep ∧ w.flag = 0
  served : (∃ i size, calls i = .sleepyWrite size) → (∃ i, calls i = .sleepyRead) →
    ∃ i, w.pcs i = .returned 0

/-- The times a call can still change the flag, or wake somebody. -/
def Pc.credit : Pc → Nat
  | .set _ => 2
  | .wake _ => 1
  | .wokenUp | .returned _ | .written _ => 0
  | _ => 1

/-- The steps a call has, as the flag stands, until it sleeps or has spent its credit. -/
def Process.effort (flag : Int) (p : Process) : Nat :=
  match p.pc with
  | .test => if flag = 0 then 3 else 1
  | .prepareToWait => if flag = 0 then 2 else 3
  | .evaluate interrupted =>
      if flag = 0 ∧ interrupted = false then if p.awake then 4 else 1 else 2
  | .asleep => if p.awake then if flag = 0 then 3 else 4 else 0
  | .finishWait | .wokenUp => 1
  | _ => 0

section Rest
variable {flag flag' : Int} {p p' : Process}

theorem credit_le (pc : Pc) : pc.credit ≤ 2 := by
  unfold Pc.credit
  split <;> omega

theorem effort_le (flag : Int) (p : Process) : p.effort flag ≤ 4 := by
  unfold Process.effort
  split <;> (repeat' split) <;> omega

theorem step_spends (ran : p.step false flag = some (flag', p')) :
    p'.pc.credit < p.pc.credit ∨ p'.pc.credit = p.pc.credit ∧ flag' = flag ∧
      p.pc.waking = false ∧ p'.effort flag < p.effort flag := by
  obtain ⟨pc, queued, awake⟩ := p
  cases pc with
  | test =>
    cases ran
    by_cases hclear : flag = 0 <;> simp [hclear, Pc.credit, Pc.waking, Process.effort]
  | prepareToWait =>
    cases ran
    by_cases hclear : flag = 0 <;> simp [hclear, Pc.credit, Pc.waking, Process.effort]
  | evaluate interrupted =>
    by_cases hclear : flag = 0
    · cases interrupted <;> cases awake <;> simp [Process.step, hclear] at ran <;>
        obtain ⟨rfl, rfl⟩ := ran <;> simp [hclear, Pc.credit, Pc.waking, Process.effort]
    · simp only [Process.step, hclear, ne_eq, not_false_eq_true, if_true] at ran
      cases ran
      simp [hclear, Pc.credit, Pc.waking, Process.effort]
  | asleep =>
    cases awake with
    | true =>
      cases ran
      by_cases hclear : flag = 0 <;> simp [hclear, Pc.credit, Pc.waking, Process.effort]
    | false => cases ran
  | finishWait =>
    cases ran
    simp [Pc.credit, Pc.waking, Process.effort]
  | reset =>
    cases ran
    simp [Pc.credit]
  | wokenUp =>
    cases ran
    simp [Pc.credit, Pc.waking, Process.effort]
  | set size =>
    cases ran
    simp [Pc.credit]
  | wake size =>
    cases ran
    simp [Pc.credit]
  | returned ret => cases ran
  | written ret => cases ran

theorem waking_wakes {pc : Pc} (hwaking : pc.waking = true) : ∃ size, pc = .wake size := by
  cases pc with
  | wake size => exact ⟨size, rfl⟩
  | _ => cases hwaking

theorem step_rests (rest : p.step false flag = none) :
    (∃ ret, p.pc = .returned ret) ∨ (∃ ret, p.pc = .written ret) ∨ p.Sleeps := by
  obtain ⟨pc, queued, awake⟩ := p
  cases pc with
  | returned ret => exact .inl ⟨ret, rfl⟩
  | written ret => exact .inr (.inl ⟨ret, rfl⟩)
  | asleep =>
    cases awake with
    | true => cases rest
    | false => exact .inr (.inr ⟨rfl, rfl⟩)
  | evaluate interrupted =>
    simp only [Process.step] at rest
    split at rest
    · cases rest
    · split at rest <;> cases rest
  | _ => cases rest

variable [DecidableEq ι] {w w' : World ι} {label : ι × Bool} {calls : ι → Call}

theorem calm_falls [Fintype ι] (hmove : While Calm Moves w label w') :
    potential 4 (fun j => (w'.pcs j).credit) (fun j => (w'.processes j).effort w'.flag) <
      potential 4 (fun j => (w.pcs j).credit) (fun j => (w.processes j).effort w.flag) := by
  obtain ⟨calm, moves⟩ := hmove
  obtain ⟨p, ran, hprocesses⟩ := moves_processes moves
  rw [show label.2 = false from calm] at ran
  apply @potential_falls _ _ _ _ _ _ _ label.1
  · intro j hj
    unfold World.pcs
    rw [hprocesses, Function.update_of_ne hj, woken_pc]
  · exact fun j => effort_le w'.flag (w'.processes j)
  · have hself : w'.processes label.1 = p := by rw [hprocesses, Function.update_self]
    unfold World.pcs
    rw [hself]
    apply (step_spends ran).imp_right
    rintro ⟨hcredit, hflag, hwaking, heffort⟩
    refine ⟨hcredit, hflag ▸ heffort, ?_⟩
    intro j hj
    rw [hprocesses, Function.update_of_ne hj, hflag]
    unfold World.pcs
    rw [hwaking]
    exact Nat.le_refl _

theorem sound_rested (h : Sound calls w) (rest : ∀ label w', ¬ While Calm Moves w label w') :
    Rested calls w := by
  have hlast (i : ι) : (∃ ret, w.pcs i = .returned ret) ∨ (∃ ret, w.pcs i = .written ret) ∨
      (w.processes i).Sleeps := by
    apply @step_rests w.flag
    rw [← Option.not_isSome_iff_eq_none, Option.isSome_iff_exists]
    rintro ⟨⟨flag, p⟩, ran⟩
    exact rest (i, false) _ ⟨rfl, by simp only [Moves, World.step, ran]; rfl⟩
  have hwrites (i : ι) (size : Nat) (hcall : calls i = .sleepyWrite size) :
      w.pcs i = .written (int64 size) := by
    have hreached := h.reached i
    rw [hcall] at hreached
    rcases hlast i with ⟨ret, hret⟩ | ⟨ret, hret⟩ | ⟨hasleep, -⟩
    · rw [hret] at hreached
      exact hreached.elim
    · rw [hret] at hreached ⊢
      rw [show ret = int64 size from hreached]
    · rw [show w.pcs i = .asleep from hasleep] at hreached
      exact hreached.elim
  have hreads (i : ι) (hcall : calls i = .sleepyRead) :
      w.pcs i = .returned 0 ∨ w.pcs i = .asleep ∧ w.flag = 0 := by
    have hreached := h.reached i
    rw [hcall] at hreached
    rcases hlast i with ⟨ret, hret⟩ | ⟨ret, hret⟩ | hsleeps
    · rw [hret] at hreached ⊢
      rw [show ret = 0 from hreached]
      exact .inl rfl
    · rw [hret] at hreached
      exact hreached.elim
    · right
      refine ⟨hsleeps.1, ?_⟩
      by_contra hset
      obtain ⟨j, hj⟩ := h.awaited i hsleeps hset
      rcases hlast j with ⟨ret, hret⟩ | ⟨ret, hret⟩ | ⟨hasleep, -⟩
      · simp [hret, Pc.waking] at hj
      · simp [hret, Pc.waking] at hj
      · rw [show w.pcs j = .asleep from hasleep] at hj
        cases hj
  refine ⟨hwrites, hreads, ?_⟩
  rintro ⟨i, size, hwrite⟩ ⟨j, hread⟩
  rcases hreads j hread with hreturned | ⟨-, hclear⟩
  · exact ⟨j, hreturned⟩
  · have hset : (w.pcs i).HasSet := by simp [hwrites i size hwrite, Pc.HasSet]
    obtain ⟨k, hk⟩ := h.taken hclear ⟨i, hset⟩
    refine ⟨k, ?_⟩
    cases hcall : calls k with
    | sleepyRead =>
      apply (hreads k hcall).resolve_right
      rintro ⟨hasleep, -⟩
      simp [hasleep, Pc.Through] at hk
    | sleepyWrite n => simp [hwrites k n hcall, Pc.Through] at hk

/-- After any run, signals included, a read that sleeps although the flag is set has a
wake-up coming; and from there on, without signals, the calls take so many steps at most,
and come to rest. -/
theorem sleepy_settles [Fintype ι] (calls : ι → Call) {labels : List (ι × Bool)}
    (run : Run Moves (.init calls) labels w) :
    (∀ i, (w.processes i).Sleeps → w.flag ≠ 0 → ∃ j size, w.pcs j = .wake size) ∧
      (∀ labels' w', Run (While Calm Moves) w labels' w' →
        labels'.length ≤ Fintype.card ι * (8 * Fintype.card ι + 6) ∧
          ((∀ label w'', ¬ While Calm Moves w' label w'') → Rested calls w')) ∧
      ∃ labels' w', Run (While Calm Moves) w labels' w' ∧ Rested calls w' := by
  have hsound : Sound calls w :=
    run.invariant (fun _ => Sound calls) (sound_init calls) fun _ _ _ _ _ => sound_moves
  constructor
  · intro i hsleeps hset
    obtain ⟨j, hj⟩ := hsound.awaited i hsleeps hset
    exact ⟨j, waking_wakes hj⟩
  · apply Run.settles hsound fun _ _ _ h hmove => sound_moves h hmove.2
    · exact fun _ _ _ _ => calm_falls
    · exact fun w => sound_rested
    · have hmost := @potential_le ι _ 4 (fun j => (w.pcs j).credit)
        (fun j => (w.processes j).effort w.flag) 2
        (fun j => credit_le (w.pcs j)) fun j => effort_le w.flag (w.processes j)
      have heq : (Fintype.card ι * 4 + 1) * 2 + 4 = 8 * Fintype.card ι + 6 := by omega
      rw [heq] at hmost
      exact hmost

end Rest

theorem sleepy_settles_set : ∃ w,
    Run Moves (.init (oneWrite 1)) (turns [1, 1, 1, 0]) w ∧ w.flag = 1 ∧ w.pcs 1 = .asleep ∧
      ∃ labels' w', Run (While Calm Moves) w labels' w' ∧ Rested (oneWrite 1) w' := by
  have hpossible : (((turns [1, 1, 1, 0]).foldlM World.step (World.init (oneWrite 1))).any
      fun w => w.flag = 1 ∧ w.pcs 1 = .asleep) = true := by
    decide +kernel
  obtain ⟨w, hw, hrun⟩ := Run.of_any hpossible
  have hplace := of_decide_eq_true hw
  exact ⟨w, hrun, hplace.1, hplace.2, (sleepy_settles _ hrun).2.2⟩

end MyDrivers.Misc.Sleepy
