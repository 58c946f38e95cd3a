import MyDrivers.Lib.Clock
import MyDrivers.Misc.Jit

/-! The files of `misc_modules/jit.c`: which function reads which of them, and how long
`jit_delay` waits. `jiffies` is a clock that may start over at any time. -/
namespace MyDrivers.Misc
open Lib Lib.Format Lib.Machine

inductive JitFiles where
  | jitCurrent
  | jitBusy
  | jitSched
  | jitQueue
  | jitSchedto
  | jitTimer
  | jitTasklet
  | jitTaskletHi
  deriving DecidableEq

def JitFiles.value : JitFiles → Nat
  | .jitCurrent => 0
  | .jitBusy => 1
  | .jitSched => 2
  | .jitQueue => 3
  | .jitSchedto => 4
  | .jitTimer => 5
  | .jitTasklet => 6
  | .jitTaskletHi => 7

/-- What a read sees: the readings of `jiffies`, what `schedule_timeout` returns that is
called with a timeout at a reading, the rest of its clock, whether a signal is pending when
it looks, and the callbacks. -/
structure JitEnv where
  jiffies : Nat → BitVec 64
  scheduleTimeout : BitVec 64 → Nat → BitVec 64
  jiffies64 : UInt64
  sec : Int32
  nsec : Int32
  signal : Nat → Bool
  first : Seen
  seen : Nat → Seen

def JitEnv.clock (env : JitEnv) (k : Nat) : UInt64 := UInt64.ofBitVec (env.jiffies k)

/-- The `switch` of `jit_delay`: the index of the next reading. `cpu_relax` and `schedule`
take time and nothing else; a wait on a queue that nobody wakes is a sleep that a signal
ends, and `jit_schedto` goes on in spite of one. -/
def jitDelayWait (hz : Nat) (env : JitEnv) (fuel : Nat) : JitFiles → Option Nat
  | .jitBusy => Clock.spin env.jiffies (env.jiffies 0 + BitVec.ofNat 64 hz) 1 fuel
  | .jitSched => Clock.spin env.jiffies (env.jiffies 0 + BitVec.ofNat 64 hz) 1 fuel
  | .jitQueue => Clock.sleep env.scheduleTimeout env.signal (BitVec.ofNat 64 hz) 1 fuel
  | .jitSchedto => Clock.sleep env.scheduleTimeout (fun _ => false) (BitVec.ofNat 64 hz) 1 fuel
  | _ => some 1

def jitDelayRead (hz : Nat) (env : JitEnv) (fuel : Nat) (data : JitFiles) (request : Request) :
    Option Outcome :=
  if ¬ request.kmalloc then some (request.nothing 0)
  else if uint64 request.ppos ≥ request.count then some (request.nothing 24)
  else
    (jitDelayWait hz env fuel data).map fun k => jitDelay (env.clock 0) (env.clock k) request

inductive JitFn where
  | jitCurrent
  | jitDelay
  | jitTimer
  | jitTasklet
  deriving DecidableEq

def jd : List (JitFiles × JitFn) :=
  [(.jitCurrent, .jitCurrent), (.jitBusy, .jitDelay), (.jitQueue, .jitDelay),
    (.jitSched, .jitDelay), (.jitSchedto, .jitDelay), (.jitTimer, .jitTimer),
    (.jitTasklet, .jitTasklet), (.jitTaskletHi, .jitTasklet)]

def JitFn.run (hz : Nat) (env : JitEnv) (fuel : Nat) (data : JitFiles) (request : Request) :
    JitFn → Option Outcome
  | .jitCurrent => some (Misc.jitCurrent (env.clock 0) env.jiffies64 env.sec env.nsec request)
  | .jitDelay => jitDelayRead hz env fuel data request
  | .jitTimer => Misc.jitTimer (env.clock 0) env.seen request
  | .jitTasklet => Misc.jitTasklet env.first env.seen request

/-- `proc_read`: a number that is not in the table is read like `jitcurrent`. -/
def procRead (hz : Nat) (env : JitEnv) (fuel : Nat) (data : Nat) (request : Request) :
    Option Outcome :=
  match jd.find? fun entry => entry.1.value = data with
  | some (file, fn) => fn.run hz env fuel file request
  | none => JitFn.jitCurrent.run hz env fuel .jitCurrent request

def JitFiles.fn : JitFiles → JitFn
  | .jitCurrent => .jitCurrent
  | .jitTimer => .jitTimer
  | .jitTasklet => .jitTasklet
  | .jitTaskletHi => .jitTasklet
  | _ => .jitDelay

theorem procRead_file (hz : Nat) (env : JitEnv) (fuel : Nat) (file : JitFiles) (request : Request) :
    procRead hz env fuel file.value request = file.fn.run hz env fuel file request := by
  have hfound : jd.find? (fun entry => entry.1.value = file.value) = some (file, file.fn) := by
    cases file <;> rfl
  rw [procRead, hfound]

/-- The true time of the readings; and `schedule_timeout` returns what is left of its
timeout when it is back at the next of them, as documented. -/
structure JitEnv.Timed (env : JitEnv) (ticks : Nat → Nat) : Prop where
  watched : Clock.Watched 64 ticks
  shown : ∀ k, env.jiffies k = Clock.shown 64 (ticks k)
  rests : ∀ timeout k, env.scheduleTimeout timeout k =
    Clock.left timeout (env.jiffies k) (env.jiffies (k + 1))

section Waits
variable {hz : Nat} {env : JitEnv} {ticks : Nat → Nat} {n : Nat}

theorem JitEnv.Timed.printed (timed : env.Timed ticks) {k : Nat}
    (near : ticks k < ticks 0 + 2 ^ 64) :
    (env.clock k - env.clock 0).toNat = ticks k - ticks 0 := by
  have hle := timed.watched.mono (Nat.zero_le k)
  have hsub : (env.clock k - env.clock 0).toNat = (env.jiffies k - env.jiffies 0).toNat := rfl
  rw [hsub, timed.shown, timed.shown]
  exact Clock.toNat_sub_shown hle (by omega)

theorem JitEnv.Timed.spins (timed : env.Timed ticks) (pos : 0 < hz) (short : hz < 2 ^ 63)
    (late : hz ≤ Clock.slept ticks 1 n) :
    ∃ k, Clock.spin env.jiffies (env.jiffies 0 + BitVec.ofNat 64 hz) 1 (2 * n + 2) = some k ∧
      ticks 0 + hz ≤ ticks k := by
  have hfirst : ticks 0 ≤ ticks 1 := timed.watched.mono (Nat.zero_le 1)
  have hslept := Clock.slept_le timed.watched.mono 1 n
  have hclock : env.jiffies = fun k => Clock.shown 64 (ticks k) := funext timed.shown
  have hdeadline : env.jiffies 0 + BitVec.ofNat 64 hz = Clock.shown 64 (ticks 0 + hz) := by
    rw [timed.shown]
    exact (BitVec.ofNat_add _ _).symm
  -- two readings for each sleep
  obtain ⟨k, hk, hends, -⟩ := @Clock.spin_ends 64 _ ticks (ticks 0 + hz) (1 + 2 * n) (2 * n + 2)
    timed.watched (by omega) (by omega) (by omega) (by omega)
  rw [hdeadline, hclock]
  exact ⟨k + 1, hk, hends.trans (timed.watched.mono (Nat.le_succ k))⟩

theorem JitEnv.Timed.sleeps (timed : env.Timed ticks) (short : hz < 2 ^ 63)
    (late : hz ≤ Clock.slept ticks 1 n) (signal : Nat → Bool) :
    ∃ k, Clock.sleep env.scheduleTimeout signal (BitVec.ofNat 64 hz) 1 (2 * n + 2) = some k ∧
      (ticks 0 + hz ≤ ticks k ∨ signal k = true) := by
  have hfirst : ticks 0 ≤ ticks 1 := timed.watched.mono (Nat.zero_le 1)
  have hrests (timeout : BitVec 64) (k : Nat) : env.scheduleTimeout timeout k =
      Clock.left timeout (Clock.shown 64 (ticks k)) (Clock.shown 64 (ticks (k + 1))) := by
    rw [timed.rests, timed.shown, timed.shown]
  obtain ⟨m, hm, hends⟩ := @Clock.sleep_ends 64 _ ticks timed.watched _ hrests signal hz 1 n
    (2 * n + 2) short late (by omega)
  refine ⟨1 + 2 * m, hm, hends.imp_left fun henough => ?_⟩
  have hle := Clock.slept_le timed.watched.mono 1 m
  omega

/-- Whatever `jiffies` shows, a read of one of the four files waits for `HZ` ticks at
least, unless a signal ends the wait on the queue, and the numbers that it prints differ
by the time it took. -/
theorem procRead_waits (timed : env.Timed ticks) (pos : 0 < hz) (short : hz < 2 ^ 63)
    (late : hz ≤ Clock.slept ticks 1 n) (file : JitFiles) (delays : file.fn = .jitDelay)
    (request : Request) (kmalloc : request.kmalloc) (asked : uint64 request.ppos < request.count) :
    ∃ k, procRead hz env (2 * n + 2) file.value request =
        some (jitDelay (env.clock 0) (env.clock k) request) ∧
      (ticks 0 + hz ≤ ticks k ∨ file = .jitQueue ∧ env.signal k = true) ∧
      (ticks k < ticks 0 + 2 ^ 64 →
        (env.clock k - env.clock 0).toNat = ticks k - ticks 0) := by
  have hread : procRead hz env (2 * n + 2) file.value request =
      (jitDelayWait hz env (2 * n + 2) file).map fun k =>
        jitDelay (env.clock 0) (env.clock k) request := by
    rw [procRead_file, delays, JitFn.run, jitDelayRead, if_neg (not_not_intro kmalloc),
      if_neg (not_le.mpr asked)]
  rw [hread]
  cases file with
  | jitBusy =>
    obtain ⟨k, hk, hends⟩ := timed.spins pos short late
    exact ⟨k, congrArg (Option.map _) hk, .inl hends, timed.printed⟩
  | jitSched =>
    obtain ⟨k, hk, hends⟩ := timed.spins pos short late
    exact ⟨k, congrArg (Option.map _) hk, .inl hends, timed.printed⟩
  | jitQueue =>
    obtain ⟨k, hk, hends⟩ := timed.sleeps short late env.signal
    exact ⟨k, congrArg (Option.map _) hk, hends.imp_right fun hsignal => ⟨rfl, hsignal⟩,
      timed.printed⟩
  | jitSchedto =>
    obtain ⟨k, hk, hends⟩ := timed.sleeps short late fun _ => false
    exact ⟨k, congrArg (Option.map _) hk, .inl (hends.resolve_right Bool.false_ne_true),
      timed.printed⟩
  | _ => cases delays

end Waits

/-- The clock starts over in the middle of a wait. -/
def turning (k : Nat) : Nat := 18446744073709551566 + 10 * k

def cat : Seen := ⟨0, false, 7, 0, ⟨"cat".toList, by decide, by simp [Unended]⟩⟩

def turningEnv : JitEnv where
  jiffies k := Clock.shown 64 (turning k)
  scheduleTimeout timeout k :=
    Clock.left timeout (Clock.shown 64 (turning k)) (Clock.shown 64 (turning (k + 1)))
  jiffies64 := 0
  sec := 0
  nsec := 0
  signal _ := false
  first := cat
  seen _ := cat

theorem turning_timed : turningEnv.Timed turning := by
  refine ⟨⟨?_, ?_⟩, fun k => rfl, fun _ _ => rfl⟩
  · intro j k h
    unfold turning
    omega
  · intro k
    unfold turning
    omega

theorem procRead_turning : ∃ k, procRead 100 turningEnv 22 4 ⟨true, 4096, 0, 4096, []⟩ =
    some (jitDelay (turningEnv.clock 0) (turningEnv.clock k) ⟨true, 4096, 0, 4096, []⟩) ∧
      turning 0 + 100 ≤ turning k := by
  obtain ⟨k, hread, hwaits, -⟩ := @procRead_waits 100 turningEnv turning 10 turning_timed (by decide)
    (by decide) (by decide) .jitSchedto rfl ⟨true, 4096, 0, 4096, []⟩ rfl (by decide +kernel)
  exact ⟨k, hread, hwaits.resolve_right fun h => by cases h.1⟩

end MyDrivers.Misc
