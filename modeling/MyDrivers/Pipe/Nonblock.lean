import MyDrivers.Pipe.Wakeups

/-! Reads and writes of files that may not block. A call that finds the pipe empty
or full releases the semaphore and then looks at the flags of its file, a write at
the bit `O_NONBLOCK` and a read at all of them. -/
namespace MyDrivers.Pipe
open Lib Lib.Machine
open Store (Byte EAGAIN EFAULT ERESTARTSYS O_NONBLOCK MAX_RW_COUNT)

variable {size : Nat} {ι : Type}

/-- `filp->f_flags` of a read or a write. -/
def Call.fFlags : Call → Option Nat
  | .scullPRead fFlags _ => some fFlags
  | .scullPWrite fFlags _ => some fFlags
  | _ => none

/-- A read or write of a file with the bit `O_NONBLOCK`. -/
def Call.Nonblocking (call : Call) : Prop := ∃ f, call.fFlags = some f ∧ f &&& O_NONBLOCK ≠ 0

def Call.Blocked (dev : ScullPipe) (call : Call) : Prop :=
  ∃ queue, call.waitsOn = some queue ∧ ¬ queue.ready dev

def Pc.waits : Pc → Bool
  | .test => true
  | .prepareToWait => true
  | .evaluate => true
  | .asleep => true
  | .finishWait => true
  | _ => false

structure Process.Prompt (pipe : Backed) (sem : Nat) (p : Process) (pipe' : Backed) (sem' : Nat)
    (p' : Process) : Prop where
  /-- With the semaphore, it goes for the flags exactly when it is blocked. -/
  found : p.pc = .locked →
    (p'.pc = .up .flags ↔ p.call.Blocked pipe.dev) ∧ (p.call.Blocked pipe.dev → pipe' = pipe)
  released : ∀ after, p.pc = .up after → p'.pc = after.pc ∧ sem' = sem + 1 ∧ pipe' = pipe
  refused : p.pc = .flags → p.call.Nonblocking →
    p'.pc = .returned (-EAGAIN) ∧ sem' = sem ∧ pipe' = pipe
  again : p'.pc = .returned (-EAGAIN) → p.pc = .flags ∧ p.call.Nonblocking
  awake : p.call.Nonblocking → p'.pc.waits = false

def Prompt (w : World ι) (label : ι × Action size) (w' : World ι) : Prop :=
  match label.2 with
  | .start _ => True
  | .go _ =>
      (w.processes label.1).call.transfers = true →
        (w.processes label.1).Prompt w.pipe w.sem w'.pipe w'.sem (w'.processes label.1)

/-- A read whose file has the bit `O_NONBLOCK` has no other flag. -/
def Call.FlagAlone : Call → Prop
  | .scullPRead fFlags _ => fFlags &&& O_NONBLOCK ≠ 0 → fFlags = O_NONBLOCK
  | _ => True

/-- The same of a read that found the pipe empty and comes to its flags. -/
def FlagAlone (w : World ι) (label : ι × Action size) : Prop :=
  match label.2 with
  | .start _ => True
  | .go _ => (w.processes label.1).pc = .flags → (w.processes label.1).call.FlagAlone

/-- The counts are those of the VFS. -/
def Call.Capped : Call → Prop
  | .scullPRead _ count => count ≤ MAX_RW_COUNT
  | .scullPWrite _ buff => buff.length ≤ MAX_RW_COUNT
  | _ => True

def Capped (_ : World ι) (label : ι × Action size) : Prop :=
  match label.2 with
  | .start call => call.Capped
  | .go _ => True

def Pc.result : Pc → Option Int
  | .up (.wake ret) => some ret
  | .up (.return ret) => some ret
  | .wake ret => some ret
  | .pollUp mask => some mask
  | _ => none

structure Process.Civil (p : Process) : Prop where
  awake : p.call.Nonblocking → p.pc.waits = false
  capped : (∀ ret, p.pc ≠ .returned ret) → p.call.Capped
  result : p.call.transfers = true → p.pc.result ≠ some (-EAGAIN)

section Steps
variable {p p' : Process} {choice : Choice size} {pipe pipe' : Backed} {sem sem' : Nat}

theorem int64_ne_again {n : Nat} (h : n ≤ MAX_RW_COUNT) : int64 n ≠ -EAGAIN := by
  have hle : n ≤ 2147479552 := h
  rw [int64_eq_self (by omega) (by omega)]
  simp only [EAGAIN]
  omega

@[simp] theorem result_copied (short : Bool) (reply : Reply) :
    (Pc.up (.copied short reply)).result = some (reply.ret.getD 0) := by
  cases short <;> rfl

theorem read_ret (count accessible : Nat) (pipe : Backed) :
    (scullPReadLocked count accessible pipe).1.ret = some (-EFAULT) ∨
      (scullPReadLocked count accessible pipe).1.ret = some (int64 (readCount pipe.dev count)) := by
  unfold scullPReadLocked
  dsimp only
  split
  · exact .inl rfl
  · exact .inr rfl

theorem write_ret (buff : List Byte) (accessible : Nat) (pipe : Backed) :
    (scullPWriteLocked buff accessible pipe).1.ret = some (-EFAULT) ∨
      (scullPWriteLocked buff accessible pipe).1.ret =
        some (int64 (writeCount pipe.dev buff.length)) := by
  unfold scullPWriteLocked
  dsimp only
  split
  · exact .inl rfl
  · exact .inr rfl

theorem ret_ne_again {ret : Option Int} {n : Nat} (hcapped : n ≤ MAX_RW_COUNT)
    (h : ret = some (-EFAULT) ∨ ret = some (int64 n)) : some (ret.getD 0) ≠ some (-EAGAIN) := by
  have hfault : -EFAULT ≠ -EAGAIN := by decide
  have hcount := int64_ne_again hcapped
  rcases h with rfl | rfl <;> rw [Option.getD_some]
  · exact fun heq => hfault (Option.some.inj heq)
  · exact fun heq => hcount (Option.some.inj heq)

theorem locked_result {call : Call} {after : After} (htransfers : call.transfers = true)
    (hcapped : call.Capped) (ran : call.locked choice pipe = some (after, pipe')) :
    (Pc.up after).result ≠ some (-EAGAIN) := by
  cases call with
  | scullPRead fFlags count =>
    simp only [Call.locked] at ran
    split at ran
    · cases ran
      intro heq
      cases heq
    · cases ran
      rw [result_copied]
      exact ret_ne_again ((readCount_le pipe.dev count).trans hcapped) (read_ret _ _ _)
  | scullPWrite fFlags buff =>
    simp only [Call.locked] at ran
    split at ran
    · cases ran
      intro heq
      cases heq
    · cases ran
      rw [result_copied]
      exact ret_ne_again ((writeCount_le pipe.dev buff.length).trans hcapped) (write_ret _ _ _)
  | scullPOpen mode => cases htransfers
  | scullPRelease mode => cases htransfers
  | scullPPoll => cases htransfers

theorem locked_blocked {call : Call} {after : After} (htransfers : call.transfers = true)
    (ran : call.locked choice pipe = some (after, pipe')) :
    (after = .flags ↔ call.Blocked pipe.dev) ∧ (call.Blocked pipe.dev → pipe' = pipe) := by
  cases call with
  | scullPRead fFlags count =>
    simp only [Call.locked] at ran
    split at ran
    · next hempty =>
      cases ran
      simp [Call.Blocked, Call.waitsOn, WaitQueue.ready, hempty]
    · next hdata =>
      cases ran
      simp [Call.Blocked, Call.waitsOn, WaitQueue.ready, hdata, copied_ne_flags]
  | scullPWrite fFlags buff =>
    simp only [Call.locked] at ran
    split at ran
    · next hfull =>
      cases ran
      simp [Call.Blocked, Call.waitsOn, WaitQueue.ready, hfull]
    · next hspace =>
      cases ran
      simp [Call.Blocked, Call.waitsOn, WaitQueue.ready, hspace, copied_ne_flags]
  | scullPOpen mode => cases htransfers
  | scullPRelease mode => cases htransfers
  | scullPPoll => cases htransfers

theorem flags_refuses {call : Call} {next : Pc} (ran : call.flags = some next) :
    (next = .returned (-EAGAIN) → call.Nonblocking) ∧
      ((call.Nonblocking → next = .returned (-EAGAIN)) ↔ call.FlagAlone) := by
  have halone : O_NONBLOCK ≠ 0 := by decide
  cases call with
  | scullPRead fFlags count =>
    cases ran
    by_cases hflags : fFlags = O_NONBLOCK
    · simp [Call.Nonblocking, Call.fFlags, Call.FlagAlone, hflags, halone]
    · simp [Call.Nonblocking, Call.fFlags, Call.FlagAlone, hflags]
  | scullPWrite fFlags buff =>
    cases ran
    by_cases hflags : fFlags &&& O_NONBLOCK = 0
    · simp [Call.Nonblocking, Call.fFlags, Call.FlagAlone, hflags]
    · simp [Call.Nonblocking, Call.fFlags, Call.FlagAlone, hflags]
  | scullPOpen mode => cases ran
  | scullPRelease mode => cases ran
  | scullPPoll => cases ran

theorem flagAlone_other {call : Call} (h : call.transfers = false) : call.FlagAlone := by
  cases call with
  | scullPRead fFlags count => cases h
  | _ => trivial

theorem nonblocking_transfers {call : Call} (h : call.Nonblocking) : call.transfers = true := by
  obtain ⟨f, hf, -⟩ := h
  cases call with
  | scullPRead fFlags count => rfl
  | scullPWrite fFlags buff => rfl
  | scullPOpen mode => cases hf
  | scullPRelease mode => cases hf
  | scullPPoll => cases hf

theorem prompt_elsewhere (hlocked : p.pc ≠ .locked) (hup : ∀ after, p.pc ≠ .up after)
    (hflags : p.pc ≠ .flags) (again : p'.pc ≠ .returned (-EAGAIN))
    (awake : p.call.Nonblocking → p'.pc.waits = false) : p.Prompt pipe sem pipe' sem' p' where
  found h := absurd h hlocked
  released after h := absurd h (hup after)
  refused h := absurd h hflags
  again h := absurd h again
  awake := awake

theorem civil_on (h : p.Civil) (busy : ∀ ret, p.pc ≠ .returned ret) (call : p'.call = p.call)
    (waits : p'.pc.waits = true → p.pc.waits = true)
    (result : p.call.transfers = true → p'.pc.result ≠ some (-EAGAIN)) : p'.Civil := by
  constructor
  · intro hnonblocking
    rw [call] at hnonblocking
    have hawake := h.awake hnonblocking
    cases hwaits : p'.pc.waits with
    | false => rfl
    | true => exact absurd (waits hwaits) (by simp [hawake])
  · intro _
    rw [call]
    exact h.capped busy
  · rw [call]
    exact result

theorem start_civil {call : Call} (h : call.Capped) : (Process.start call).Civil :=
  ⟨fun _ => rfl, fun _ => h, fun _ => nofun⟩

theorem woken_civil (queue : Option WaitQueue) (h : p.Civil) : (p.woken queue).Civil := by
  obtain ⟨awake, capped, result⟩ := h
  constructor
  · simpa using awake
  · simpa using capped
  · simpa using result

theorem prompt_waiting (h : p.Civil) (hwaits : p.pc.waits = true)
    (again : p'.pc ≠ .returned (-EAGAIN)) : p.Prompt pipe sem pipe' sem' p' := by
  have hblocking : ¬ p.call.Nonblocking := by
    intro hnonblocking
    rw [h.awake hnonblocking] at hwaits
    cases hwaits
  apply prompt_elsewhere _ _ _ again fun hnonblocking => absurd hnonblocking hblocking
  · intro hpc
    rw [hpc] at hwaits
    cases hwaits
  · intro after hpc
    rw [hpc] at hwaits
    cases hwaits
  · intro hpc
    rw [hpc] at hwaits
    cases hwaits

theorem evaluated_pc {dev : ScullPipe} {signal : Bool} (ran : p.evaluate signal dev = some p') :
    p'.call = p.call ∧ p'.pc ≠ .returned (-EAGAIN) ∧ p'.pc.result = none := by
  have hsignal : -ERESTARTSYS ≠ -EAGAIN := by decide
  unfold Process.evaluate at ran
  split at ran
  · split at ran
    · cases ran
      simp [Pc.result]
    · split at ran
      · cases ran
        exact ⟨rfl, fun heq => hsignal (Pc.returned.inj heq), rfl⟩
      · cases ran
        simp [Pc.result]
  · split at ran <;> cases ran <;> simp [Pc.result]
  · cases ran

theorem interrupted_pc {call : Call} (htransfers : call.transfers = true) :
    call.interrupted = .returned (-ERESTARTSYS) := by
  cases call with
  | scullPRead fFlags count => rfl
  | scullPWrite fFlags buff => rfl
  | scullPOpen mode => cases htransfers
  | scullPRelease mode => cases htransfers
  | scullPPoll => cases htransfers

theorem taken_pc {call : Call} (htransfers : call.transfers = true) : call.taken = .locked := by
  cases call with
  | scullPPoll => cases htransfers
  | _ => rfl

theorem returned_ne {ret other : Int} (h : some ret ≠ some other) :
    Pc.returned ret ≠ .returned other := by
  intro heq
  cases heq
  exact h rfl

theorem went_waiting (h : p.Civil) (hwaits : p.pc.waits = true) (call : p'.call = p.call)
    (again : p'.pc ≠ .returned (-EAGAIN)) (result : p'.pc.result = none) :
    p.Prompt pipe sem pipe' sem' p' ∧ p'.Civil := by
  refine ⟨prompt_waiting h hwaits again, civil_on h ?_ call (fun _ => hwaits) ?_⟩
  · intro ret hpc
    rw [hpc] at hwaits
    cases hwaits
  · rw [result]
    exact fun _ => nofun

theorem went_elsewhere (h : p.Civil)
    (place : p.pc ≠ .locked ∧ (∀ after, p.pc ≠ .up after) ∧ ∀ ret, p.pc ≠ .returned ret)
    (hflags : p.pc ≠ .flags) (call : p'.call = p.call) (again : p'.pc ≠ .returned (-EAGAIN))
    (waits : p'.pc.waits = false) (result : p'.pc.result ≠ some (-EAGAIN)) :
    p.Prompt pipe sem pipe' sem' p' ∧ p'.Civil := by
  obtain ⟨hlocked, hup, busy⟩ := place
  constructor
  · exact prompt_elsewhere hlocked hup hflags again fun _ => waits
  · apply civil_on h busy call _ fun _ => result
    rw [waits]
    exact nofun

theorem went_up {after : After} (h : p.Civil) (pc : p.pc = .up after) (call : p'.call = p.call)
    (next : p'.pc = after.pc) (again : after.pc ≠ .returned (-EAGAIN))
    (waits : after.pc.waits = false) (result : after.pc.result ≠ some (-EAGAIN)) :
    p.Prompt pipe sem pipe (sem + 1) p' ∧ p'.Civil := by
  rw [← next] at again waits result
  constructor
  · refine ⟨by simp [pc], fun after' hpc => ?_, by simp [pc], fun heq => absurd heq again,
      fun _ => waits⟩
    rw [pc] at hpc
    cases hpc
    exact ⟨next, rfl, rfl⟩
  · apply civil_on h (by simp [pc]) call _ fun _ => result
    rw [waits]
    exact nofun

theorem went_prompt (h : p.Civil) (htransfers : p.call.transfers = true)
    (step : p.Went choice pipe sem pipe' sem' p') (hflags : p.pc ≠ .flags) :
    p.Prompt pipe sem pipe' sem' p' ∧ p'.Civil := by
  have hsignal : Pc.returned (-ERESTARTSYS) ≠ .returned (-EAGAIN) := by decide
  cases step with
  | interrupted pc signal =>
    rw [interrupted_pc htransfers]
    exact went_elsewhere h (by simp [pc]) hflags rfl hsignal rfl nofun
  | taken pc calm free =>
    rw [taken_pc htransfers]
    exact went_elsewhere h (by simp [pc]) hflags rfl nofun rfl nofun
  | locked pc after pipe' ran =>
    obtain ⟨hfound, hsame⟩ := locked_blocked htransfers ran
    have hcapped := h.capped (by simp [pc])
    constructor
    · refine ⟨fun _ => ⟨?_, hsame⟩, ?_, fun hpc => absurd hpc hflags, nofun, fun _ => rfl⟩
      · simpa using hfound
      · simp [pc]
    · exact civil_on h (by simp [pc]) rfl nofun fun _ => locked_result htransfers hcapped ran
  | up after pc =>
    have hresult := h.result htransfers
    rw [pc] at hresult
    cases after with
    | flags => exact went_up h pc rfl rfl nofun rfl nofun
    | wake ret => exact went_up h pc rfl rfl nofun rfl hresult
    | «return» ret => exact went_up h pc rfl rfl (returned_ne hresult) rfl nofun
  | flags pc next ran => exact absurd pc hflags
  | test pc =>
    apply went_waiting h (by rw [pc]; rfl)
    · rfl
    · dsimp only
      split <;> exact nofun
    · dsimp only
      split <;> rfl
  | prepareToWait pc => exact went_waiting h (by rw [pc]; rfl) rfl nofun rfl
  | evaluate pc p' ran =>
    obtain ⟨hcall, hagain, hresult⟩ := evaluated_pc ran
    exact went_waiting h (by rw [pc]; rfl) hcall hagain hresult
  | asleep pc next roused ran =>
    rcases rouse_cases ran with rfl | rfl
    · exact went_waiting h (by rw [pc]; rfl) rfl nofun rfl
    · exact went_waiting h (by rw [pc]; rfl) rfl nofun rfl
  | finishWait pc =>
    apply went_waiting h (by rw [pc]; rfl)
    · rfl
    · dsimp only
      split
      · exact hsignal
      · exact nofun
    · dsimp only
      split <;> rfl
  | wake ret pc =>
    have hresult := h.result htransfers
    rw [pc] at hresult
    exact went_elsewhere h (by simp [pc]) hflags rfl (returned_ne hresult) rfl nofun
  | pollWait pc =>
    have hmask : ((pollMask pipe.dev : Nat) : Int) ≠ -EAGAIN := by
      simp only [EAGAIN]
      omega
    exact went_elsewhere h (by simp [pc]) hflags rfl nofun rfl fun heq =>
      hmask (Option.some.inj heq)
  | pollUp mask pc =>
    have hresult := h.result htransfers
    rw [pc] at hresult
    exact went_elsewhere h (by simp [pc]) hflags rfl (returned_ne hresult) rfl nofun

theorem flags_prompt {next : Pc} (pc : p.pc = .flags) (ran : p.call.flags = some next) :
    p.Prompt pipe sem pipe sem { p with pc := next } ↔ p.call.FlagAlone := by
  obtain ⟨hagain, hrefuses⟩ := flags_refuses ran
  rw [← hrefuses]
  constructor
  · intro h hnonblocking
    exact (h.refused pc hnonblocking).1
  · intro h
    refine ⟨by simp [pc], by simp [pc], fun _ hnonblocking => ⟨h hnonblocking, rfl, rfl⟩,
      fun heq => ⟨pc, hagain heq⟩, fun hnonblocking => ?_⟩
    rw [h hnonblocking]
    rfl

theorem flags_civil {next : Pc} (h : p.Civil) (pc : p.pc = .flags)
    (ran : p.call.flags = some next)
    (hprompt : p.Prompt pipe sem pipe sem { p with pc := next }) :
    ({ p with pc := next } : Process).Civil := by
  refine ⟨hprompt.awake, fun _ => h.capped (by simp [pc]), fun _ => ?_⟩
  rcases flags_cases ran with ⟨ret, rfl⟩ | rfl | rfl <;> exact nofun

theorem civil_other (h : p.call.transfers = false) : p.Civil := by
  refine ⟨fun hnonblocking => ?_, fun _ => ?_, fun htransfers => ?_⟩
  · rw [nonblocking_transfers hnonblocking] at h
    cases h
  · cases hcall : p.call with
    | scullPRead fFlags count =>
      rw [hcall] at h
      cases h
    | scullPWrite fFlags buff =>
      rw [hcall] at h
      cases h
    | _ => trivial
  · rw [h] at htransfers
    cases htransfers

theorem went_call (step : p.Went choice pipe sem pipe' sem' p') : p'.call = p.call := by
  cases step with
  | evaluate pc p' ran => exact (evaluated_pc ran).1
  | _ => rfl

theorem went_flags (hpc : p.pc = .flags) (step : p.Went choice pipe sem pipe' sem' p') :
    ∃ next, p.call.flags = some next ∧ pipe' = pipe ∧ sem' = sem ∧ p' = { p with pc := next } := by
  cases step with
  | flags pc next ran => exact ⟨next, ran, rfl, rfl, rfl⟩
  | interrupted pc | taken pc | locked pc | up after pc | test pc | prepareToWait pc | evaluate pc
  | asleep pc | finishWait pc | wake ret pc | pollWait pc | pollUp mask pc =>
    rw [hpc] at pc
    cases pc

theorem went_prompt_iff (h : p.Civil) (htransfers : p.call.transfers = true)
    (step : p.Went choice pipe sem pipe' sem' p') :
    p.Prompt pipe sem pipe' sem' p' ↔ (p.pc = .flags → p.call.FlagAlone) := by
  by_cases hflags : p.pc = .flags
  · obtain ⟨next, ran, rfl, rfl, rfl⟩ := went_flags hflags step
    rw [flags_prompt hflags ran]
    exact ⟨fun h _ => h, fun h => h hflags⟩
  · exact iff_of_true (went_prompt h htransfers step hflags).1 fun hpc => absurd hpc hflags

theorem went_civil (h : p.Civil) (step : p.Went choice pipe sem pipe' sem' p')
    (hprompt : p.call.transfers = true → p.Prompt pipe sem pipe' sem' p') : p'.Civil := by
  cases htransfers : p.call.transfers with
  | false =>
    apply civil_other
    rw [went_call step]
    exact htransfers
  | true =>
    by_cases hflags : p.pc = .flags
    · obtain ⟨next, ran, rfl, rfl, rfl⟩ := went_flags hflags step
      exact flags_civil h hflags ran (hprompt htransfers)
    · exact (went_prompt h htransfers step hflags).2

end Steps

/-! ## Runs -/

def World.Civil (w : World ι) : Prop := ∀ i, (w.processes i).Civil

theorem idle_civil {w : World ι} (h : w.Idle) : w.Civil := by
  intro i
  obtain ⟨ret, hret⟩ := h i
  refine ⟨fun _ => ?_, fun hbusy => absurd hret (hbusy ret), fun _ => ?_⟩
  · rw [hret]
    rfl
  · rw [hret]
    exact nofun

section Runs
variable [DecidableEq ι] {w w' : World ι} {label : ι × Action size}

theorem moves_prompt_iff (h : w.Civil) (hmove : Moves w label w') :
    Prompt w label w' ↔ FlagAlone w label := by
  cases moves_cases hmove with
  | started i call ret idle => exact Iff.rfl
  | went i choice pipe' sem' p' step =>
    simp only [Prompt, FlagAlone, Function.update_self]
    cases htransfers : (w.processes i).call.transfers with
    | true => simpa using went_prompt_iff (h i) htransfers step
    | false =>
      simp only [Bool.false_eq_true, false_implies, true_iff]
      exact fun _ => flagAlone_other htransfers

theorem moves_civil (h : w.Civil) (hmove : Moves w label w') (hcapped : Capped w label)
    (hprompt : Prompt w label w') : w'.Civil := by
  intro i
  cases moves_cases hmove with
  | started j call ret idle =>
    by_cases hi : i = j
    · subst hi
      simpa using start_civil hcapped
    · simpa [Function.update_of_ne hi] using h i
  | went j choice pipe' sem' p' step =>
    by_cases hi : i = j
    · subst hi
      simp only [Prompt, Function.update_self] at hprompt
      simpa using went_civil (h i) step hprompt
    · simpa [Function.update_of_ne hi] using woken_civil _ (h i)

/-- Files with the bit `O_NONBLOCK` never make a call sleep, and `-EAGAIN` is for them
and for blocked calls only, in exactly the runs in which no read that found the pipe
empty has another flag besides the bit. -/
theorem nonblocking_iff {labels : List (ι × Action size)} (idle : w.Idle)
    (run : Run (While Capped Moves) w labels w') :
    (∀ pre label u v, pre ++ [label] <+: labels → Run (While Capped Moves) w pre u →
      While Capped Moves u label v → Prompt u label v) ↔
      Run (While FlagAlone (While Capped Moves)) w labels w' := by
  refine Run.each_iff moves_deterministic.guarded (idle_civil idle) ?_ ?_ run
  · intro u label v hcivil hflag hmove
    exact moves_civil hcivil hmove.2 hmove.1 ((moves_prompt_iff hcivil hmove.2).mpr hflag)
  · intro u label v hcivil hmove
    exact moves_prompt_iff hcivil hmove.2

end Runs

/-! ## An empty pipe -/

instance : (call : Call) → Decidable call.FlagAlone
  | .scullPRead fFlags _ =>
      inferInstanceAs (Decidable (fFlags &&& O_NONBLOCK ≠ 0 → fFlags = O_NONBLOCK))
  | .scullPWrite _ _ => inferInstanceAs (Decidable True)
  | .scullPOpen _ => inferInstanceAs (Decidable True)
  | .scullPRelease _ => inferInstanceAs (Decidable True)
  | .scullPPoll => inferInstanceAs (Decidable True)

instance (w : World ι) : (label : ι × Action size) → Decidable (FlagAlone w label)
  | (_, .start _) => inferInstanceAs (Decidable True)
  | (i, .go _) =>
      inferInstanceAs
        (Decidable ((w.processes i).pc = .flags → (w.processes i).call.FlagAlone))

def emptyWorld : World Unit :=
  ⟨⟨⟨4096, 4100, 4, 4096, 4096, 1, 1⟩, fun _ => 0⟩, 1,
    fun _ => ⟨.scullPPoll, .returned 0, 0, 0, none, false, []⟩⟩

def proceedOne : Unit × Action 4 := ((), .go ⟨false, false, 4, none⟩)

def readSteps (fFlags steps : Nat) : List (Unit × Action 4) :=
  ((), .start (.scullPRead fFlags 4)) :: List.replicate steps proceedOne

theorem readSteps_capped (fFlags steps : Nat) (w : World Unit) :
    ∀ label ∈ readSteps fFlags steps, Capped w label := by
  intro label hlabel
  simp only [readSteps, List.mem_cons, List.mem_replicate] at hlabel
  rcases hlabel with h | ⟨-, h⟩ <;> rw [h]
  · exact show 4 ≤ MAX_RW_COUNT by decide
  · trivial

/-- The empty pipe after these steps of a read of a file that has `O_NONBLOCK` and was
opened for reading only. -/
def readWorld (steps : Nat) : World Unit :=
  (emptyWorld.steps (readSteps O_NONBLOCK steps)).getD emptyWorld

theorem readWorld_run {steps : Nat}
    (possible : (emptyWorld.steps (readSteps O_NONBLOCK steps)).isSome = true) :
    Run (While Capped Moves) emptyWorld (readSteps O_NONBLOCK steps) (readWorld steps) :=
  (run_steps possible).guarded fun w => readSteps_capped _ _ w

theorem nonblocking_read :
    Prompt (readWorld 3) proceedOne (readWorld 4) := by
  have possible : ((readSteps O_NONBLOCK 4).foldlM (fun (w : World Unit) label =>
      if FlagAlone w label then w.step label.1 label.2 else none) emptyWorld).isSome = true := by
    decide +kernel
  have alone : Run (While FlagAlone (While Capped Moves)) emptyWorld (readSteps O_NONBLOCK 4) _ :=
    ((Run.of_possible possible).checked.guarded fun w => readSteps_capped _ _ w).mono
      fun _ _ _ h => ⟨h.2.1, h.1, h.2.2⟩
  have step : Moves (readWorld 3) proceedOne (readWorld 4) := rfl
  exact (nonblocking_iff (fun _ => ⟨0, rfl⟩) alone.forget).mpr alone (readSteps O_NONBLOCK 3) _ _ _
    (List.prefix_refl _) (readWorld_run (by decide +kernel)) ⟨trivial, step⟩

/-- Opened for reading and writing, it sleeps. -/
theorem nonblocking_sleeps :
    ∃ w, Run (While Capped Moves) emptyWorld (readSteps (O_NONBLOCK ||| Store.O_RDWR) 7) w ∧
      (w.processes ()).call.Nonblocking ∧ (w.processes ()).SleepsOn .inq := by
  have possible : (emptyWorld.steps (readSteps (O_NONBLOCK ||| Store.O_RDWR) 7)).isSome = true := by
    decide +kernel
  refine ⟨_, (run_steps possible).guarded fun w => readSteps_capped _ _ w, ⟨_, rfl, ?_⟩, ?_⟩
  · decide +kernel
  · exact ⟨by decide +kernel, by decide +kernel, by decide +kernel⟩

end MyDrivers.Pipe
