import MyDrivers.Pipe.Linear

/-! The `async_queue` of a pipe device, beside the calls on its files and in any
interleaving with them: `->fasync` puts a file on it or takes it off, a `release` takes it
off, and a write that has stored its bytes has a signal sent to those on it. What the
kernel does to the queue in `fasync_helper` and `kill_fasync` is a parameter. -/
namespace MyDrivers.Pipe
open Lib Lib.Machine
open Store (ENOMEM)

variable {size : Nat} {ι φ : Type}

/-- The kernel's part. `fasyncHelper fd filp on memory queue` returns what `fasync_helper`
returns and the queue afterwards, where `memory` tells whether it gets a new entry, and
`killFasync queue` the files whose owners `kill_fasync` signals. -/
structure Kernel (φ : Type) where
  fasyncHelper : Int → φ → Bool → Bool → List φ → Int × List φ
  killFasync : List φ → List φ

/-- What the driver relies on: `fasync_helper` puts a file on the queue or takes it off,
there is at most one entry a file, a negative result has changed nothing and comes of no
other call than one that asks for an entry; and `kill_fasync` signals the whole queue. -/
structure Kernel.Documented (kernel : Kernel φ) : Prop where
  on : ∀ {fd filp memory queue}, 0 ≤ (kernel.fasyncHelper fd filp true memory queue).1 →
    ∀ other, other ∈ (kernel.fasyncHelper fd filp true memory queue).2 ↔
      other = filp ∨ other ∈ queue
  off : ∀ {fd filp memory queue other},
    other ∈ (kernel.fasyncHelper fd filp false memory queue).2 ↔ other ∈ queue ∧ other ≠ filp
  refused : ∀ {fd filp mode memory queue}, (kernel.fasyncHelper fd filp mode memory queue).1 < 0 →
    mode = true ∧ (kernel.fasyncHelper fd filp mode memory queue).2 = queue
  once : ∀ {fd filp mode memory queue}, queue.Nodup →
    (kernel.fasyncHelper fd filp mode memory queue).2.Nodup
  signals : ∀ {queue file}, file ∈ kernel.killFasync queue ↔ file ∈ queue

section Driver
variable (kernel : Kernel φ)

def scullPFasync (fd : Int) (filp : φ) (mode memory : Bool) (asyncQueue : List φ) : Int × List φ :=
  kernel.fasyncHelper fd filp mode memory asyncQueue

/-- The last statements of `scull_p_write`: the files that get `SIGIO`. -/
def notified (asyncQueue : List φ) : List φ :=
  if asyncQueue = [] then [] else kernel.killFasync asyncQueue

end Driver

inductive Notice (ι φ : Type) where
  /-- A write leaves its section with its bytes stored. -/
  | stored (writer : ι)
  /-- `SIGIO` to the owner of a file. -/
  | sigio (file : φ)
  /-- `->fasync` has put the file on the queue. -/
  | enabled (file : φ)
  deriving DecidableEq

def Notice.unaware [DecidableEq φ] (file : φ) (before : Bool) : Notice ι φ → Bool
  | .stored _ => true
  | .sigio other => before && other ≠ file
  | .enabled other => before && other ≠ file

/-- Whether bytes have been stored since the file was put on the queue and its owner had
a signal last. -/
def unaware [DecidableEq φ] (file : φ) (log : List (Notice ι φ)) : Bool :=
  log.foldl (Notice.unaware file) false

/-- The device with its `async_queue`. `enabled` records of each file whether its last call
of `->fasync` that had success was to put it on the queue, and `notifying` are those who
have woken the readers and come to `kill_fasync`. -/
structure Async (size : Nat) (ι φ : Type) where
  system : System size ι φ
  asyncQueue : List φ
  enabled : φ → Bool
  notifying : ι → Bool
  log : List (Notice ι φ)

inductive AsyncAct (size : Nat) (φ : Type) where
  | start (call : Call) (file : φ)
  | go (choice : Choice size)
  | killFasync
  /-- The kernel calls `->fasync` on an open file, for a process that is in no other call. -/
  | fasync (fd : Int) (file : φ) (mode memory : Bool)

def Call.writes : Call → Bool
  | .scullPWrite _ _ => true
  | _ => false

def Pc.announcing : Pc → Bool
  | .up (.wake _) => true
  | .wake _ => true
  | _ => false

def Pc.isWake : Pc → Bool
  | .wake _ => true
  | _ => false

section Steps
variable [DecidableEq φ] (kernel : Kernel φ)

/-- The queue when a call has begun: the first statement of `scull_p_release` is one. -/
def Call.queueAfter (filp : φ) (asyncQueue : List φ) : Call → List φ
  | .scullPRelease _ => (scullPFasync kernel (-1) filp false false asyncQueue).2
  | _ => asyncQueue

def Call.enabledAfter (filp : φ) (enabled : φ → Bool) : Call → φ → Bool
  | .scullPRelease _ => Function.update enabled filp false
  | _ => enabled

variable [DecidableEq ι]

def Async.went (w : Async size ι φ) (i : ι) (before after : Process) (system : System size ι φ) :
    Async size ι φ :=
  { w with
    system := system
    notifying := Function.update w.notifying i (before.pc.isWake && before.call.writes)
    log :=
      if before.pc = .locked ∧ after.pc.announcing = true ∧ before.call.writes = true then
        w.log ++ [.stored i]
      else w.log }

def Async.step (w : Async size ι φ) (i : ι) : AsyncAct size φ → Option (Async size ι φ)
  | .start call file =>
      if w.notifying i then none
      else
        (w.system.step i (.start call file)).map fun system =>
          { w with
            system := system
            asyncQueue := call.queueAfter kernel file w.asyncQueue
            enabled := call.enabledAfter file w.enabled }
  | .go choice =>
      if w.notifying i then none
      else
        (w.system.step i (.go choice)).map fun system =>
          w.went i (w.system.workers i).process (system.workers i).process system
  | .killFasync =>
      if w.notifying i then
        some { w with
          notifying := Function.update w.notifying i false
          log := w.log ++ (notified kernel w.asyncQueue).map .sigio }
      else none
  | .fasync fd file mode memory =>
      if (w.system.workers i).process.pc.isReturned = false ∨ w.notifying i then none
      else
        let (ret, queue) := scullPFasync kernel fd file mode memory w.asyncQueue
        some { w with
          asyncQueue := queue
          enabled := if ret < 0 then w.enabled else Function.update w.enabled file mode
          log :=
            if mode ∧ 0 ≤ ret ∧ w.enabled file = false then w.log ++ [.enabled file] else w.log }

/-- The kernel makes no call on a file that is not open, and `open` and `release` have
their file to themselves. -/
def Async.Allowed (w : Async size ι φ) (label : ι × AsyncAct size φ) : Prop :=
  match label.2 with
  | .start call file =>
      w.system.Startable file call ∧
        (call.transfers = true ∨ ∀ i, w.notifying i = true → (w.system.workers i).file ≠ file)
  | .fasync _ file _ _ =>
      file ∈ w.system.files.map Prod.fst ∧ ∀ i, (w.system.workers i).Busy →
        (w.system.workers i).file = file → (w.system.workers i).process.call.transfers = true
  | _ => True

def Turns (w : Async size ι φ) (label : ι × AsyncAct size φ) (w' : Async size ι φ) : Prop :=
  w.step kernel label.1 label.2 = some w'

end Steps

def Async.init (size : Nat) (mem : Nat → Store.Byte) (file : φ) : Async size ι φ :=
  ⟨.init size mem file, [], fun _ => false, fun _ => false, []⟩

def Async.WillNotify (w : Async size ι φ) (i : ι) : Prop :=
  w.notifying i = true ∨ (w.system.workers i).process.pc.announcing = true ∧
    (w.system.workers i).process.call.writes = true

/-! ## What an operation on the queue does -/

section Queue
variable {kernel : Kernel φ} {queue : List φ} {file : φ}

theorem mem_scullPFasync [DecidableEq φ] (documented : kernel.Documented) {fd : Int}
    {mode memory : Bool} (other : φ)
    (done : ¬ (scullPFasync kernel fd file mode memory queue).1 < 0) :
    other ∈ (scullPFasync kernel fd file mode memory queue).2 ↔
      if other = file then mode = true else other ∈ queue := by
  cases mode with
  | true =>
    rw [scullPFasync, documented.on (not_lt.mp done)]
    split <;> simp [*]
  | false =>
    rw [scullPFasync, documented.off]
    split <;> simp [*]

theorem scullPFasync_off_done (documented : kernel.Documented) (fd : Int) (memory : Bool) :
    ¬ (scullPFasync kernel fd file false memory queue).1 < 0 := by
  intro hret
  cases (documented.refused hret).1

theorem mem_notified (documented : kernel.Documented) :
    file ∈ notified kernel queue ↔ file ∈ queue := by
  unfold notified
  split
  · next hempty => rw [hempty]
  · exact documented.signals

end Queue

section Log
variable [DecidableEq φ] {file : φ} {log : List (Notice ι φ)}

theorem unaware_concat (notice : Notice ι φ) :
    unaware file (log ++ [notice]) = notice.unaware file (unaware file log) := by
  rw [unaware, List.foldl_append]
  rfl

theorem unaware_enabled (other : φ) (h : unaware file (log ++ [.enabled other]) = true) :
    unaware file log = true ∧ other ≠ file := by
  rw [unaware_concat] at h
  simpa [Notice.unaware] using h

theorem unaware_sigio (owners : List φ) (h : unaware file (log ++ owners.map .sigio) = true) :
    file ∉ owners := by
  induction owners using List.reverseRecOn with
  | nil => simp
  | append_singleton owners other ih =>
    rw [List.map_append, List.map_singleton, ← List.append_assoc, unaware_concat] at h
    obtain ⟨hbefore, hne⟩ : unaware file (log ++ owners.map .sigio) = true ∧ other ≠ file := by
      simpa [Notice.unaware] using h
    simpa [Ne.symm hne] using ih hbefore

end Log

/-! ## Runs -/

section Enabled
variable [DecidableEq φ] {w : Async size ι φ}

theorem enabledAfter_iff {call : Call} {file other : φ} {enabled : φ → Bool} :
    call.enabledAfter file enabled other = true ↔
      enabled other = true ∧ ((∀ mode, call ≠ .scullPRelease mode) ∨ other ≠ file) := by
  cases call with
  | scullPRelease mode =>
    by_cases hother : other = file
    · subst hother
      simp [Call.enabledAfter]
    · simp [Call.enabledAfter, hother]
  | _ => simp [Call.enabledAfter]

end Enabled

section Announcing
variable {choice : Choice size} {pipe pipe' : Backed} {sem sem' : Nat} {q q' : Worker size φ}
  {done : Option (Section size × Reply)}

theorem took_announcing (sound : q.Sound) (took : q.Took choice pipe sem pipe' sem' q' done)
    (ahead : q.process.pc.announcing = true) :
    q.process.pc.isWake = true ∨ q'.process.pc.announcing = true := by
  cases took with
  | stays l l' pipe' place ran =>
    rw [inside_locked sound place] at ahead
    cases ahead
  | leaves l done pipe' place ran =>
    rw [inside_locked sound place] at ahead
    cases ahead
  | enters first pc begins free =>
    rw [pc] at ahead
    cases ahead
  | up after pc =>
    rw [pc] at ahead
    cases after with
    | wake ret => exact .inr rfl
    | _ => cases ahead
  | refused sec p' outside owed busy cut call pc =>
    left
    cases hpc : q.process.pc <;> simp_all [Pc.announcing, Pc.inside, Pc.isWake]
  | quiet p' outside busy call outside' owes polls =>
    left
    cases hpc : q.process.pc <;> simp_all [Pc.announcing, Pc.inside, Pc.isWake]

theorem wake_returns (sound : q.Sound) (step : q.step choice pipe sem = some (pipe', sem', q', done))
    (wakes : q.process.pc.isWake = true) : ¬ q'.Busy := by
  have hinside : q.inside = none := by
    rw [← Option.not_isSome_iff_eq_none, sound.inside]
    intro hpc
    rw [hpc] at wakes
    cases wakes
  cases hpc : q.process.pc with
  | wake ret =>
    simp only [Worker.step, hinside, Process.step, hpc, Option.map_some, Option.some.injEq,
      Prod.mk.injEq] at step
    obtain ⟨-, -, rfl, -⟩ := step
    simp [Worker.Busy, Pc.isReturned]
  | _ =>
    rw [hpc] at wakes
    cases wakes

end Announcing

section Runs
variable [DecidableEq ι] [DecidableEq φ] {kernel : Kernel φ} {mem : Nat → Store.Byte}
  {w w' : Async size ι φ}

structure Listed (mem : Nat → Store.Byte) (w : Async size ι φ) : Prop where
  linearized : ∃ labels session, Linearized mem labels w.system session
  notifiers : ∀ i, w.notifying i = true → ¬ (w.system.workers i).Busy
  nodup : w.asyncQueue.Nodup
  enabled : ∀ file, file ∈ w.asyncQueue ↔ w.enabled file = true
  opened : ∀ file ∈ w.asyncQueue, file ∈ w.system.files.map Prod.fst
  used : ∀ file ∈ w.asyncQueue, ∀ i, (w.system.workers i).Busy → (w.system.workers i).file = file →
    (w.system.workers i).process.call.transfers = true
  awaited : ∀ file ∈ w.asyncQueue, unaware file w.log = true → ∃ i, w.WillNotify i

theorem listed_init (mem : Nat → Store.Byte) (file : φ) :
    Listed mem (Async.init size mem file : Async size ι φ) := by
  refine ⟨⟨[], _, linearized_init mem file⟩, ?_, .nil, ?_, ?_, ?_, ?_⟩ <;> simp [Async.init]

theorem mem_queueAfter (documented : kernel.Documented) {call : Call} {file other : φ} {queue : List φ} :
    other ∈ call.queueAfter kernel file queue ↔
      other ∈ queue ∧ ((∀ mode, call ≠ .scullPRelease mode) ∨ other ≠ file) := by
  cases call with
  | scullPRelease mode =>
    have hdone : ¬ (scullPFasync kernel (-1) file false false queue).1 < 0 :=
      scullPFasync_off_done documented (-1) false
    rw [Call.queueAfter, mem_scullPFasync documented other hdone]
    by_cases hother : other = file <;> simp [hother]
  | _ => simp [Call.queueAfter]

omit [DecidableEq φ] in
theorem queueAfter_nodup (documented : kernel.Documented) {call : Call} {file : φ} {queue : List φ}
    (nodup : queue.Nodup) : (call.queueAfter kernel file queue).Nodup := by
  cases call with
  | scullPRelease mode => exact documented.once nodup
  | _ => exact nodup

theorem queued_transfers (h : Listed mem w) {call : Call} {file : φ}
    (startable : w.system.Startable file call) (queued : file ∈ w.asyncQueue)
    (other : ∀ mode, call ≠ .scullPRelease mode) : call.transfers = true := by
  cases call with
  | scullPOpen mode => exact absurd (h.opened file queued) startable.1
  | scullPRelease mode => exact absurd rfl (other mode)
  | scullPPoll => exact absurd startable id
  | scullPRead fFlags count => rfl
  | scullPWrite fFlags buff => rfl

theorem listed_started (documented : kernel.Documented) {i : ι} {call : Call} {file : φ}
    (h : Listed mem w) (idle : ¬ (w.system.workers i).Busy) (silent : ¬ w.notifying i = true)
    (startable : w.system.Startable file call)
    (orderly : Orderly { w.system with
      workers := Function.update w.system.workers i ⟨.start call, none, file⟩ }) :
    Listed mem { w with
      system := { w.system with
        workers := Function.update w.system.workers i ⟨.start call, none, file⟩ }
      asyncQueue := call.queueAfter kernel file w.asyncQueue
      enabled := call.enabledAfter file w.enabled } := by
  obtain ⟨labels, session, hlinearized⟩ := h.linearized
  refine ⟨⟨_, session, linearized_started hlinearized idle startable orderly⟩, ?_,
    queueAfter_nodup documented h.nodup, ?_, ?_, ?_, ?_⟩
  · intro j hj
    have hji : j ≠ i := by
      rintro rfl
      exact silent hj
    simpa [Worker.Busy, Function.update_of_ne hji] using h.notifiers j hj
  · intro other
    rw [mem_queueAfter documented, enabledAfter_iff, h.enabled]
  · intro other hother
    exact h.opened other ((mem_queueAfter documented).mp hother).1
  · intro other hother j busy heq
    obtain ⟨hmem, hspared⟩ := (mem_queueAfter documented).mp hother
    by_cases hj : j = i
    · subst hj
      simp only [Function.update_self] at heq ⊢
      subst heq
      exact queued_transfers h startable hmem (hspared.resolve_right (not_not_intro rfl))
    · simp only [Worker.Busy, Function.update_of_ne hj] at busy heq ⊢
      exact h.used other hmem j busy heq
  · intro other hother hunaware
    obtain ⟨j, hj⟩ := h.awaited other ((mem_queueAfter documented).mp hother).1 hunaware
    refine ⟨j, hj.imp_right fun hahead => ?_⟩
    have hji : j ≠ i := by
      rintro rfl
      apply idle
      cases hpc : (w.system.workers j).process.pc <;>
        simp_all [Worker.Busy, Pc.announcing, Pc.isReturned]
    simpa [Function.update_of_ne hji] using hahead

theorem listed_went {i : ι} {choice : Choice size} {system' : System size ι φ} (h : Listed mem w)
    (silent : ¬ w.notifying i = true) (hstep : w.system.step i (.go choice) = some system')
    {log' : List (Notice ι φ)}
    (hlog : log' = if (w.system.workers i).process.pc = .locked ∧
      (system'.workers i).process.pc.announcing = true ∧
        (w.system.workers i).process.call.writes = true then w.log ++ [.stored i] else w.log) :
    Listed mem { w with
      system := system'
      notifying := Function.update w.notifying i ((w.system.workers i).process.pc.isWake &&
        (w.system.workers i).process.call.writes)
      log := log' } := by
  obtain ⟨labels, session, hlinearized⟩ := h.linearized
  have hsound := hlinearized.orderly.sound
  have hadvances : Advances w.system (i, .go choice) system' := hstep
  obtain ⟨session', hlinearized'⟩ := linearized_step hlinearized hadvances trivial
  simp only [System.step, Option.map_eq_some_iff] at hstep
  obtain ⟨⟨pipe', sem', q', done⟩, hworker, rfl⟩ := hstep
  have htook := took_cases (hsound i) hworker
  have hcalled := (took_kept (hsound i) htook).1
  have others (j : ι) (hj : j ≠ i) :=
    same_other (w := w.system) hj (w.system.workers i).process.waking q'
  obtain ⟨committed', settled, -⟩ := guarded_went hlinearized.orderly
    hlinearized.sequential.guarded htook _ (Function.update_self ..) others
  refine ⟨⟨_, session', hlinearized'⟩, ?_, h.nodup, h.enabled, ?_, ?_, ?_⟩
  · intro j hj
    by_cases hji : j = i
    · subst hji
      simp only [Function.update_self, Bool.and_eq_true] at hj ⊢
      exact wake_returns (hsound j) hworker hj.1
    · simp only [Function.update_of_ne hji] at hj
      exact fun busy => h.notifiers j hj ((others j hji).busy.mp busy)
  · intro file hfile
    obtain ⟨e, he, hkey⟩ := List.mem_map.mp (h.opened file hfile)
    refine List.mem_map.mpr ⟨e, mem_filesAfter settled he ?_, hkey⟩
    by_cases hrelease : ∀ mode, (w.system.workers i).process.call ≠ .scullPRelease mode
    · exact .inl hrelease
    · right
      intro heq
      simp only [not_forall, not_not] at hrelease
      obtain ⟨mode, hmode⟩ := hrelease
      have htransfers := h.used file hfile i (took_kept (hsound i) htook).2.2 (heq.symm.trans hkey)
      rw [hmode] at htransfers
      cases htransfers
  · intro file hfile j busy heq
    by_cases hj : j = i
    · subst hj
      obtain ⟨-, hfile', hbusy⟩ := took_kept (hsound j) htook
      simp only [Function.update_self] at heq ⊢
      rw [hcalled]
      exact h.used file hfile j hbusy (hfile'.symm.trans heq)
    · have hsame := others j hj
      rw [hsame.call]
      exact h.used file hfile j (hsame.busy.mp busy) (hsame.file.symm.trans heq)
  · intro file hfile hunaware
    by_cases hstored : (w.system.workers i).process.pc = .locked ∧
        q'.process.pc.announcing = true ∧ (w.system.workers i).process.call.writes = true
    · refine ⟨i, .inr ?_⟩
      simpa [hcalled] using hstored.2
    · have hsame : log' = w.log := by
        rw [hlog]
        apply if_neg
        simpa using hstored
      rw [hsame] at hunaware
      obtain ⟨j, hj⟩ := h.awaited file hfile hunaware
      refine ⟨j, ?_⟩
      by_cases hji : j = i
      · subst hji
        obtain ⟨hahead, hwrites⟩ := hj.resolve_left silent
        rcases took_announcing (hsound j) htook hahead with hwake | hstill
        · left
          simp [hwake, hwrites]
        · right
          simp [hstill, hcalled, hwrites]
      · have hsame := woken_same (w.system.workers i).process.waking (w.system.workers j)
        unfold Async.WillNotify at hj ⊢
        simpa [Function.update_of_ne hji, hsame.pc, hsame.call] using hj

theorem listed_killFasync (documented : kernel.Documented) {i : ι} (h : Listed mem w) :
    Listed mem { w with
      notifying := Function.update w.notifying i false
      log := w.log ++ (notified kernel w.asyncQueue).map .sigio } := by
  refine ⟨h.linearized, ?_, h.nodup, h.enabled, h.opened, h.used, ?_⟩
  · intro j hj
    by_cases hji : j = i
    · subst hji
      simp at hj
    · exact h.notifiers j (by simpa [Function.update_of_ne hji] using hj)
  · intro file hfile hunaware
    exact absurd ((mem_notified documented).mpr hfile) (unaware_sigio _ hunaware)

theorem listed_fasync (documented : kernel.Documented) {fd : Int} {file : φ} {mode memory : Bool}
    (h : Listed mem w) (opened : file ∈ w.system.files.map Prod.fst)
    (used : ∀ i, (w.system.workers i).Busy → (w.system.workers i).file = file →
      (w.system.workers i).process.call.transfers = true)
    {ret : Int} {queue : List φ}
    (hdone : scullPFasync kernel fd file mode memory w.asyncQueue = (ret, queue)) :
    Listed mem { w with
      asyncQueue := queue
      enabled := if ret < 0 then w.enabled else Function.update w.enabled file mode
      log :=
        if mode ∧ 0 ≤ ret ∧ w.enabled file = false then w.log ++ [.enabled file] else w.log } := by
  have hret : (scullPFasync kernel fd file mode memory w.asyncQueue).1 = ret := by rw [hdone]
  have hqueue : (scullPFasync kernel fd file mode memory w.asyncQueue).2 = queue := by rw [hdone]
  by_cases hrefused : ret < 0
  · have hsame : queue = w.asyncQueue := by
      rw [← hqueue]
      exact (documented.refused (hret ▸ hrefused)).2
    have hnot : ¬ (0 ≤ ret) := not_le.mpr hrefused
    simpa [hsame, hrefused, hnot] using h
  have hmem (other : φ) : other ∈ queue ↔ if other = file then mode = true else other ∈ w.asyncQueue := by
    rw [← hqueue]
    exact mem_scullPFasync documented other (hret ▸ hrefused)
  refine ⟨h.linearized, h.notifiers, hqueue ▸ documented.once h.nodup, ?_, ?_, ?_, ?_⟩
  · intro other
    rw [hmem, if_neg hrefused]
    by_cases hother : other = file
    · simp [hother]
    · simp [hother, h.enabled]
  · intro other hother
    by_cases heq : other = file
    · exact heq ▸ opened
    · rw [hmem, if_neg heq] at hother
      exact h.opened other hother
  · intro other hother
    by_cases heq : other = file
    · exact heq ▸ used
    · rw [hmem, if_neg heq] at hother
      exact h.used other hother
  · intro other hother hunaware
    rw [hmem] at hother
    dsimp only at hunaware
    -- A file that has just been put on the queue has missed nothing.
    by_cases hlog : mode = true ∧ 0 ≤ ret ∧ w.enabled file = false
    · rw [if_pos hlog] at hunaware
      obtain ⟨hbefore, hne⟩ := unaware_enabled file hunaware
      rw [if_neg hne.symm] at hother
      exact h.awaited other hother hbefore
    · rw [if_neg hlog] at hunaware
      by_cases heq : other = file
      · subst heq
        rw [if_pos rfl] at hother
        have henabled : w.enabled other = true := by
          rw [← Bool.not_eq_false]
          exact fun hoff => hlog ⟨hother, not_lt.mp hrefused, hoff⟩
        exact h.awaited other ((h.enabled other).mpr henabled) hunaware
      · rw [if_neg heq] at hother
        exact h.awaited other hother hunaware

theorem turns_listed (documented : kernel.Documented) {label : ι × AsyncAct size φ}
    (h : Listed mem w) (hstep : Turns kernel w label w') (allowed : w.Allowed label) :
    Listed mem w' := by
  obtain ⟨i, act⟩ := label
  cases act with
  | start call file =>
    simp only [Turns, Async.step] at hstep
    split at hstep
    · cases hstep
    · next silent =>
      simp only [Option.map_eq_some_iff] at hstep
      obtain ⟨system', hsystem, rfl⟩ := hstep
      obtain ⟨labels, session, hlinearized⟩ := h.linearized
      have hadvances : Advances w.system (i, .start call file) system' := hsystem
      have orderly := advances_orderly hlinearized.orderly hadvances allowed.1
      simp only [System.step] at hsystem
      split at hsystem
      · next hidle =>
        cases hsystem
        exact listed_started documented h (by simp [Worker.Busy, hidle]) silent allowed.1 orderly
      · cases hsystem
  | go choice =>
    simp only [Turns, Async.step] at hstep
    split at hstep
    · cases hstep
    · next silent =>
      simp only [Option.map_eq_some_iff] at hstep
      obtain ⟨system', hsystem, rfl⟩ := hstep
      exact listed_went h silent hsystem rfl
  | killFasync =>
    simp only [Turns, Async.step] at hstep
    split at hstep
    · cases hstep
      exact listed_killFasync documented h
    · cases hstep
  | fasync fd file mode memory =>
    simp only [Turns, Async.step] at hstep
    split at hstep
    · cases hstep
    · cases hstep
      exact listed_fasync documented h allowed.1 allowed.2 rfl

/-- The queue holds the files that `->fasync` has put there, each once and all of them open,
with no `release` on its way; and where bytes have been stored since the last signal for one
of them, a writer has yet to send it. -/
theorem notifies (documented : kernel.Documented) {file : φ} {labels : List (ι × AsyncAct size φ)}
    (run : Run (While Async.Allowed (Turns kernel)) (.init size mem file) labels w) :
    w.asyncQueue.Nodup ∧ (∀ file, file ∈ w.asyncQueue ↔ w.enabled file = true) ∧
      (∀ file ∈ w.asyncQueue, file ∈ w.system.files.map Prod.fst ∧
        ∀ i, (w.system.workers i).Busy → (w.system.workers i).file = file →
          (w.system.workers i).process.call.transfers = true) ∧
      ∀ file ∈ w.asyncQueue, unaware file w.log = true → ∃ i, w.WillNotify i := by
  have h : Listed mem w := run.invariant (fun _ => Listed mem) (listed_init mem file)
    fun _ _ _ _ _ h hstep => turns_listed documented h hstep.2 hstep.1
  exact ⟨h.nodup, h.enabled, fun file hfile => ⟨h.opened file hfile, h.used file hfile⟩, h.awaited⟩

instance [Fintype ι] (w : Async size ι φ) :
    (label : ι × AsyncAct size φ) → Decidable (w.Allowed label)
  | (_, .start _ _) => inferInstanceAs (Decidable (_ ∧ _))
  | (_, .go _) => inferInstanceAs (Decidable True)
  | (_, .killFasync) => inferInstanceAs (Decidable True)
  | (_, .fasync _ _ _ _) => inferInstanceAs (Decidable (_ ∧ _))

end Runs

section Example

/-- A kernel: an entry is allocated before the queue is searched. -/
def listKernel : Kernel Bool where
  fasyncHelper _ filp on memory queue :=
    if on then
      if ¬ memory then (-ENOMEM, queue)
      else if filp ∈ queue then (0, queue)
      else (1, filp :: queue)
    else (if filp ∈ queue then 1 else 0, queue.filter fun other => other ≠ filp)
  killFasync queue := queue

theorem listKernel_documented : listKernel.Documented := by
  constructor
  · intro fd filp memory queue hret other
    cases memory with
    | false => simp [listKernel, ENOMEM] at hret
    | true =>
      by_cases hmem : filp ∈ queue
      · have hold : other = filp → other ∈ queue := fun heq => heq ▸ hmem
        simpa [listKernel, hmem] using hold
      · simp [listKernel, hmem]
  · intro fd filp memory queue other
    simp [listKernel]
  · intro fd filp mode memory queue hret
    cases mode with
    | false =>
      simp only [listKernel, Bool.false_eq_true, if_false] at hret
      split at hret <;> omega
    | true =>
      cases memory with
      | false => exact ⟨rfl, rfl⟩
      | true =>
        simp only [listKernel, if_true, not_true_eq_false, if_false] at hret
        split at hret <;> omega
  · intro fd filp mode memory queue nodup
    cases mode with
    | false => exact nodup.filter _
    | true =>
      cases memory with
      | false => exact nodup
      | true =>
        by_cases hmem : filp ∈ queue
        · simpa [listKernel, hmem] using nodup
        · simp [listKernel, hmem, nodup]
  · intro queue file
    rfl

/-- Both processes open a file and have it put on the queue; the first writes and signals,
closes its file, and the second writes. -/
def enableSteps : List (Bool × AsyncAct 4 Bool) :=
  let go (i : Bool) (n : Nat) : List (Bool × AsyncAct 4 Bool) :=
    List.replicate n (i, .go ⟨false, false, 4, some freshFour⟩)
  [(false, .start (.scullPOpen ⟨true, true⟩) false)] ++ go false 12 ++
    [(true, .start (.scullPOpen ⟨true, true⟩) true)] ++ go true 8 ++
    [(true, .fasync 3 false true true), (true, .fasync 4 true true true),
      (false, .start (.scullPWrite 0 [7]) false)] ++ go false 9 ++
    [(false, .killFasync), (false, .start (.scullPRelease ⟨true, true⟩) false)] ++ go false 2 ++
    [(true, .start (.scullPWrite 0 [8]) true)] ++ go false 5 ++ go true 8

theorem notifies_enabled : ∃ w : Async 4 Bool Bool,
    Run (While Async.Allowed (Turns listKernel)) (.init 4 (fun _ => 0) false) enableSteps w ∧
      w.asyncQueue = [true] ∧ unaware true w.log = true ∧ ∃ i, w.WillNotify i := by
  have possible : ((enableSteps.foldlM (fun (w : Async 4 Bool Bool) label =>
      if w.Allowed label then w.step listKernel label.1 label.2 else none)
        (.init 4 (fun _ => 0) false)).any
      fun w => decide (w.asyncQueue = [true]) && unaware true w.log) = true := by
    decide +kernel
  obtain ⟨w, hw, run⟩ := Run.of_any possible
  simp only [Bool.and_eq_true, decide_eq_true_eq] at hw
  obtain ⟨-, -, -, hnotified⟩ := notifies listKernel_documented run.checked
  exact ⟨w, run.checked, hw.1, hw.2, hnotified true (by simp [hw.1]) hw.2⟩

end Example

end MyDrivers.Pipe
