import MyDrivers.Pipe.Workers
import MyDrivers.Pipe.Fifo

/-! The calls on one pipe device, statement by statement and in any interleaving, have
the effects and the results of sections that are run one after the other, each between
the beginning and the end of its call. -/
namespace MyDrivers.Pipe
open Lib Lib.Machine
open Store (Byte EAGAIN ENOMEM EFAULT ERESTARTSYS O_NONBLOCK)

variable {size : Nat} {ι φ : Type}

/-- A call uses a file that is open, and a `release` has it to itself. -/
structure Filed (w : System size ι φ) : Prop where
  transfers : ∀ i, (w.workers i).Busy → (w.workers i).process.call.transfers = true →
    (w.workers i).file ∈ w.files.map Prod.fst
  releasing : ∀ i mode, (w.workers i).owes = none →
    (w.workers i).process.call = .scullPRelease mode → ((w.workers i).file, mode) ∈ w.files
  shared : ∀ i j, i ≠ j → (w.workers i).Busy → (w.workers j).Busy →
    (w.workers i).file = (w.workers j).file → (w.workers i).process.call.transfers = true

structure Sequential (mem : Nat → Byte) (w : System size ι φ) (session : Session) : Prop where
  run : Run Step (.init size mem) (w.history.map Prod.snd) session
  files : session.files.Perm (w.files.map Prod.snd)
  guarded : Guarded access (begins w.workers) (fun i => (w.workers i).inside) session.pipe w.pipe

section Sections
variable {w : System size ι φ} {i : ι} {sec : Section size} {reply : Reply} {session : Session}

theorem offered_of (filed : Filed w) (files : session.files.Perm (w.files.map Prod.snd))
    (owed : (w.workers i).owes = none) (called : sec.Of (w.workers i).process.call) :
    sec.Offered session := by
  have busy := busy_of_owes owed
  have nonempty (htransfers : (w.workers i).process.call.transfers = true) : session.files ≠ [] := by
    intro hnil
    have hmem := filed.transfers i busy htransfers
    rw [hnil] at files
    have hfiles : w.files.map Prod.snd = [] := files.symm.eq_nil
    simp [List.map_eq_nil_iff.mp hfiles] at hmem
  generalize hcall : (w.workers i).process.call = call at called nonempty
  cases sec with
  | scullPOpen mode interrupted kmalloc => trivial
  | scullPRelease mode interrupted =>
    cases call with
    | scullPRelease mode' =>
      cases called
      have hmem := filed.releasing i mode owed hcall
      exact files.symm.subset (List.mem_map_of_mem hmem)
    | _ => cases called
  | scullPRead fFlags count interrupted accessible =>
    cases call with
    | scullPRead fFlags' count' => exact nonempty rfl
    | _ => cases called
  | scullPWrite fFlags buff interrupted accessible =>
    cases call with
    | scullPWrite fFlags' buff' => exact nonempty rfl
    | _ => cases called

variable [DecidableEq φ]

theorem files_after (filed : Filed w) (files : session.files.Perm (w.files.map Prod.snd))
    (owed : (w.workers i).owes = none) (called : sec.Of (w.workers i).process.call)
    (hreply : (sec.run session).1 = reply) :
    (sec.run session).2.files.Perm
      ((filesAfter w.files (w.workers i).file (some (sec, reply))).map Prod.snd) := by
  generalize hcall : (w.workers i).process.call = call at called
  cases sec with
  | scullPOpen mode interrupted kmalloc =>
    change (if (Section.run session (.scullPOpen mode interrupted kmalloc)).1.ret = some 0
      then mode :: session.files else session.files).Perm _
    rw [hreply, filesAfter]
    by_cases hret : reply.ret = some 0
    · rw [if_pos hret, if_pos hret]
      exact files.cons mode
    · rw [if_neg hret, if_neg hret]
      exact files
  | scullPRelease mode interrupted =>
    cases call with
    | scullPRelease mode' =>
      cases called
      have hmem := filed.releasing i mode owed hcall
      have hfront : (w.files.map Prod.snd).Perm
          (mode :: (w.files.erase ((w.workers i).file, mode)).map Prod.snd) :=
        (List.perm_cons_erase hmem).map Prod.snd
      have herase := (files.trans hfront).erase mode
      rw [List.erase_cons_head] at herase
      exact herase
    | _ => cases called
  | scullPRead fFlags count interrupted accessible => exact files
  | scullPWrite fFlags buff interrupted accessible => exact files

variable {mem : Nat → Byte}

theorem sequential_went {workers : ι → Worker size φ} {pipe' committed' : Backed}
    {q' : Worker size φ} {done : Option (Section size × Reply)} (sem' : Nat) (filed : Filed w)
    (seq : Sequential mem w session)
    (settled : Settled (w.workers i) q' session.pipe done committed')
    (guarded : Guarded access (begins workers) (fun j => (workers j).inside) committed' pipe') :
    ∃ session', Sequential mem
      { pipe := pipe', sem := sem', workers := workers
        files := filesAfter w.files (w.workers i).file done
        history := w.history ++ done.toList.map fun done => (i, done) } session' := by
  cases settled with
  | unseen owes =>
    refine ⟨session, ?_, seq.files, guarded⟩
    simpa using seq.run
  | ran sec reply committed' owed owes called runs =>
    obtain ⟨hreply, hpipe⟩ := runs session.files
    have hstep := step_run (offered_of filed seq.files owed called)
    rw [hreply] at hstep
    refine ⟨(sec.run session).2, ?_, files_after filed seq.files owed called hreply, ?_⟩
    · simpa using seq.run.snoc hstep
    · rw [show (sec.run session).2.pipe = committed' from hpipe]
      exact guarded

end Sections

section Files
variable {w w' : System size ι φ} {i : ι} {committed committed' : Backed} {q' : Worker size φ}
  {done : Option (Section size × Reply)}

theorem release_settles (settled : Settled (w.workers i) q' committed done committed')
    {mode : FMode} (hcall : (w.workers i).process.call = .scullPRelease mode)
    (owes : q'.owes = none) : done = none ∧ (w.workers i).owes = none := by
  cases settled with
  | unseen same => exact ⟨rfl, same.symm.trans owes⟩
  | ran sec reply committed' owed owes' called runs =>
    exfalso
    rw [hcall] at called
    have hreply := (runs []).1
    have hnone : reply.ret = none := owes'.symm.trans owes
    cases sec with
    | scullPRelease mode' interrupted =>
      rw [← hreply] at hnone
      simp only [Section.run, scullPRelease, scullPReleaseLocked] at hnone
      repeat' split at hnone
      all_goals cases hnone
    | _ => cases called

variable [DecidableEq φ]

theorem mem_filesAfter (settled : Settled (w.workers i) q' committed done committed')
    {e : φ × FMode} (h : e ∈ w.files)
    (spared : (∀ mode, (w.workers i).process.call ≠ .scullPRelease mode) ∨ e.1 ≠ (w.workers i).file) :
    e ∈ filesAfter w.files (w.workers i).file done := by
  cases settled with
  | unseen owes => exact h
  | ran sec reply committed' owed owes called runs =>
    cases sec with
    | scullPOpen mode interrupted kmalloc =>
      simp only [filesAfter]
      split
      · exact List.mem_cons_of_mem _ h
      · exact h
    | scullPRelease mode interrupted =>
      have hcall : (w.workers i).process.call = .scullPRelease mode := by
        generalize (w.workers i).process.call = call at called
        cases call with
        | scullPRelease mode' =>
          cases called
          rfl
        | _ => cases called
      have hne : e ≠ ((w.workers i).file, mode) := by
        rintro rfl
        rcases spared with hspared | hspared
        · exact hspared mode hcall
        · exact hspared rfl
      exact (List.mem_erase_of_ne hne).mpr h
    | scullPRead fFlags count interrupted accessible => exact h
    | scullPWrite fFlags buff interrupted accessible => exact h

theorem filed_went (h : Filed w) (settled : Settled (w.workers i) q' committed done committed')
    (kept : q'.process.call = (w.workers i).process.call ∧ q'.file = (w.workers i).file ∧
      (w.workers i).Busy)
    (hi : w'.workers i = q') (others : ∀ j, j ≠ i → (w.workers j).Same (w'.workers j))
    (files : w'.files = filesAfter w.files (w.workers i).file done) : Filed w' := by
  obtain ⟨hcall, hfile, hbusy⟩ := kept
  have same (j : ι) : (w'.workers j).process.call = (w.workers j).process.call ∧
      (w'.workers j).file = (w.workers j).file ∧ ((w'.workers j).Busy → (w.workers j).Busy) := by
    by_cases hj : j = i
    · subst hj
      rw [hi]
      exact ⟨hcall, hfile, fun _ => hbusy⟩
    · exact ⟨(others j hj).call, (others j hj).file, (others j hj).busy.mp⟩
  -- nobody uses a file that is being released
  have spared (j : ι) (hj : j ≠ i) (busy : (w.workers j).Busy) :
      (∀ mode, (w.workers i).process.call ≠ .scullPRelease mode) ∨
        (w.workers j).file ≠ (w.workers i).file := by
    by_cases hrelease : ∀ mode, (w.workers i).process.call ≠ .scullPRelease mode
    · exact .inl hrelease
    · right
      intro heq
      have htransfers := h.shared i j hj.symm hbusy busy heq.symm
      simp only [not_forall, not_not] at hrelease
      obtain ⟨mode, hmode⟩ := hrelease
      rw [hmode] at htransfers
      cases htransfers
  constructor
  · intro j busy htransfers
    obtain ⟨hcall', hfile', hbusy'⟩ := same j
    rw [hcall'] at htransfers
    obtain ⟨e, he, hkey⟩ := List.mem_map.mp (h.transfers j (hbusy' busy) htransfers)
    rw [hfile', files, ← hkey]
    refine List.mem_map_of_mem (mem_filesAfter settled he ?_)
    by_cases hj : j = i
    · left
      intro mode hmode
      rw [hj, hmode] at htransfers
      cases htransfers
    · rw [hkey]
      exact spared j hj (hbusy' busy)
  · intro j mode howes hmode
    obtain ⟨hcall', hfile', -⟩ := same j
    rw [hcall'] at hmode
    rw [hfile', files]
    by_cases hj : j = i
    · subst hj
      rw [hi] at howes
      obtain ⟨hnone, howes⟩ := release_settles settled hmode howes
      rw [hnone]
      exact h.releasing j mode howes hmode
    · have howes' : (w.workers j).owes = none := by
        rw [Worker.owes, (others j hj).pc, (others j hj).call] at howes
        exact howes
      exact mem_filesAfter settled (h.releasing j mode howes' hmode)
        (spared j hj (busy_of_owes howes'))
  · intro j k hjk busy busy' heq
    rw [(same j).1]
    apply h.shared j k hjk ((same j).2.2 busy) ((same k).2.2 busy')
    rw [← (same j).2.1, ← (same k).2.1]
    exact heq

end Files

variable [DecidableEq ι]

def starts (labels : List (ι × Act size φ)) (i : ι) : List Call :=
  labels.filterMap fun label =>
    match label.2 with
    | .start call _ => if label.1 = i then some call else none
    | .go _ => none

/-- The sections of a process that settle what a call returns. -/
def answers (history : List (ι × Section size × Reply)) (i : ι) : List (Section size × Reply) :=
  (history.filter fun e => e.1 = i && e.2.2.ret.isSome).map Prod.snd

/-- Every call of a process but an unsettled last one has its answer, in order. -/
structure Answered (labels : List (ι × Act size φ)) (w : System size ι φ) (i : ι) : Prop where
  pending : (w.workers i).owes = none → ∃ earlier,
    starts labels i = earlier ++ [(w.workers i).process.call] ∧
      List.Forall₂ (fun call answer => answer.1.Of call) earlier (answers w.history i)
  settled : ∀ ret, (w.workers i).owes = some ret →
    List.Forall₂ (fun call answer => answer.1.Of call) (starts labels i) (answers w.history i) ∧
      ∀ answer ∈ (answers w.history i).getLast?, answer.2.ret = some ret

section Answers
variable {labels : List (ι × Act size φ)} {w w' : System size ι φ} {i j : ι}
  {done : Option (Section size × Reply)} {q' : Worker size φ} {committed committed' : Backed}

theorem starts_start (call : Call) (file : φ) :
    starts (labels ++ [(i, .start call file)]) i = starts labels i ++ [call] := by
  simp [starts]

theorem starts_other (act : Act size φ) (h : j ≠ i) :
    starts (labels ++ [(i, act)]) j = starts labels j := by
  cases act <;> simp [starts, Ne.symm h]

theorem starts_go (choice : Choice size) : starts (labels ++ [(i, .go choice)]) j = starts labels j := by
  simp [starts]

theorem answers_other (history : List (ι × Section size × Reply)) (h : j ≠ i) :
    answers (history ++ done.toList.map fun done => (i, done)) j = answers history j := by
  cases done <;> simp [answers, Ne.symm h]

theorem answers_settled (history : List (ι × Section size × Reply)) {sec : Section size}
    {reply : Reply} {ret : Int} (h : reply.ret = some ret) :
    answers (history ++ [(i, sec, reply)]) i = answers history i ++ [(sec, reply)] := by
  simp [answers, h]

theorem answers_sleeps (history : List (ι × Section size × Reply)) {sec : Section size}
    {reply : Reply} (h : reply.ret = none) :
    answers (history ++ [(i, sec, reply)]) i = answers history i := by
  simp [answers, h]

theorem answered_congr (h : Answered labels w j) {labels' : List (ι × Act size φ)}
    (owes : (w'.workers j).owes = (w.workers j).owes)
    (call : (w'.workers j).process.call = (w.workers j).process.call)
    (starts' : starts labels' j = starts labels j)
    (answers' : answers w'.history j = answers w.history j) : Answered labels' w' j := by
  constructor
  · rw [owes, call, starts', answers']
    exact h.pending
  · rw [owes, starts', answers']
    exact h.settled

theorem answered_went (h : Answered labels w i)
    (settled : Settled (w.workers i) q' committed done committed')
    (call : q'.process.call = (w.workers i).process.call) (hi : w'.workers i = q')
    (history : w'.history = w.history ++ done.toList.map fun done => (i, done))
    (choice : Choice size) : Answered (labels ++ [(i, .go choice)]) w' i := by
  cases settled with
  | unseen owes =>
    apply answered_congr h
    · rw [hi, owes]
    · rw [hi, call]
    · exact starts_go choice
    · rw [history]
      simp
  | ran sec reply committed' owed owes called runs =>
    obtain ⟨earlier, hstarts, hearlier⟩ := h.pending owed
    have hlist : w'.history = w.history ++ [(i, sec, reply)] := history
    have howes : (w'.workers i).owes = reply.ret := by rw [hi, owes]
    constructor
    · intro hnone
      refine ⟨earlier, ?_, ?_⟩
      · rw [starts_go, hstarts, hi, call]
      · rw [hlist, answers_sleeps _ (howes.symm.trans hnone)]
        exact hearlier
    · intro ret hret
      have hreply := howes.symm.trans hret
      rw [starts_go, hstarts, hlist, answers_settled _ hreply]
      refine ⟨List.rel_append hearlier (.cons called .nil), ?_⟩
      intro answer hanswer
      rw [List.getLast?_concat] at hanswer
      cases hanswer
      exact hreply

end Answers

/-! ## Runs -/

section Runs
variable {mem : Nat → Byte} {labels : List (ι × Act size φ)} {w w' : System size ι φ}
  {label : ι × Act size φ} {session : Session}

structure Linearized (mem : Nat → Byte) (labels : List (ι × Act size φ)) (w : System size ι φ)
    (session : Session) : Prop where
  orderly : Orderly w
  filed : Filed w
  answered : ∀ i, Answered labels w i
  sequential : Sequential mem w session

theorem linearized_init (mem : Nat → Byte) (file : φ) :
    Linearized mem [] (System.init size mem file : System size ι φ) (.init size mem) := by
  have hidle (i : ι) : ¬ ((System.init size mem file : System size ι φ).workers i).Busy := by
    simp [Worker.Busy, System.init, Pc.isReturned]
  constructor
  · constructor
    · exact .inl ⟨rfl, fun i => Bool.false_ne_true⟩
    · intro i
      exact ⟨by simp [System.init], fun h => absurd h (hidle i), by simp [System.init]⟩
  · constructor
    · exact fun i h => absurd h (hidle i)
    · exact fun i mode h => absurd (busy_of_owes h) (hidle i)
    · exact fun i j _ h => absurd h (hidle i)
  · intro i
    constructor
    · intro h
      cases h
    · intro ret _
      exact ⟨.nil, by simp [answers, System.init]⟩
  · exact ⟨.nil, .nil, .init fun _ => rfl⟩

theorem linearized_started {i : ι} {call : Call} {file : φ} (h : Linearized mem labels w session)
    (idle : ¬ (w.workers i).Busy) (startable : w.Startable file call)
    (orderly : Orderly
      { w with workers := Function.update w.workers i ⟨.start call, none, file⟩ }) :
    Linearized mem (labels ++ [(i, .start call file)])
      { w with workers := Function.update w.workers i ⟨.start call, none, file⟩ } session := by
  have hnone : (w.workers i).inside = none := by
    rw [← Option.not_isSome_iff_eq_none, (h.orderly.sound i).inside]
    intro hpc
    exact idle (by simp [Worker.Busy, hpc, Pc.isReturned])
  -- whoever uses the file of the new call
  have clash (j : ι) (busy : (w.workers j).Busy) (heq : (w.workers j).file = file) :
      (w.workers j).process.call.transfers = true ∧ call.transfers = true := by
    cases call with
    | scullPOpen mode => exact absurd heq (startable.2 j busy)
    | scullPRelease mode => exact absurd heq (startable.2 j busy)
    | scullPRead fFlags count => exact ⟨startable.2 j busy heq, rfl⟩
    | scullPWrite fFlags buff => exact ⟨startable.2 j busy heq, rfl⟩
    | scullPPoll => exact absurd startable id
  refine ⟨orderly, ?_, ?_, h.sequential.run, h.sequential.files, ?_⟩
  · constructor
    · intro j busy htransfers
      by_cases hj : j = i
      · subst hj
        simp only [Function.update_self] at htransfers ⊢
        cases call with
        | scullPRead fFlags count => exact startable.1
        | scullPWrite fFlags buff => exact startable.1
        | _ => cases htransfers
      · simp only [Worker.Busy, Function.update_of_ne hj] at busy htransfers ⊢
        exact h.filed.transfers j busy htransfers
    · intro j mode howes hmode
      by_cases hj : j = i
      · subst hj
        simp only [Function.update_self] at hmode ⊢
        have hcall : call = .scullPRelease mode := hmode
        subst hcall
        exact startable.1
      · simp only [Function.update_of_ne hj] at howes hmode ⊢
        exact h.filed.releasing j mode howes hmode
    · intro j k hjk busy busy' heq
      by_cases hj : j = i
      · subst hj
        have hk : k ≠ j := hjk.symm
        simp only [Worker.Busy, Function.update_self, Function.update_of_ne hk] at busy' heq ⊢
        exact (clash k busy' heq.symm).2
      · by_cases hk : k = i
        · subst hk
          simp only [Worker.Busy, Function.update_self, Function.update_of_ne hj] at busy heq ⊢
          exact (clash j busy heq).1
        · simp only [Worker.Busy, Function.update_of_ne hj, Function.update_of_ne hk] at busy busy' heq ⊢
          exact h.filed.shared j k hjk busy busy' heq
  · intro j
    by_cases hj : j = i
    · subst hj
      constructor
      · intro _
        refine ⟨starts labels j, ?_, ?_⟩
        · rw [starts_start]
          simp [Process.start]
        · cases howes : (w.workers j).owes with
          | none => exact absurd (busy_of_owes howes) idle
          | some ret => exact ((h.answered j).settled ret howes).1
      · intro ret hret
        simp [Worker.owes, Process.start, Pc.owes] at hret
    · apply answered_congr (h.answered j)
      · simp [Function.update_of_ne hj]
      · simp [Function.update_of_ne hj]
      · exact starts_other _ hj
      · rfl
  · apply h.sequential.guarded.frame
    · intro j
      by_cases hj : j = i
      · subst hj
        simp [hnone]
      · simp [Function.update_of_ne hj]
    · intro j first hinside hbegins
      have hj : j ≠ i := by
        rintro rfl
        rw [hnone] at hinside
        cases hinside
      simpa [begins, Function.update_of_ne hj] using hbegins

variable [DecidableEq φ]

theorem linearized_step (h : Linearized mem labels w session) (hstep : Advances w label w')
    (allowed : w.Allowed label) : ∃ session', Linearized mem (labels ++ [label]) w' session' := by
  have orderly := advances_orderly h.orderly hstep allowed
  cases advances_cases h.orderly.sound hstep with
  | started i call file idle => exact ⟨session, linearized_started h idle allowed orderly⟩
  | went i choice pipe' sem' q' done took =>
    have others (j : ι) (hj : j ≠ i) := same_other (w := w) hj (w.workers i).process.waking q'
    have kept := took_kept (h.orderly.sound i) took
    have hself : Function.update
        (fun j => (w.workers j).woken (w.workers i).process.waking) i q' i = q' := by simp
    obtain ⟨committed', settled, guarded⟩ :=
      guarded_went h.orderly h.sequential.guarded took _ hself others
    obtain ⟨session', sequential⟩ := sequential_went sem' h.filed h.sequential settled guarded
    refine ⟨session', orderly, filed_went h.filed settled kept hself others rfl, ?_, sequential⟩
    intro j
    by_cases hj : j = i
    · subst hj
      exact answered_went (h.answered j) settled kept.1 hself rfl choice
    · apply answered_congr (h.answered j)
      · rw [Worker.owes, (others j hj).pc, (others j hj).call, Worker.owes]
      · exact (others j hj).call
      · exact starts_go choice
      · exact answers_other w.history hj

theorem run_linearized {file : φ}
    (run : Run (While System.Allowed Advances) (.init size mem file) labels w) :
    ∃ session, Linearized mem labels w session :=
  run.invariant (fun labels w => ∃ session, Linearized mem labels w session)
    ⟨_, linearized_init mem file⟩ fun _ _ _ _ _ ⟨_, h⟩ hstep =>
      linearized_step h hstep.2 hstep.1

omit [DecidableEq φ] in
theorem settled_outside (h : Linearized mem labels w session)
    (outside : ∀ i, (w.workers i).process.pc.inside = false) : w.pipe = session.pipe := by
  apply h.sequential.guarded.settled
  intro i
  rw [← Option.not_isSome_iff_eq_none, (h.orderly.sound i).inside]
  intro hpc
  have hi := outside i
  rw [hpc] at hi
  cases hi

/-- Every run is one of sections after each other: they make the device what it is
whenever nobody is between `down` and `up`, each call has run exactly one section that
settles its result since it began, and returns what that section replies. -/
theorem linearizable {file : φ}
    (run : Run (While System.Allowed Advances) (.init size mem file) labels w) :
    (∀ i j, (w.workers i).process.pc.inside = true → (w.workers j).process.pc.inside = true →
      i = j) ∧
      ∃ session, Run Step (.init size mem) (w.history.map Prod.snd) session ∧
        session.files.Perm (w.files.map Prod.snd) ∧
        ((∀ i, (w.workers i).process.pc.inside = false) → w.pipe = session.pipe) ∧
        ∀ i, Answered labels w i := by
  obtain ⟨session, h⟩ := run_linearized run
  exact ⟨fun i j => h.orderly.exclusive.alone, session, h.sequential.run, h.sequential.files,
    settled_outside h, h.answered⟩

/-- Whatever the interleaving, the bytes that reads returned and those the buffer holds
are the bytes that writes returned for, in the order of the sections. -/
theorem interleaved_fifo (htwo : 2 ≤ size) (hint : size < 2147483648) {file : φ}
    (run : Run (While System.Allowed Advances) (.init size mem file) labels w)
    (calm : ∀ i, (w.workers i).process.pc.inside = false) (live : w.pipe.dev.buffer ≠ 0) :
    (traffic (w.history.map Prod.snd)).accepted =
      (traffic (w.history.map Prod.snd)).delivered ++ w.pipe.stored size ∧
      (w.pipe.stored size).length < size := by
  obtain ⟨session, h⟩ := run_linearized run
  have hpipe := settled_outside h calm
  rw [hpipe] at live ⊢
  have queued := run_queued htwo hint h.sequential.run
  have inside := queued.inside live
  refine ⟨queued.balance live, ?_⟩
  rw [Backed.stored, Ring.length_contents]
  have hheld := Ring.held_lt (first_lt inside) (last_lt inside)
  omega

end Runs

/-- Process `false` opens the device and writes a byte, which `true` reads while the
writer has yet to wake the readers. -/
def shareSteps : List (Bool × Act 4 Unit) :=
  let go (i : Bool) (n : Nat) : List (Bool × Act 4 Unit) :=
    List.replicate n (i, .go ⟨false, false, 4, some freshFour⟩)
  [(false, .start (.scullPOpen ⟨true, true⟩) ())] ++ go false 12 ++
    [(false, .start (.scullPWrite 0 [7]) ()), (true, .start (.scullPRead 0 4) ())] ++
    go false 8 ++ go true 7 ++ go false 1 ++ go true 1

theorem share_run : ∃ w, Run (While System.Allowed Advances)
    (.init 4 (fun _ => 0) () : System 4 Bool Unit) shareSteps w ∧
      (∀ i, (w.workers i).process.pc = .returned 1) ∧ w.pipe.dev.buffer = 16 := by
  have possible : ((shareSteps.foldlM (fun (w : System 4 Bool Unit) label =>
      if w.Allowed label then w.step label.1 label.2 else none) (.init 4 (fun _ => 0) ())).any
      fun w => (∀ i, (w.workers i).process.pc = .returned 1) && w.pipe.dev.buffer = 16) = true := by
    decide +kernel
  obtain ⟨w, hw, run⟩ := Run.of_any possible
  simp only [Bool.and_eq_true, decide_eq_true_eq] at hw
  exact ⟨w, run.checked, hw⟩

theorem linearizable_share : ∃ (w : System 4 Bool Unit) (session : Session),
    Run Step (.init 4 fun _ => 0) (w.history.map Prod.snd) session ∧ w.pipe = session.pipe ∧
      (w.workers true).process.pc = .returned 1 := by
  obtain ⟨w, run, hpc, -⟩ := share_run
  obtain ⟨-, session, hrun, -, hpipe, -⟩ := linearizable run
  exact ⟨w, session, hrun, hpipe fun i => by rw [hpc i]; rfl, hpc true⟩

theorem interleaved_fifo_share : ∃ w : System 4 Bool Unit, w.pipe.dev.buffer = 16 ∧
    (traffic (w.history.map Prod.snd)).accepted =
      (traffic (w.history.map Prod.snd)).delivered ++ w.pipe.stored 4 := by
  obtain ⟨w, run, hpc, hbuffer⟩ := share_run
  have hfifo := interleaved_fifo (by decide) (by decide) run (fun i => by rw [hpc i]; rfl)
    (by rw [hbuffer]; decide)
  exact ⟨w, hbuffer, hfifo.1⟩

end MyDrivers.Pipe
