import Mathlib.Data.Fintype.Basic
import Mathlib.Logic.Function.Basic
import MyDrivers.Lib.Runs
import MyDrivers.Misc.Buffers

/-! The reads of `jitimer`, or those of `jitasklet` and `jitasklethi`, which share their
data, with the callbacks of the timer or tasklet and with signals. A signal ends the wait of
a read, and the callbacks go on. -/
namespace MyDrivers.Misc.Timer
open Lib Lib.Format Lib.Machine
open Store (EFAULT)

/-- How a read begins: `jit_timer` reads the clock, `jit_tasklet` also prints a line. -/
inductive Start where
  | jitTimer (start : UInt64)
  | jitTasklet (first : Seen)

def Start.clock : Start → UInt64
  | .jitTimer start => start
  | .jitTasklet first => first.jiffies

def Start.text : Start → List Char
  | .jitTimer _ => sprintf jitHeader
  | .jitTasklet first => sprintf jitHeader ++ sprintf (jitLine first.jiffies first)

/-- Where a read stands: `waiting` in `wait_event_interruptible`, and `measured` before
`copy_to_user`. -/
inductive Pc where
  | entry
  | waiting
  | resumed
  | measured (len : Nat)
  | returned (ret : Int)
  deriving DecidableEq

/-- A read. `live` tells whether its `sbuf` is allocated, `text` what was printed there,
`out` what the user got, and `signalled` whether a signal has ended the wait. -/
structure Reader where
  request : Request
  pc : Pc
  live : Bool
  text : List Char
  signalled : Bool
  out : List Char

/-- `jitimer_data` or `jitasklet_data`; `buf` points into the `sbuf` of that read. -/
structure World (ι : Type) where
  leftLoops : UInt32
  prevjiffies : UInt64
  buf : Option ι
  pending : Bool
  readers : ι → Reader
  /-- A callback has printed into a buffer that was free. -/
  strayed : Bool

inductive Label (ι : Type) where
  | enter (r : ι) (start : Start)
  | fire (seen : Seen)
  | resume (r : ι) (signal : Bool)
  | measure (r : ι)
  | copy (r : ι)

variable {ι : Type} [DecidableEq ι]

def World.modify (w : World ι) (r : ι) (f : Reader → Reader) : World ι :=
  { w with readers := Function.update w.readers r (f (w.readers r)) }

/-- `sbuf` is freed only when the copy fails. -/
def Reader.copyToUser (reader : Reader) (len : Nat) : Reader :=
  if reader.request.accessible < len then
    { reader with
      pc := .returned (-EFAULT), live := false, out := reader.text.take reader.request.accessible }
  else { reader with pc := .returned len, out := reader.text.take len }

/-- The callbacks of the timer and of the tasklet are one and the same. -/
def World.fire (w : World ι) (r : ι) (seen : Seen) : World ι :=
  let (data, again) := jitTimerFn ⟨w.leftLoops, w.prevjiffies, (w.readers r).text⟩ seen
  { w with
    leftLoops := data.leftLoops
    prevjiffies := data.prevjiffies
    pending := again
    strayed := w.strayed || !(w.readers r).live }.modify r fun reader =>
      { reader with text := data.text }

def World.step (w : World ι) : Label ι → Option (World ι)
  | .enter r start =>
      if (w.readers r).pc ≠ .entry then none
      else if (w.readers r).request.kmalloc then
        some ({ w with
          leftLoops := 10, prevjiffies := start.clock, buf := some r, pending := true }.modify r
            fun reader => { reader with pc := .waiting, live := true, text := start.text })
      else some (w.modify r fun reader => { reader with pc := .returned 0 })
  | .fire seen => if w.pending then w.buf.map fun r => w.fire r seen else none
  | .resume r signal =>
      if (w.readers r).pc = .waiting ∧ (w.leftLoops = 0 ∨ signal) then
        some (w.modify r fun reader =>
          { reader with pc := .resumed, signalled := w.leftLoops ≠ 0 })
      else none
  | .measure r =>
      if (w.readers r).pc = .resumed then
        some (w.modify r fun reader =>
          { reader with pc := .measured (strlen (reader.text ++ '\x00' :: reader.request.junk)) })
      else none
  | .copy r =>
      match (w.readers r).pc with
      | .measured len => some (w.modify r fun reader => reader.copyToUser len)
      | _ => none

def Moves (w : World ι) (label : Label ι) (w' : World ι) : Prop :=
  w.step label = some w'

/-- A read sets up the timer and the wait queue when neither is in use. -/
def Orderly (w : World ι) (label : Label ι) : Prop :=
  match label with
  | .enter _ _ => w.pending = false ∧ ∀ r, (w.readers r).pc ≠ .waiting
  | _ => True

instance [Fintype ι] (w : World ι) (label : Label ι) : Decidable (Orderly w label) :=
  match label with
  | .enter _ _ => inferInstanceAs (Decidable (_ ∧ ∀ r, (w.readers r).pc ≠ .waiting))
  | .fire _ => isTrue trivial
  | .resume _ _ => isTrue trivial
  | .measure _ => isTrue trivial
  | .copy _ => isTrue trivial

def World.init (requests : ι → Request) : World ι :=
  ⟨0, 0, none, false, fun r => ⟨requests r, .entry, false, [], false, []⟩, false⟩

/-! ## The text -/

def linesOf (prev : UInt64) : List Seen → List Char
  | [] => []
  | seen :: rest => sprintf (jitLine prev seen) ++ linesOf seen.jiffies rest

def lastClock (prev : UInt64) (seen : List Seen) : UInt64 := (seen.getLast?.map Seen.jiffies).getD prev

def told (start : Start) (seen : List Seen) : List Char := start.text ++ linesOf start.clock seen

theorem lastClock_snoc (prev : UInt64) (earlier : List Seen) (seen : Seen) :
    lastClock prev (earlier ++ [seen]) = seen.jiffies := by
  simp [lastClock]

theorem lastClock_cons (prev : UInt64) (seen : Seen) (rest : List Seen) :
    lastClock prev (seen :: rest) = lastClock seen.jiffies rest := by
  unfold lastClock
  rw [List.getLast?_cons]
  cases rest.getLast? with
  | none => rfl
  | some last => rfl

theorem linesOf_snoc (prev : UInt64) (earlier : List Seen) (seen : Seen) :
    linesOf prev (earlier ++ [seen]) =
      linesOf prev earlier ++ sprintf (jitLine (lastClock prev earlier) seen) := by
  induction earlier generalizing prev with
  | nil => simp [linesOf, lastClock]
  | cons first rest ih =>
    rw [List.cons_append, linesOf, linesOf, ih, lastClock_cons, List.append_assoc]

theorem told_snoc (start : Start) (earlier : List Seen) (seen : Seen) :
    told start (earlier ++ [seen]) =
      told start earlier ++ sprintf (jitLine (lastClock start.clock earlier) seen) := by
  rw [told, told, linesOf_snoc, List.append_assoc]

theorem unended_linesOf (prev : UInt64) (seen : List Seen) : Unended (linesOf prev seen) := by
  induction seen generalizing prev with
  | nil => exact fun _ h => absurd h (List.not_mem_nil)
  | cons first rest ih => exact unended_append (unended_sprintf (jitLine_unended prev first)) (ih _)

theorem unended_told (start : Start) (seen : List Seen) : Unended (told start seen) := by
  apply unended_append _ (unended_linesOf _ _)
  cases start with
  | jitTimer start => exact unended_sprintf jitHeader_unended
  | jitTasklet first =>
    exact unended_append (unended_sprintf jitHeader_unended) (unended_sprintf (jitLine_unended _ _))

/-! ## What holds in every state -/

/-- Ten callbacks tell a read what it prints, fewer when a signal has ended its wait. -/
def Reader.Told (reader : Reader) (text : List Char) : Prop :=
  ∃ start seen, text = told start seen ∧ seen.length ≤ 10 ∧
    (reader.signalled = false → seen.length = 10)

inductive Reader.Ended (reader : Reader) : Int → Prop
  | unallocated : reader.request.kmalloc = false → reader.live = false → reader.Ended 0
  | fault : reader.request.kmalloc = true → reader.live = false → reader.Ended (-EFAULT)
  | given : reader.request.kmalloc = true → reader.live = true → reader.Told reader.out →
      reader.Ended reader.out.length

def Reader.Stands (reader : Reader) : Pc → Prop
  | .entry => reader.live = false
  | .waiting => reader.request.kmalloc = true ∧ reader.live = true
  | .resumed => (reader.request.kmalloc = true ∧ reader.live = true) ∧ reader.Told reader.text
  | .measured len => (reader.request.kmalloc = true ∧ reader.live = true) ∧
      ∃ text rest, reader.text = text ++ rest ∧ reader.Told text ∧ len = text.length
  | .returned ret => reader.Ended ret

theorem stands_live {reader : Reader} (h : reader.Stands reader.pc) :
    reader.live = true ↔
      reader.request.kmalloc = true ∧ reader.pc ≠ .entry ∧ reader.pc ≠ .returned (-EFAULT) := by
  cases hpc : reader.pc with
  | entry =>
    rw [hpc] at h
    simp [show reader.live = false from h]
  | waiting =>
    rw [hpc] at h
    simp [h.1, h.2]
  | resumed =>
    rw [hpc] at h
    simp [h.1.1, h.1.2]
  | measured len =>
    rw [hpc] at h
    simp [h.1.1, h.1.2]
  | returned ret =>
    rw [hpc] at h
    cases h with
    | unallocated hnone hfree => simp [hnone, hfree]
    | fault hkmalloc hfree => simp [hfree]
    | given hkmalloc hlive _ =>
      have hne : (reader.out.length : Int) ≠ -EFAULT := by
        unfold EFAULT
        omega
      simp [hkmalloc, hlive, hne]

structure Current (w : World ι) (reader : Reader) : Prop where
  allocated : reader.request.kmalloc = true
  begun : reader.pc ≠ .entry
  pending : w.pending = true ↔ 0 < w.leftLoops.toNat
  finished : reader.pc ≠ .waiting → reader.signalled = false → w.leftLoops.toNat = 0
  printed : ∃ start seen, reader.text = told start seen ∧ w.leftLoops.toNat + seen.length = 10 ∧
    (w.pending = true → w.prevjiffies = lastClock start.clock seen)

structure Sound (w : World ι) : Prop where
  stands : ∀ r, (w.readers r).Stands (w.readers r).pc
  current : ∀ r, w.buf = some r → Current w (w.readers r)
  waits : ∀ r, (w.readers r).pc = .waiting → w.buf = some r
  strays : w.strayed = true →
    ∃ r, (w.readers r).signalled = true ∧ (w.readers r).pc = .returned (-EFAULT)

variable {w w' : World ι} {r : ι}

section Current
variable {reader : Reader}

omit [DecidableEq ι] in
theorem Current.told (h : Current w reader) (hpast : reader.pc ≠ .waiting) :
    reader.Told reader.text := by
  obtain ⟨start, seen, htext, hcount, -⟩ := h.printed
  refine ⟨start, seen, htext, by omega, ?_⟩
  intro hsignalled
  have hzero := h.finished hpast hsignalled
  omega

omit [DecidableEq ι] in
theorem Current.strays (h : Current w reader) (hstands : reader.Stands reader.pc)
    (hpending : w.pending = true) (hfree : reader.live = false) :
    reader.signalled = true ∧ reader.pc = .returned (-EFAULT) := by
  have hleft := h.pending.mp hpending
  cases hpc : reader.pc with
  | entry => exact absurd hpc h.begun
  | returned ret =>
    have hpast : reader.pc ≠ .waiting := by simp [hpc]
    rw [hpc] at hstands
    have hsignalled : reader.signalled = true := by
      by_contra hnot
      have hzero := h.finished hpast (by simpa using hnot)
      omega
    cases hstands with
    | unallocated hnone _ => simp [h.allocated] at hnone
    | fault _ _ => exact ⟨hsignalled, rfl⟩
    | given _ hlive _ => simp [hfree] at hlive
  | waiting =>
    rw [hpc] at hstands
    simp [hstands.2] at hfree
  | resumed =>
    rw [hpc] at hstands
    simp [hstands.1.2] at hfree
  | measured len =>
    rw [hpc] at hstands
    simp [hstands.1.2] at hfree

end Current

theorem modify_same (f : Reader → Reader) : (w.modify r f).readers r = f (w.readers r) :=
  Function.update_self _ _ _

theorem modify_other {other : ι} (f : Reader → Reader) (hne : other ≠ r) :
    (w.modify r f).readers other = w.readers other :=
  Function.update_of_ne hne _ _

omit [DecidableEq ι] in
theorem sound_init (requests : ι → Request) : Sound (World.init requests) where
  stands _ := rfl
  current r hbuf := by cases hbuf
  waits r hwaiting := by cases hwaiting
  strays hstrayed := by cases hstrayed

theorem Sound.modify (h : Sound w) {f : Reader → Reader}
    (hstands : (f (w.readers r)).Stands (f (w.readers r)).pc)
    (hrequest : (f (w.readers r)).request = (w.readers r).request)
    (htext : (f (w.readers r)).text = (w.readers r).text)
    (hpast : (f (w.readers r)).pc ≠ .entry ∧ (f (w.readers r)).pc ≠ .waiting)
    (hfinished : w.buf = some r → (f (w.readers r)).signalled = false → w.leftLoops.toNat = 0)
    (hgoing : ∀ ret, (w.readers r).pc ≠ .returned ret) : Sound (w.modify r f) where
  stands other := by
    by_cases hother : other = r
    · subst hother
      rw [modify_same]
      exact hstands
    · rw [modify_other f hother]
      exact h.stands other
  current other hbuf := by
    have hcurrent := h.current other hbuf
    by_cases hother : other = r
    · subst hother
      rw [modify_same]
      refine ⟨?_, hpast.1, hcurrent.pending, fun _ => hfinished hbuf, ?_⟩
      · rw [hrequest]
        exact hcurrent.allocated
      · rw [htext]
        exact hcurrent.printed
    · rw [modify_other f hother]
      exact ⟨hcurrent.allocated, hcurrent.begun, hcurrent.pending, hcurrent.finished,
        hcurrent.printed⟩
  waits other hwaiting := by
    by_cases hother : other = r
    · subst hother
      rw [modify_same] at hwaiting
      exact absurd hwaiting hpast.2
    · rw [modify_other f hother] at hwaiting
      exact h.waits other hwaiting
  strays hstrayed := by
    obtain ⟨other, hsignalled, hpc⟩ := h.strays hstrayed
    have hother : other ≠ r := by
      rintro rfl
      exact hgoing _ hpc
    refine ⟨other, ?_⟩
    rw [modify_other f hother]
    exact ⟨hsignalled, hpc⟩

theorem sound_enter (h : Sound w) {start : Start} (hquiet : Orderly w (.enter r start))
    (hmove : w.step (.enter r start) = some w') : Sound w' := by
  have hentry : (w.readers r).pc = .entry := by
    by_contra hnot
    simp [World.step, hnot] at hmove
  have hfree : (w.readers r).live = false := by
    have hstands := h.stands r
    rwa [hentry] at hstands
  simp only [World.step, hentry, ne_eq, not_true_eq_false, if_false] at hmove
  split at hmove
  · next hkmalloc =>
    cases hmove
    constructor
    · intro other
      by_cases hother : other = r
      · subst hother
        rw [modify_same]
        exact ⟨hkmalloc, rfl⟩
      · rw [modify_other _ hother]
        exact h.stands other
    · intro other hbuf
      cases hbuf
      rw [modify_same]
      refine ⟨hkmalloc, by simp, ?_, fun hpast => absurd rfl hpast, start, [], ?_, rfl, fun _ => rfl⟩
      · exact ⟨fun _ => (by decide : 0 < (10 : UInt32).toNat), fun _ => rfl⟩
      · simp [told, linesOf]
    · intro other hwaiting
      by_cases hother : other = r
      · rw [hother]
        rfl
      · rw [modify_other _ hother] at hwaiting
        exact absurd hwaiting (hquiet.2 other)
    · intro hstrayed
      obtain ⟨other, hsignalled, hpc⟩ := h.strays hstrayed
      have hother : other ≠ r := by
        rintro rfl
        simp [hentry] at hpc
      refine ⟨other, ?_⟩
      rw [modify_other _ hother]
      exact ⟨hsignalled, hpc⟩
  · next hkmalloc =>
    cases hmove
    have hnone : (w.readers r).request.kmalloc = false := by simpa using hkmalloc
    apply h.modify
    · exact .unallocated hnone hfree
    · rfl
    · rfl
    · simp
    · intro hbuf
      exact absurd hentry (h.current r hbuf).begun
    · simp [hentry]

theorem sound_resume (h : Sound w) {signal : Bool}
    (hmove : w.step (.resume r signal) = some w') : Sound w' := by
  simp only [World.step] at hmove
  split at hmove
  · next hcan =>
    cases hmove
    have hwaiting : (w.readers r).pc = .waiting := hcan.1
    have hcurrent := h.current r (h.waits r hwaiting)
    have hstands := h.stands r
    rw [hwaiting] at hstands
    have hzero (hnot : decide (w.leftLoops ≠ 0) = false) : w.leftLoops.toNat = 0 := by
      have heq : w.leftLoops = 0 := by simpa using hnot
      rw [heq]
      rfl
    apply h.modify
    · obtain ⟨start, seen, htext, hcount, -⟩ := hcurrent.printed
      refine ⟨hstands, start, seen, htext, by omega, ?_⟩
      intro hnot
      have hnone := hzero hnot
      omega
    · rfl
    · rfl
    · simp
    · exact fun _ hnot => hzero hnot
    · simp [hwaiting]
  · cases hmove

theorem sound_measure (h : Sound w) (hmove : w.step (.measure r) = some w') : Sound w' := by
  simp only [World.step] at hmove
  split at hmove
  · next hresumed =>
    cases hmove
    have hstands := h.stands r
    rw [hresumed] at hstands
    obtain ⟨hlive, htold⟩ := hstands
    apply h.modify
    · refine ⟨hlive, (w.readers r).text, [], (List.append_nil _).symm, htold, ?_⟩
      obtain ⟨start, seen, htext, -⟩ := htold
      apply strlen_eq
      rw [htext]
      exact unended_told start seen
    · rfl
    · rfl
    · simp
    · intro hbuf
      exact (h.current r hbuf).finished (by simp [hresumed])
    · simp [hresumed]
  · cases hmove

theorem copyToUser_keeps (reader : Reader) (len : Nat) :
    (reader.copyToUser len).request = reader.request ∧
      (reader.copyToUser len).text = reader.text ∧
      (reader.copyToUser len).signalled = reader.signalled ∧
      ∃ ret, (reader.copyToUser len).pc = .returned ret := by
  unfold Reader.copyToUser
  split
  · exact ⟨rfl, rfl, rfl, _, rfl⟩
  · exact ⟨rfl, rfl, rfl, _, rfl⟩

theorem copyToUser_stands {reader : Reader} {len : Nat} (h : reader.Stands (.measured len)) :
    (reader.copyToUser len).Stands (reader.copyToUser len).pc := by
  obtain ⟨⟨hkmalloc, hlive⟩, text, rest, htext, htold, hlen⟩ := h
  have hout : reader.text.take len = text := by rw [htext, hlen, List.take_left]
  unfold Reader.copyToUser
  split
  · exact .fault hkmalloc rfl
  · rw [hout, hlen]
    exact .given hkmalloc hlive htold

theorem sound_copy (h : Sound w) (hmove : w.step (.copy r) = some w') : Sound w' := by
  simp only [World.step] at hmove
  split at hmove
  · next len hmeasured =>
    cases hmove
    have hstands := h.stands r
    rw [hmeasured] at hstands
    obtain ⟨hrequest, htext, hsignalled, ret, hret⟩ := copyToUser_keeps (w.readers r) len
    apply h.modify
    · exact copyToUser_stands hstands
    · exact hrequest
    · exact htext
    · simp [hret]
    · intro hbuf
      rw [hsignalled]
      exact (h.current r hbuf).finished (by simp [hmeasured])
    · simp [hmeasured]
  · cases hmove

theorem fire_same (w : World ι) (r : ι) (seen : Seen) :
    (w.fire r seen).readers r =
      { w.readers r with
        text := (jitTimerFn ⟨w.leftLoops, w.prevjiffies, (w.readers r).text⟩ seen).1.text } := by
  unfold World.fire
  exact modify_same _

theorem fire_other {other : ι} (seen : Seen) (hne : other ≠ r) :
    (w.fire r seen).readers other = w.readers other := by
  unfold World.fire
  exact modify_other _ hne

theorem Current.fire (h : Current w (w.readers r)) (hpending : w.pending = true) (seen : Seen) :
    Current (w.fire r seen) ((w.fire r seen).readers r) := by
  have hleft := h.pending.mp hpending
  obtain ⟨start, earlier, htext, hcount, hclock⟩ := h.printed
  let data : JitData := ⟨w.leftLoops, w.prevjiffies, (w.readers r).text⟩
  have hprints : (jitTimerFn data seen).1.text = Timer.told start (earlier ++ [seen]) := by
    rw [counts_jitTimerFn.prints, told_snoc, ← htext, ← hclock hpending]
  have hcounts : (jitTimerFn data seen).1.leftLoops.toNat = w.leftLoops.toNat - 1 :=
    counts_jitTimerFn.counts data seen hleft
  have hagain : (jitTimerFn data seen).2 = true ↔ 1 < w.leftLoops.toNat :=
    counts_jitTimerFn.again data seen hleft
  have hloops : (w.fire r seen).leftLoops = (jitTimerFn data seen).1.leftLoops := rfl
  have hrearmed : (w.fire r seen).pending = (jitTimerFn data seen).2 := rfl
  rw [fire_same]
  refine ⟨h.allocated, h.begun, ?_, ?_, start, earlier ++ [seen], hprints, ?_, ?_⟩
  · rw [hloops, hrearmed, hagain, hcounts]
    omega
  · intro hpast hsignalled
    have hzero := h.finished hpast hsignalled
    omega
  · rw [hloops, hcounts, List.length_append, List.length_singleton]
    omega
  · rw [lastClock_snoc]
    exact counts_jitTimerFn.clock data seen

omit [DecidableEq ι] in
theorem Current.keeps {reader : Reader} {line : List Char} (hstands : reader.Stands reader.pc)
    (hfired : Current w { reader with text := reader.text ++ line }) :
    Reader.Stands { reader with text := reader.text ++ line } reader.pc := by
  cases hpc : reader.pc with
  | entry =>
    rw [hpc] at hstands
    exact hstands
  | waiting =>
    rw [hpc] at hstands
    exact hstands
  | resumed =>
    rw [hpc] at hstands
    exact ⟨hstands.1, hfired.told (by simp [hpc])⟩
  | measured len =>
    rw [hpc] at hstands
    obtain ⟨hlive, text, rest, htext, htold, hlen⟩ := hstands
    exact ⟨hlive, text, rest ++ line, by rw [htext, List.append_assoc], htold, hlen⟩
  | returned ret =>
    rw [hpc] at hstands
    cases hstands with
    | unallocated hnone hfree => exact .unallocated hnone hfree
    | fault hkmalloc hfree => exact .fault hkmalloc hfree
    | given hkmalloc hlive htold => exact .given hkmalloc hlive htold

theorem sound_fire (h : Sound w) {seen : Seen} (hmove : w.step (.fire seen) = some w') :
    Sound w' := by
  simp only [World.step] at hmove
  split at hmove
  · next hpending =>
    obtain ⟨r, hbuf, hfire⟩ := Option.map_eq_some_iff.mp hmove
    subst hfire
    have hcurrent := h.current r hbuf
    have hfired := hcurrent.fire hpending seen
    obtain ⟨line, hsame⟩ : ∃ line, (w.fire r seen).readers r =
        { w.readers r with text := (w.readers r).text ++ line } :=
      ⟨_, (fire_same w r seen).trans (by rw [counts_jitTimerFn.prints])⟩
    have hplace (other : ι) : ((w.fire r seen).readers other).pc = (w.readers other).pc ∧
        ((w.fire r seen).readers other).signalled = (w.readers other).signalled := by
      by_cases hne : other = r
      · rw [hne, hsame]
        exact ⟨rfl, rfl⟩
      · rw [fire_other seen hne]
        exact ⟨rfl, rfl⟩
    constructor
    · intro other
      by_cases hne : other = r
      · rw [hsame] at hfired
        rw [hne, hsame]
        exact hfired.keeps (h.stands r)
      · rw [fire_other seen hne]
        exact h.stands other
    · intro other hcalled
      cases hbuf.symm.trans hcalled
      exact hfired
    · intro other hwaiting
      rw [(hplace other).1] at hwaiting
      exact h.waits other hwaiting
    · intro hstrayed
      have hcases : w.strayed = true ∨ (w.readers r).live = false := by
        simpa [World.fire, World.modify] using hstrayed
      obtain ⟨other, hsignalled, hpc⟩ : ∃ other, (w.readers other).signalled = true ∧
          (w.readers other).pc = .returned (-EFAULT) :=
        hcases.elim h.strays fun hfree => ⟨r, hcurrent.strays (h.stands r) hpending hfree⟩
      exact ⟨other, (hplace other).2.trans hsignalled, (hplace other).1.trans hpc⟩
  · cases hmove

theorem sound_moves (h : Sound w) {label : Label ι} (hmove : While Orderly Moves w label w') :
    Sound w' := by
  cases label with
  | enter r start => exact sound_enter h hmove.1 hmove.2
  | fire seen => exact sound_fire h hmove.2
  | resume r signal => exact sound_resume h hmove.2
  | measure r => exact sound_measure h hmove.2
  | copy r => exact sound_copy h hmove.2

/-- A read without a signal gives the header and ten lines, or fails. Its buffer is freed
only when it fails, and a callback prints into a free buffer only after a signal has ended
the wait of a read that then failed. -/
theorem timer_reads (requests : ι → Request) {labels : List (Label ι)}
    (run : Run (While Orderly Moves) (.init requests) labels w) :
    (∀ r ret, (w.readers r).pc = .returned ret → (w.readers r).Ended ret) ∧
      (∀ r, (w.readers r).live = true ↔ (w.readers r).request.kmalloc = true ∧
        (w.readers r).pc ≠ .entry ∧ (w.readers r).pc ≠ .returned (-EFAULT)) ∧
      (w.strayed = true →
        ∃ r, (w.readers r).signalled = true ∧ (w.readers r).pc = .returned (-EFAULT)) := by
  have hsound : Sound w :=
    run.invariant (fun _ => Sound) (sound_init requests) fun _ _ _ _ _ h hmove => sound_moves h hmove
  refine ⟨?_, ?_, hsound.strays⟩
  · intro r ret hreturned
    have hstands := hsound.stands r
    rwa [hreturned] at hstands
  · intro r
    exact stands_live (hsound.stands r)

def swapper : Seen := ⟨110, true, 0, 0, ⟨"swapper/0".toList, by decide, by simp [Unended]⟩⟩

/-- A signal after the first callback, and a buffer of the user that is too short. -/
theorem timer_reads_strayed : ∃ w : World (Fin 1),
    Run (While Orderly Moves) (.init fun _ => ⟨true, 4096, 0, 10, []⟩)
      [.enter 0 (.jitTimer 100), .fire swapper, .resume 0 true, .measure 0, .copy 0,
        .fire swapper] w ∧
    w.strayed = true ∧
      ∃ r, (w.readers r).signalled = true ∧ (w.readers r).pc = .returned (-EFAULT) := by
  have hpossible : (([.enter 0 (.jitTimer 100), .fire swapper, .resume 0 true, .measure 0, .copy 0,
      .fire swapper].foldlM (fun (w : World (Fin 1)) label =>
        if Orderly w label then w.step label else none)
          (.init fun _ => ⟨true, 4096, 0, 10, []⟩)).any fun w => w.strayed) = true := by
    decide +kernel
  obtain ⟨w, hstrayed, hrun⟩ := Run.of_any hpossible
  exact ⟨w, hrun.checked, hstrayed, (timer_reads _ hrun.checked).2.2 hstrayed⟩

end MyDrivers.Misc.Timer
