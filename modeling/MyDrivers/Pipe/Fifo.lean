import MyDrivers.Pipe.Sections

/-! The pipe as a queue of bytes. While the buffer is allocated it is a ring
with one slot left free, and what it stores is what the writes since the
allocation put in less what the reads took out. -/
namespace MyDrivers.Pipe
open Lib Lib.Machine
open Store (Byte copyFromUser length_copyFromUser EAGAIN ENOMEM EFAULT ERESTARTSYS O_NONBLOCK)

variable {size : Nat}

structure ScullPipe.InBuffer (size : Nat) (dev : ScullPipe) : Prop where
  endp : dev.endp = dev.buffer + size
  rp : dev.buffer ≤ dev.rp ∧ dev.rp < dev.endp
  wp : dev.buffer ≤ dev.wp ∧ dev.wp < dev.endp

def ScullPipe.first (dev : ScullPipe) : Nat := dev.rp - dev.buffer

def ScullPipe.last (dev : ScullPipe) : Nat := dev.wp - dev.buffer

def Backed.cell (pipe : Backed) (k : Nat) : Byte := pipe.mem (pipe.dev.buffer + k)

/-- The bytes stored cyclically from `rp` up to `wp`. -/
def Backed.stored (size : Nat) (pipe : Backed) : List Byte :=
  Ring.contents pipe.cell size pipe.dev.first pipe.dev.last

def Reply.moved (reply : Reply) : Nat :=
  match reply.ret with
  | some ret => ret.toNat
  | none => 0

/-- What went through the pipe since its buffer was allocated. -/
structure Traffic where
  accepted : List Byte
  delivered : List Byte

def Traffic.after (traffic : Traffic) (done : Section size × Reply) : Traffic :=
  match done.1 with
  | .scullPOpen _ _ _ => if done.2.alloc.isSome then ⟨[], []⟩ else traffic
  | .scullPRelease _ _ => traffic
  | .scullPRead _ _ _ _ =>
      { traffic with delivered := traffic.delivered ++ done.2.bytes.take done.2.moved }
  | .scullPWrite _ buff _ _ =>
      { traffic with accepted := traffic.accepted ++ buff.take done.2.moved }

def traffic (labels : List (Section size × Reply)) : Traffic :=
  labels.foldl Traffic.after ⟨[], []⟩

def Section.count : Section size → Nat
  | .scullPRead _ count _ _ => count
  | .scullPWrite _ buff _ _ => buff.length
  | .scullPOpen _ _ _ => 0
  | .scullPRelease _ _ => 0

def Reply.Failed (reply : Reply) : Prop := ∀ ret, reply.ret = some ret → ret < 0

@[simp] theorem traffic_snoc (labels : List (Section size × Reply)) (done : Section size × Reply) :
    traffic (labels ++ [done]) = (traffic labels).after done := by
  simp [traffic]

theorem moved_returns {n : Nat} (h : n < 9223372036854775808) :
    (Reply.returns (int64 n)).moved = n := by
  have hn : int64 (n : Int) = n := int64_eq_self (by omega) (by omega)
  simp [Reply.moved, Reply.returns, hn]

theorem moved_failed {reply : Reply} (failed : reply.Failed) : reply.moved = 0 := by
  unfold Reply.moved
  cases hret : reply.ret with
  | none => rfl
  | some ret =>
    have := failed ret hret
    simp only
    omega

theorem int64_of_nonneg {n : Nat} (hn : n < 18446744073709551616) (hret : 0 ≤ int64 (n : Int)) :
    int64 (n : Int) = n := by
  by_cases hsmall : n < 9223372036854775808
  · exact int64_eq_self (by omega) (by omega)
  · have := int64_overflow (x := n) (by omega) (by omega)
    omega

/-! ## The pointers of an allocated buffer -/

section Pointers
variable {dev : ScullPipe}

theorem first_lt (inside : dev.InBuffer size) : dev.first < size := by
  have := inside.endp
  have := inside.rp
  unfold ScullPipe.first
  omega

theorem last_lt (inside : dev.InBuffer size) : dev.last < size := by
  have := inside.endp
  have := inside.wp
  unfold ScullPipe.last
  omega

/-- The two branches and the remainder of `spacefree` count the free slots but one. -/
theorem spacefree_eq (htwo : 2 ≤ size) (hint : size < 2147483648)
    (capacity : dev.buffersize = size) (inside : dev.InBuffer size) :
    spacefree dev = (size : Int) - 1 - Ring.held size dev.first dev.last := by
  obtain ⟨hend, ⟨hrpLow, hrpHigh⟩, hwpLow, hwpHigh⟩ := inside
  unfold spacefree Ring.held ScullPipe.first ScullPipe.last
  rw [capacity]
  by_cases hempty : dev.wp = dev.rp
  · rw [if_pos hempty, hempty, if_pos (le_refl _), int32_eq_self (by omega) (by omega)]
    omega
  · rw [if_neg hempty, Int.tmod_eq_emod_of_nonneg (by omega)]
    by_cases horder : dev.rp < dev.wp
    · rw [Int.emod_eq_of_lt (by omega) (by omega), if_pos (by omega),
        int32_eq_self (by omega) (by omega)]
      omega
    · have hwrap : (dev.rp : Int) + size - dev.wp = (dev.rp - dev.wp) + size := by omega
      rw [hwrap, Int.add_emod_right, Int.emod_eq_of_lt (by omega) (by omega),
        if_neg (by omega), int32_eq_self (by omega) (by omega)]
      omega

theorem ahead_le (inside : dev.InBuffer size) (hdata : dev.rp ≠ dev.wp) :
    dev.ahead ≤ Ring.held size dev.first dev.last ∧ dev.first + dev.ahead ≤ size := by
  obtain ⟨hend, ⟨hrpLow, hrpHigh⟩, hwpLow, hwpHigh⟩ := inside
  unfold ScullPipe.ahead Ring.held ScullPipe.first ScullPipe.last
  split <;> split <;> omega

theorem gap_le (inside : dev.InBuffer size) : dev.last + dev.gap ≤ size := by
  obtain ⟨hend, ⟨hrpLow, hrpHigh⟩, hwpLow, hwpHigh⟩ := inside
  unfold ScullPipe.gap ScullPipe.last
  split <;> omega

theorem writeCount_room (htwo : 2 ≤ size) (hint : size < 2147483648)
    (capacity : dev.buffersize = size) (inside : dev.InBuffer size) (aimed : dev.Aimed)
    (count : Nat) :
    Ring.held size dev.first dev.last + writeCount dev count < size ∧
      dev.last + writeCount dev count ≤ size := by
  have hheld := Ring.held_lt (first_lt inside) (last_lt inside)
  have hgap := gap_le inside
  have hspace := spacefree_eq htwo hint capacity inside
  rw [writeCount_eq aimed, hspace, clamp_eq (by omega) (by omega)]
  omega

theorem advanceRp_first (inside : dev.InBuffer size) {n : Nat} (flat : dev.first + n ≤ size) :
    (dev.advanceRp n).first = Ring.slot size dev.first n := by
  obtain ⟨hend, ⟨hrpLow, hrpHigh⟩, hwpLow, hwpHigh⟩ := inside
  unfold ScullPipe.first at flat ⊢
  unfold ScullPipe.advanceRp
  simp only
  by_cases hwrap : dev.rp + n = dev.endp
  · rw [if_pos hwrap, Ring.slot_of_eq (by omega)]
    omega
  · rw [if_neg hwrap, Ring.slot_of_lt (by omega)]
    omega

theorem advanceWp_last (inside : dev.InBuffer size) {n : Nat} (flat : dev.last + n ≤ size) :
    (dev.advanceWp n).last = Ring.slot size dev.last n := by
  obtain ⟨hend, ⟨hrpLow, hrpHigh⟩, hwpLow, hwpHigh⟩ := inside
  unfold ScullPipe.last at flat ⊢
  unfold ScullPipe.advanceWp
  simp only
  by_cases hwrap : dev.wp + n = dev.endp
  · rw [if_pos hwrap, Ring.slot_of_eq (by omega)]
    omega
  · rw [if_neg hwrap, Ring.slot_of_lt (by omega)]
    omega

theorem inBuffer_advanceRp (inside : dev.InBuffer size) {n : Nat} (flat : dev.first + n ≤ size) :
    (dev.advanceRp n).InBuffer size := by
  obtain ⟨hend, hrp, hwp⟩ := inside
  unfold ScullPipe.first at flat
  refine ⟨hend, ?_, hwp⟩
  unfold ScullPipe.advanceRp
  simp only
  split <;> omega

theorem inBuffer_advanceWp (inside : dev.InBuffer size) {n : Nat} (flat : dev.last + n ≤ size) :
    (dev.advanceWp n).InBuffer size := by
  obtain ⟨hend, hrp, hwp⟩ := inside
  unfold ScullPipe.last at flat
  refine ⟨hend, hrp, ?_⟩
  unfold ScullPipe.advanceWp
  simp only
  split <;> omega

end Pointers

/-! ## What one section does to the stored bytes -/

section Stored
variable {pipe : Backed}

theorem stored_read (inside : pipe.dev.InBuffer size) (aimed : pipe.dev.Aimed)
    (hdata : pipe.dev.rp ≠ pipe.dev.wp) (count : Nat) :
    pipe.stored size =
      ((List.range (readCount pipe.dev count)).map fun k => pipe.mem (pipe.dev.rp + k)) ++
        Backed.stored size ⟨pipe.dev.advanceRp (readCount pipe.dev count), pipe.mem⟩ := by
  have hahead := ahead_le inside hdata
  have hcount := readCount_eq aimed count
  generalize readCount pipe.dev count = n at hcount
  have hheld : n ≤ Ring.held size pipe.dev.first pipe.dev.last := by omega
  have hflat : pipe.dev.first + n ≤ size := by omega
  have hfirst := advanceRp_first inside hflat
  unfold Backed.stored
  rw [Ring.contents_advance (first_lt inside) (last_lt inside) hheld]
  congr 1
  · apply List.map_congr_left
    intro k hk
    have hk : k < n := List.mem_range.mp hk
    rw [Ring.slot_of_lt (show pipe.dev.first + k < size by omega)]
    have hrp : pipe.dev.buffer + (pipe.dev.first + k) = pipe.dev.rp + k := by
      have := inside.rp
      unfold ScullPipe.first
      omega
    simp only [Backed.cell, hrp]
  · change _ = Ring.contents pipe.cell size (pipe.dev.advanceRp n).first pipe.dev.last
    rw [hfirst]

theorem cell_paste (inside : pipe.dev.InBuffer size) (values : List Byte) :
    Backed.cell ⟨pipe.dev, Ring.paste pipe.mem pipe.dev.wp values⟩ =
      Ring.paste pipe.cell pipe.dev.last values := by
  have hwp : pipe.dev.wp = pipe.dev.buffer + pipe.dev.last := by
    have := inside.wp
    unfold ScullPipe.last
    omega
  funext k
  simp only [Backed.cell, hwp]
  exact Ring.paste_shift pipe.mem pipe.dev.buffer pipe.dev.last values k

variable (htwo : 2 ≤ size) (hint : size < 2147483648) (capacity : pipe.dev.buffersize = size)
  (inside : pipe.dev.InBuffer size) (aimed : pipe.dev.Aimed)
include htwo hint capacity inside aimed

theorem stored_writeFault (buff : List Byte) (accessible : Nat) :
    Backed.stored size ⟨pipe.dev, Ring.paste pipe.mem pipe.dev.wp
      (copyFromUser buff (writeCount pipe.dev buff.length) accessible)⟩ = pipe.stored size := by
  have hroom := writeCount_room htwo hint capacity inside aimed buff.length
  have hlength : (copyFromUser buff (writeCount pipe.dev buff.length) accessible).length = _ :=
    length_copyFromUser (writeCount_le pipe.dev buff.length)
  unfold Backed.stored
  rw [cell_paste inside]
  apply Ring.contents_paste (first_lt inside) (last_lt inside)
  · omega
  · show Ring.held size pipe.dev.first pipe.dev.last + _ < size
    omega

theorem stored_write (buff : List Byte) :
    Backed.stored size ⟨pipe.dev.advanceWp (writeCount pipe.dev buff.length),
        Ring.paste pipe.mem pipe.dev.wp (buff.take (writeCount pipe.dev buff.length))⟩ =
      pipe.stored size ++ buff.take (writeCount pipe.dev buff.length) := by
  have hroom := writeCount_room htwo hint capacity inside aimed buff.length
  have hle := writeCount_le pipe.dev buff.length
  generalize writeCount pipe.dev buff.length = n at hroom hle
  have hlength : (buff.take n).length = n := List.length_take_of_le hle
  have hlast := advanceWp_last inside hroom.2
  have happend : Ring.contents (Ring.paste pipe.cell pipe.dev.last (buff.take n)) size
      pipe.dev.first (Ring.slot size pipe.dev.last (buff.take n).length) =
        pipe.stored size ++ buff.take n :=
    Ring.contents_append (first_lt inside) (last_lt inside) (by omega) (by omega)
  rw [hlength, ← hlast, ← cell_paste inside] at happend
  exact happend

end Stored

/-! ## Runs -/

structure Queued (size : Nat) (labels : List (Section size × Reply)) (s : Session) : Prop where
  capacity : s.pipe.dev.buffersize = size
  aimed : s.files ≠ [] ∨ s.pipe.dev.buffer ≠ 0 → s.pipe.dev.Aimed
  inside : s.pipe.dev.buffer ≠ 0 → s.pipe.dev.InBuffer size
  balance : s.pipe.dev.buffer ≠ 0 →
    (traffic labels).accepted = (traffic labels).delivered ++ s.pipe.stored size

section Runs
variable {labels : List (Section size × Reply)} {s t : Session}

theorem buffer_lt_endp (queued : Queued size labels s) (aimed : s.pipe.dev.Aimed) :
    s.pipe.dev.buffer < s.pipe.dev.endp := by
  by_cases hbuffer : s.pipe.dev.buffer = 0
  · have := aimed.rp
    omega
  · have := (queued.inside hbuffer).rp
    omega

theorem aimed_advanceRp (queued : Queued size labels s) (aimed : s.pipe.dev.Aimed)
    (count : Nat) : (s.pipe.dev.advanceRp (readCount s.pipe.dev count)).Aimed := by
  have hbuffer := buffer_lt_endp queued aimed
  have hcount := readCount_eq aimed count
  obtain ⟨hrp, hwp, htop⟩ := aimed
  generalize readCount s.pipe.dev count = n at hcount
  refine ⟨?_, hwp, htop⟩
  unfold ScullPipe.ahead at hcount
  unfold ScullPipe.advanceRp
  simp only
  split at hcount <;> split <;> omega

theorem aimed_advanceWp (queued : Queued size labels s) (aimed : s.pipe.dev.Aimed)
    (count : Nat) : (s.pipe.dev.advanceWp (writeCount s.pipe.dev count)).Aimed := by
  have hbuffer := buffer_lt_endp queued aimed
  have hcount : writeCount s.pipe.dev count ≤ min count s.pipe.dev.gap := by
    rw [writeCount_eq aimed]
    exact clamp_le _ _
  obtain ⟨hrp, hwp, htop⟩ := aimed
  generalize writeCount s.pipe.dev count = n at hcount
  refine ⟨hrp, ?_, htop⟩
  unfold ScullPipe.gap at hcount
  unfold ScullPipe.advanceWp
  simp only
  split at hcount <;> split <;> omega

theorem after_refused (past : Traffic) {sec : Section size} {reply : Reply}
    (failed : reply.Failed) (idle : reply.alloc = none) : past.after (sec, reply) = past := by
  have hmoved := moved_failed failed
  cases sec with
  | scullPOpen mode interrupted kmalloc => simp [Traffic.after, idle]
  | scullPRelease mode interrupted => rfl
  | scullPRead fFlags count interrupted accessible => simp [Traffic.after, hmoved]
  | scullPWrite fFlags buff interrupted accessible => simp [Traffic.after, hmoved]

theorem queued_read (queued : Queued size labels s) (hint : size < 2147483648)
    (file : s.files ≠ []) (hdata : s.pipe.dev.rp ≠ s.pipe.dev.wp) (fFlags count accessible : Nat) :
    Queued size
      (labels ++ [(.scullPRead fFlags count false accessible,
        { Reply.returns (int64 (readCount s.pipe.dev count)) with
          bytes := (List.range (readCount s.pipe.dev count)).map fun k =>
            s.pipe.mem (s.pipe.dev.rp + k) })])
      ⟨⟨s.pipe.dev.advanceRp (readCount s.pipe.dev count), s.pipe.mem⟩, s.files⟩ := by
  have aimed := queued.aimed (.inl file)
  have hcount := readCount_eq aimed count
  refine ⟨queued.capacity, fun _ => aimed_advanceRp queued aimed count, ?_, ?_⟩
  · intro hbuffer
    have inside := queued.inside hbuffer
    have hahead := ahead_le inside hdata
    exact inBuffer_advanceRp inside (by omega)
  · intro hbuffer
    have inside := queued.inside hbuffer
    have hahead := ahead_le inside hdata
    have hheld := Ring.held_lt (first_lt inside) (last_lt inside)
    have hstored := stored_read inside aimed hdata count
    have hmoved : (Reply.returns (int64 (readCount s.pipe.dev count))).moved =
        readCount s.pipe.dev count := moved_returns (by omega)
    have hbalance := queued.balance hbuffer
    rw [hstored] at hbalance
    rw [traffic_snoc]
    simp only [Traffic.after]
    change (traffic labels).accepted = ((traffic labels).delivered ++ List.take
      (Reply.returns (int64 (readCount s.pipe.dev count))).moved _) ++ _
    rw [hmoved, List.take_of_length_le (by simp), List.append_assoc]
    exact hbalance

theorem queued_write (queued : Queued size labels s) (htwo : 2 ≤ size)
    (hint : size < 2147483648) (file : s.files ≠ []) (fFlags accessible : Nat)
    (buff : List Byte) :
    Queued size
      (labels ++ [(.scullPWrite fFlags buff false accessible,
        .returns (int64 (writeCount s.pipe.dev buff.length)))])
      ⟨⟨s.pipe.dev.advanceWp (writeCount s.pipe.dev buff.length),
        Ring.paste s.pipe.mem s.pipe.dev.wp
          (buff.take (writeCount s.pipe.dev buff.length))⟩, s.files⟩ := by
  have aimed := queued.aimed (.inl file)
  refine ⟨queued.capacity, fun _ => aimed_advanceWp queued aimed buff.length, ?_, ?_⟩
  · intro hbuffer
    have inside := queued.inside hbuffer
    have hroom := writeCount_room htwo hint queued.capacity inside aimed buff.length
    exact inBuffer_advanceWp inside hroom.2
  · intro hbuffer
    have inside := queued.inside hbuffer
    have hroom := writeCount_room htwo hint queued.capacity inside aimed buff.length
    rw [traffic_snoc]
    simp only [Traffic.after]
    rw [moved_returns (by omega), stored_write htwo hint queued.capacity inside aimed buff,
      queued.balance hbuffer, List.append_assoc]

theorem queued_step (htwo : 2 ≤ size) (hint : size < 2147483648)
    (queued : Queued size labels s) {done : Section size × Reply} (hstep : Step s done t) :
    Queued size (labels ++ [done]) t := by
  have hsnoc := traffic_snoc labels done
  cases step_cases hstep with
  | refused sec reply open? failed idle =>
    rw [after_refused _ failed idle.1] at hsnoc
    exact ⟨queued.capacity, queued.aimed, queued.inside, hsnoc ▸ queued.balance⟩
  | allocated mode fresh empty =>
    have hend : fresh.addr < fresh.addr + size := by omega
    refine ⟨queued.capacity, fun _ => ⟨hend, hend, fresh.inside⟩, fun _ => ?_, fun _ => ?_⟩
    · exact ⟨rfl, ⟨le_refl _, hend⟩, le_refl _, hend⟩
    · rw [hsnoc]
      exact (Ring.contents_self _ _ _).symm
  | opened mode kmalloc live =>
    have aimed := queued.aimed (.inr live)
    exact ⟨queued.capacity, fun _ => ⟨aimed.rp, aimed.wp, aimed.top⟩,
      fun _ => ⟨(queued.inside live).endp, (queued.inside live).rp, (queued.inside live).wp⟩,
      fun _ => hsnoc ▸ queued.balance live⟩
  | lost mode member =>
    have hfile : s.files ≠ [] := List.ne_nil_of_mem member
    exact ⟨queued.capacity, fun _ => queued.aimed (.inl hfile), queued.inside,
      hsnoc ▸ queued.balance⟩
  | freed mode member dev counted last =>
    subst counted
    have aimed := queued.aimed (.inl (List.ne_nil_of_mem member))
    exact ⟨queued.capacity, fun _ => ⟨aimed.rp, aimed.wp, aimed.top⟩,
      fun h => absurd rfl h, fun h => absurd rfl h⟩
  | released mode member dev counted more =>
    subst counted
    have aimed := queued.aimed (.inl (List.ne_nil_of_mem member))
    exact ⟨queued.capacity, fun _ => ⟨aimed.rp, aimed.wp, aimed.top⟩,
      fun h => ⟨(queued.inside h).endp, (queued.inside h).rp, (queued.inside h).wp⟩,
      fun h => hsnoc ▸ queued.balance h⟩
  | read fFlags count accessible n file data taken =>
    subst taken
    exact queued_read queued hint file data fFlags count accessible
  | writeFault fFlags buff accessible file space short =>
    have aimed := queued.aimed (.inl file)
    have hfailed : (Reply.returns (-EFAULT)).Failed := returns_neg (by decide)
    rw [after_refused _ hfailed rfl] at hsnoc
    refine ⟨queued.capacity, fun _ => aimed, queued.inside, fun hbuffer => ?_⟩
    rw [hsnoc, stored_writeFault htwo hint queued.capacity (queued.inside hbuffer) aimed]
    exact queued.balance hbuffer
  | wrote fFlags buff accessible n file space taken =>
    subst taken
    exact queued_write queued htwo hint file fFlags accessible buff

theorem run_queued (htwo : 2 ≤ size) (hint : size < 2147483648) {mem : Nat → Byte}
    (run : Run Step (.init size mem) labels s) : Queued size labels s := by
  refine run.invariant (Queued size) ?_ fun _ _ _ _ _ queued hstep =>
    queued_step htwo hint queued hstep
  refine ⟨rfl, ?_, fun h => absurd rfl h, fun h => absurd rfl h⟩
  rintro (h | h)
  · exact absurd rfl h
  · exact absurd rfl h

theorem step_moves (queued : Queued size labels s) {sec : Section size} {reply : Reply}
    (hstep : Step s (sec, reply) t) (hcount : 0 < sec.count) {ret : Int}
    (hret : reply.ret = some ret) (success : 0 ≤ ret) : 1 ≤ ret ∧ ret ≤ sec.count := by
  cases step_cases hstep with
  | refused sec reply open? failed idle =>
    have := failed ret hret
    omega
  | allocated mode fresh empty => simp [Section.count] at hcount
  | opened mode kmalloc live => simp [Section.count] at hcount
  | lost mode member => simp [Section.count] at hcount
  | freed mode member dev counted last => simp [Section.count] at hcount
  | released mode member dev counted more => simp [Section.count] at hcount
  | read fFlags count accessible n file data taken =>
    subst taken
    have aimed := queued.aimed (.inl file)
    have hpos : 0 < readCount s.pipe.dev count := readCount_pos aimed hcount
    have hle := readCount_le s.pipe.dev count
    have hvalue : int64 (readCount s.pipe.dev count) = ret := Option.some.inj hret
    rw [← hvalue] at success ⊢
    rw [int64_of_nonneg (readCount_lt aimed count) success]
    simp only [Section.count]
    omega
  | writeFault fFlags buff accessible file space short =>
    have := returns_neg (show 0 < EFAULT by decide) ret hret
    omega
  | wrote fFlags buff accessible n file space taken =>
    subst taken
    have aimed := queued.aimed (.inl file)
    have hpos : 0 < writeCount s.pipe.dev buff.length := writeCount_pos aimed hcount space
    have hle := writeCount_le s.pipe.dev buff.length
    have hvalue : int64 (writeCount s.pipe.dev buff.length) = ret := Option.some.inj hret
    rw [← hvalue] at success ⊢
    rw [int64_of_nonneg (writeCount_lt aimed buff.length) success]
    simp only [Section.count]
    omega

theorem step_failed (htwo : 2 ≤ size) (hint : size < 2147483648)
    (queued : Queued size labels s) {sec : Section size} {reply : Reply}
    (hstep : Step s (sec, reply) t) (failed : reply.Failed) :
    t.pipe.dev.buffer = s.pipe.dev.buffer ∧
      (s.pipe.dev.buffer ≠ 0 → t.pipe.stored size = s.pipe.stored size) := by
  have hcalm : ¬ (0 : Int) < 0 := by decide
  cases step_cases hstep with
  | refused sec reply open? failed idle => exact ⟨rfl, fun _ => rfl⟩
  | allocated mode fresh empty => exact absurd (failed 0 rfl) hcalm
  | opened mode kmalloc live => exact absurd (failed 0 rfl) hcalm
  | lost mode member => exact ⟨rfl, fun _ => rfl⟩
  | freed mode member dev counted last => exact absurd (failed 0 rfl) hcalm
  | released mode member dev counted more => exact absurd (failed 0 rfl) hcalm
  | read fFlags count accessible n file data taken =>
    subst taken
    refine ⟨rfl, fun hbuffer => ?_⟩
    have aimed := queued.aimed (.inl file)
    have inside := queued.inside hbuffer
    have hahead := ahead_le inside data
    have hcount := readCount_eq aimed count
    have hheld := Ring.held_lt (first_lt inside) (last_lt inside)
    have hneg : int64 (readCount s.pipe.dev count) < 0 := failed _ rfl
    rw [int64_eq_self (by omega) (by omega)] at hneg
    omega
  | writeFault fFlags buff accessible file space short =>
    have aimed := queued.aimed (.inl file)
    exact ⟨rfl, fun hbuffer => stored_writeFault htwo hint queued.capacity
      (queued.inside hbuffer) aimed buff accessible⟩
  | wrote fFlags buff accessible n file space taken =>
    subst taken
    refine ⟨rfl, fun hbuffer => ?_⟩
    have aimed := queued.aimed (.inl file)
    have hroom := writeCount_room htwo hint queued.capacity (queued.inside hbuffer) aimed
      buff.length
    have hneg : int64 (writeCount s.pipe.dev buff.length) < 0 := failed _ rfl
    rw [int64_eq_self (by omega) (by omega)] at hneg
    omega

/-- Along every run the device is a bounded queue of at most `size - 1` bytes,
and every section does to the queue what its reply says. -/
theorem fifo (htwo : 2 ≤ size) (hint : size < 2147483648) {mem : Nat → Byte}
    (run : Run Step (.init size mem) labels s) :
    (s.pipe.dev.buffer ≠ 0 →
      s.pipe.dev.InBuffer size ∧
      (traffic labels).accepted = (traffic labels).delivered ++ s.pipe.stored size ∧
      (s.pipe.stored size).length ≤ size - 1) ∧
    ∀ (sec : Section size) (reply : Reply) (t : Session), Step s (sec, reply) t →
      (∀ ret, reply.ret = some ret → 0 ≤ ret → 0 < sec.count → 1 ≤ ret ∧ ret ≤ sec.count) ∧
      (reply.Failed → t.pipe.dev.buffer = s.pipe.dev.buffer ∧
        (s.pipe.dev.buffer ≠ 0 → t.pipe.stored size = s.pipe.stored size)) := by
  have queued := run_queued htwo hint run
  constructor
  · intro hbuffer
    have inside := queued.inside hbuffer
    refine ⟨inside, queued.balance hbuffer, ?_⟩
    have hheld := Ring.held_lt (first_lt inside) (last_lt inside)
    unfold Backed.stored
    rw [Ring.length_contents]
    omega
  · intro sec reply t hstep
    refine ⟨?_, step_failed htwo hint queued hstep⟩
    intro ret hret success hcount
    exact step_moves queued hstep hcount hret success

end Runs

def openFour : Section 4 := .scullPOpen ⟨true, true⟩ false (some freshFour)

def writeFour : Section 4 := .scullPWrite 0 [1, 2, 3, 4, 5] false 8

def openedFour : Session := (openFour.run (.init 4 fun _ => 0)).2

def writtenFour : Session := (writeFour.run openedFour).2

def labelsFour : List (Section 4 × Reply) :=
  [(openFour, (openFour.run (.init 4 fun _ => 0)).1), (writeFour, (writeFour.run openedFour).1)]

theorem run_four : Run Step (.init 4 fun _ => 0) labelsFour writtenFour :=
  (Run.single (step_run (by decide))).snoc (step_run (by decide +kernel))

theorem fifo_four :
    (traffic labelsFour).accepted = [1, 2, 3] ∧
      (traffic labelsFour).accepted = (traffic labelsFour).delivered ++ writtenFour.pipe.stored 4 :=
  ⟨by decide +kernel, ((fifo (by decide) (by decide) run_four).1 (by decide +kernel)).2.1⟩

end MyDrivers.Pipe
