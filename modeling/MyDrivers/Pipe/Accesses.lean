import MyDrivers.Lib.Critical
import MyDrivers.Pipe.Wakeups

/-! The code between `down` and `up`, statement by statement: a counter is loaded and
stored, a copy moves one byte at a time, and a pointer can be seen before it wraps.
From beginning to end, without anybody else's accesses, it is one section. -/
namespace MyDrivers.Pipe
open Lib Lib.Machine
open Store (Byte copyFromUser copyFromUser_full EAGAIN ENOMEM EFAULT ERESTARTSYS O_NONBLOCK)

variable {size : Nat}

/-- Who adjusts the counters: an `open`, with what it allocated, or a `release`. -/
inductive Counting (size : Nat) where
  | opens (fresh : Option (Fresh size))
  | releases

/-- The statement a call stands before while it holds the semaphore, with its local
variables. -/
inductive Inside (size : Nat) where
  -- scull_p_open
  | openTest (mode : FMode)
  | openKmalloc (mode : FMode)
  | openEnd (mode : FMode) (fresh : Fresh size)
  | openWp (mode : FMode) (fresh : Fresh size)
  | openRp (mode : FMode) (fresh : Fresh size)
  -- the counters, in scull_p_open and scull_p_release
  | loadReaders (mode : FMode) (counting : Counting size)
  | storeReaders (mode : FMode) (counting : Counting size) (value : Int)
  | loadWriters (mode : FMode) (counting : Counting size)
  | storeWriters (mode : FMode) (counting : Counting size) (value : Int)
  | counted (mode : FMode) (counting : Counting size)
  -- scull_p_release
  | releaseKfree (mode : FMode)
  | releaseClear (mode : FMode) (freed : Option Nat)
  -- scull_p_read
  | readTest (fFlags count : Nat)
  | readCount (fFlags count : Nat)
  | readCopy (fFlags count src n : Nat) (bytes : List Byte)
  | readAdvance (fFlags count n : Nat) (bytes : List Byte)
  -- scull_p_write
  | writeTest (fFlags : Nat) (buff : List Byte)
  | writeCount (fFlags : Nat) (buff : List Byte)
  | writeCopy (fFlags : Nat) (buff : List Byte) (dst n k : Nat)
  | writeZero (fFlags : Nat) (buff : List Byte) (dst n k zeroed : Nat)
  | writeAdd (fFlags : Nat) (buff : List Byte) (n : Nat)
  | writeWrap (fFlags : Nat) (buff : List Byte) (n : Nat)

structure Finished (size : Nat) where
  after : After
  sec : Section size
  reply : Reply

/-- Where a call begins once it has the semaphore; `scull_p_poll` never gets there. -/
def Call.begins : Call → Option (Inside size)
  | .scullPOpen mode => some (.openTest mode)
  | .scullPRelease mode => some (.loadReaders mode .releases)
  | .scullPRead fFlags count => some (.readTest fFlags count)
  | .scullPWrite fFlags buff => some (.writeTest fFlags buff)
  | .scullPPoll => none

def Call.declines : Call → Option Int
  | .scullPRead fFlags _ => if fFlags = O_NONBLOCK then some (-EAGAIN) else none
  | .scullPWrite fFlags _ => if fFlags &&& O_NONBLOCK ≠ 0 then some (-EAGAIN) else none
  | _ => none

def Counting.change : Counting size → Int
  | .opens _ => 1
  | .releases => -1

/-- One statement. The kernel decides in `choice` about a `kmalloc` and how many bytes
of the user's buffer are accessible. -/
def access (choice : Choice size) (place : Inside size) (pipe : Backed) :
    Turn (Inside size) (Finished size) × Backed :=
  let dev := pipe.dev
  match place with
  | .openTest mode =>
      (.stays (if dev.buffer = 0 then .openKmalloc mode else .loadReaders mode (.opens none)), pipe)
  | .openKmalloc mode =>
      match choice.kmalloc with
      | none =>
          (.leaves ⟨.return (-ENOMEM), .scullPOpen mode false none, .returns (-ENOMEM)⟩, pipe)
      | some fresh => (.stays (.openEnd mode fresh), ⟨{ dev with buffer := fresh.addr }, fresh.mem⟩)
  | .openEnd mode fresh =>
      (.stays (.openWp mode fresh), { pipe with dev := { dev with endp := dev.buffer + size } })
  | .openWp mode fresh =>
      (.stays (.openRp mode fresh), { pipe with dev := { dev with wp := dev.buffer } })
  | .openRp mode fresh =>
      (.stays (.loadReaders mode (.opens (some fresh))), { pipe with dev := { dev with rp := dev.wp } })
  | .loadReaders mode counting =>
      let next := int32 (dev.nreaders + counting.change)
      (.stays (if mode.read then .storeReaders mode counting next else .loadWriters mode counting), pipe)
  | .storeReaders mode counting value =>
      (.stays (.loadWriters mode counting), { pipe with dev := { dev with nreaders := value } })
  | .loadWriters mode counting =>
      let next := int32 (dev.nwriters + counting.change)
      (.stays (if mode.write then .storeWriters mode counting next else .counted mode counting), pipe)
  | .storeWriters mode counting value =>
      (.stays (.counted mode counting), { pipe with dev := { dev with nwriters := value } })
  | .counted mode (.opens fresh) =>
      (.leaves ⟨.return 0, .scullPOpen mode false fresh,
        { Reply.returns 0 with alloc := fresh.map Fresh.addr }⟩, pipe)
  | .counted mode .releases =>
      if int32 (dev.nreaders + dev.nwriters) = 0 then (.stays (.releaseKfree mode), pipe)
      else (.leaves ⟨.return 0, .scullPRelease mode false, .returns 0⟩, pipe)
  | .releaseKfree mode =>
      (.stays (.releaseClear mode (if dev.buffer = 0 then none else some dev.buffer)), pipe)
  | .releaseClear mode freed =>
      (.leaves ⟨.return 0, .scullPRelease mode false, { Reply.returns 0 with freed := freed }⟩,
        { pipe with dev := { dev with buffer := 0 } })
  | .readTest fFlags count =>
      if dev.rp = dev.wp then
        (.leaves ⟨.flags, .scullPRead fFlags count false 0,
          if fFlags = O_NONBLOCK then .returns (-EAGAIN) else .sleeps⟩, pipe)
      else (.stays (.readCount fFlags count), pipe)
  | .readCount fFlags count =>
      (.stays (.readCopy fFlags count dev.rp (Pipe.readCount dev count) []), pipe)
  | .readCopy fFlags count src n bytes =>
      if bytes.length = n then (.stays (.readAdvance fFlags count n bytes), pipe)
      else if choice.accessible ≤ bytes.length then
        (.leaves ⟨.return (-EFAULT), .scullPRead fFlags count false bytes.length,
          { Reply.returns (-EFAULT) with bytes := bytes }⟩, pipe)
      else (.stays (.readCopy fFlags count src n (bytes ++ [pipe.mem (src + bytes.length)])), pipe)
  | .readAdvance fFlags count n bytes =>
      (.leaves ⟨.wake (int64 n), .scullPRead fFlags count false n,
        { Reply.returns (int64 n) with bytes := bytes }⟩, { pipe with dev := dev.advanceRp n })
  | .writeTest fFlags buff =>
      if spacefree dev = 0 then
        (.leaves ⟨.flags, .scullPWrite fFlags buff false 0,
          if fFlags &&& O_NONBLOCK ≠ 0 then .returns (-EAGAIN) else .sleeps⟩, pipe)
      else (.stays (.writeCount fFlags buff), pipe)
  | .writeCount fFlags buff =>
      (.stays (.writeCopy fFlags buff dev.wp (Pipe.writeCount dev buff.length) 0), pipe)
  | .writeCopy fFlags buff dst n k =>
      if k = n then (.stays (.writeAdd fFlags buff n), pipe)
      else if choice.accessible ≤ k then (.stays (.writeZero fFlags buff dst n k 0), pipe)
      else
        (.stays (.writeCopy fFlags buff dst n (k + 1)),
          { pipe with mem := Ring.paste pipe.mem (dst + k) (buff[k]?).toList })
  | .writeZero fFlags buff dst n k zeroed =>
      if k + zeroed = n then
        (.leaves ⟨.return (-EFAULT), .scullPWrite fFlags buff false k, .returns (-EFAULT)⟩, pipe)
      else
        (.stays (.writeZero fFlags buff dst n k (zeroed + 1)),
          { pipe with mem := Ring.paste pipe.mem (dst + (k + zeroed)) [0] })
  | .writeAdd fFlags buff n =>
      (.stays (.writeWrap fFlags buff n), { pipe with dev := { dev with wp := dev.wp + n } })
  | .writeWrap fFlags buff n =>
      (.leaves ⟨.wake (int64 n), .scullPWrite fFlags buff false n, .returns (int64 n)⟩,
        { pipe with dev := { dev with wp := if dev.wp = dev.endp then dev.buffer else dev.wp } })

/-! ## All statements of one call -/

def Counting.call (mode : FMode) : Counting size → Call
  | .opens _ => .scullPOpen mode
  | .releases => .scullPRelease mode

inductive Counting.Found (pipe : Backed) : Counting size → Backed → Prop
  | live (buffer : pipe.dev.buffer ≠ 0) : Found pipe (.opens none) pipe
  | allocated (fresh : Fresh size) (empty : pipe.dev.buffer = 0) :
      Found pipe (.opens (some fresh)) ⟨pipe.dev.allocated fresh, fresh.mem⟩
  | released : Found pipe .releases pipe

def ScullPipe.countReaders (dev : ScullPipe) (mode : FMode) (change : Int) : ScullPipe :=
  { dev with nreaders := if mode.read then int32 (dev.nreaders + change) else dev.nreaders }

inductive Reached (pipe : Backed) : Call → Inside size → Backed → Prop
  | openTest (mode : FMode) : Reached pipe (.scullPOpen mode) (.openTest mode) pipe
  | openKmalloc (mode : FMode) (empty : pipe.dev.buffer = 0) :
      Reached pipe (.scullPOpen mode) (.openKmalloc mode) pipe
  | openEnd (mode : FMode) (fresh : Fresh size) (empty : pipe.dev.buffer = 0) :
      Reached pipe (.scullPOpen mode) (.openEnd mode fresh)
        ⟨{ pipe.dev with buffer := fresh.addr }, fresh.mem⟩
  | openWp (mode : FMode) (fresh : Fresh size) (empty : pipe.dev.buffer = 0) :
      Reached pipe (.scullPOpen mode) (.openWp mode fresh)
        ⟨{ pipe.dev with buffer := fresh.addr, endp := fresh.addr + size }, fresh.mem⟩
  | openRp (mode : FMode) (fresh : Fresh size) (empty : pipe.dev.buffer = 0) :
      Reached pipe (.scullPOpen mode) (.openRp mode fresh)
        ⟨{ pipe.dev with buffer := fresh.addr, endp := fresh.addr + size, wp := fresh.addr },
          fresh.mem⟩
  | loadReaders (mode : FMode) (counting : Counting size) (base : Backed)
      (found : counting.Found pipe base) :
      Reached pipe (counting.call mode) (.loadReaders mode counting) base
  | storeReaders (mode : FMode) (counting : Counting size) (base : Backed) (value : Int)
      (found : counting.Found pipe base) (reads : mode.read = true)
      (next : value = int32 (base.dev.nreaders + counting.change)) :
      Reached pipe (counting.call mode) (.storeReaders mode counting value) base
  | loadWriters (mode : FMode) (counting : Counting size) (base : Backed)
      (found : counting.Found pipe base) :
      Reached pipe (counting.call mode) (.loadWriters mode counting)
        { base with dev := base.dev.countReaders mode counting.change }
  | storeWriters (mode : FMode) (counting : Counting size) (base : Backed) (value : Int)
      (found : counting.Found pipe base) (writes : mode.write = true)
      (next : value = int32 (base.dev.nwriters + counting.change)) :
      Reached pipe (counting.call mode) (.storeWriters mode counting value)
        { base with dev := base.dev.countReaders mode counting.change }
  | counted (mode : FMode) (counting : Counting size) (base : Backed)
      (found : counting.Found pipe base) :
      Reached pipe (counting.call mode) (.counted mode counting)
        { base with dev := base.dev.count mode counting.change }
  | releaseKfree (mode : FMode)
      (last : int32 ((pipe.dev.count mode (-1)).nreaders + (pipe.dev.count mode (-1)).nwriters) = 0) :
      Reached pipe (.scullPRelease mode) (.releaseKfree mode)
        { pipe with dev := pipe.dev.count mode (-1) }
  | releaseClear (mode : FMode) (freed : Option Nat)
      (last : int32 ((pipe.dev.count mode (-1)).nreaders + (pipe.dev.count mode (-1)).nwriters) = 0)
      (kfree : freed = if pipe.dev.buffer = 0 then none else some pipe.dev.buffer) :
      Reached pipe (.scullPRelease mode) (.releaseClear mode freed)
        { pipe with dev := pipe.dev.count mode (-1) }
  | readTest (fFlags count : Nat) :
      Reached pipe (.scullPRead fFlags count) (.readTest fFlags count) pipe
  | readCount (fFlags count : Nat) (data : pipe.dev.rp ≠ pipe.dev.wp) :
      Reached pipe (.scullPRead fFlags count) (.readCount fFlags count) pipe
  | readCopy (fFlags count n k : Nat) (bytes : List Byte) (data : pipe.dev.rp ≠ pipe.dev.wp)
      (taken : n = Pipe.readCount pipe.dev count) (le : k ≤ n)
      (copied : bytes = (List.range k).map fun k => pipe.mem (pipe.dev.rp + k)) :
      Reached pipe (.scullPRead fFlags count) (.readCopy fFlags count pipe.dev.rp n bytes) pipe
  | readAdvance (fFlags count n : Nat) (bytes : List Byte) (data : pipe.dev.rp ≠ pipe.dev.wp)
      (taken : n = Pipe.readCount pipe.dev count)
      (copied : bytes = (List.range n).map fun k => pipe.mem (pipe.dev.rp + k)) :
      Reached pipe (.scullPRead fFlags count) (.readAdvance fFlags count n bytes) pipe
  | writeTest (fFlags : Nat) (buff : List Byte) :
      Reached pipe (.scullPWrite fFlags buff) (.writeTest fFlags buff) pipe
  | writeCount (fFlags : Nat) (buff : List Byte) (space : spacefree pipe.dev ≠ 0) :
      Reached pipe (.scullPWrite fFlags buff) (.writeCount fFlags buff) pipe
  | writeCopy (fFlags : Nat) (buff : List Byte) (n k : Nat) (space : spacefree pipe.dev ≠ 0)
      (taken : n = Pipe.writeCount pipe.dev buff.length) (le : k ≤ n) :
      Reached pipe (.scullPWrite fFlags buff) (.writeCopy fFlags buff pipe.dev.wp n k)
        { pipe with mem := Ring.paste pipe.mem pipe.dev.wp (buff.take k) }
  | writeZero (fFlags : Nat) (buff : List Byte) (n k zeroed : Nat)
      (space : spacefree pipe.dev ≠ 0) (taken : n = Pipe.writeCount pipe.dev buff.length)
      (short : k < n) (le : k + zeroed ≤ n) :
      Reached pipe (.scullPWrite fFlags buff) (.writeZero fFlags buff pipe.dev.wp n k zeroed)
        { pipe with
          mem := Ring.paste pipe.mem pipe.dev.wp (buff.take k ++ List.replicate zeroed 0) }
  | writeAdd (fFlags : Nat) (buff : List Byte) (n : Nat) (space : spacefree pipe.dev ≠ 0)
      (taken : n = Pipe.writeCount pipe.dev buff.length) :
      Reached pipe (.scullPWrite fFlags buff) (.writeAdd fFlags buff n)
        { pipe with mem := Ring.paste pipe.mem pipe.dev.wp (buff.take n) }
  | writeWrap (fFlags : Nat) (buff : List Byte) (n : Nat) (space : spacefree pipe.dev ≠ 0)
      (taken : n = Pipe.writeCount pipe.dev buff.length) :
      Reached pipe (.scullPWrite fFlags buff) (.writeWrap fFlags buff n)
        ⟨{ pipe.dev with wp := pipe.dev.wp + n }, Ring.paste pipe.mem pipe.dev.wp (buff.take n)⟩

def Section.Of : Call → Section size → Prop
  | .scullPOpen mode, .scullPOpen mode' _ _ => mode' = mode
  | .scullPRelease mode, .scullPRelease mode' _ => mode' = mode
  | .scullPRead fFlags count, .scullPRead fFlags' count' _ _ => fFlags' = fFlags ∧ count' = count
  | .scullPWrite fFlags buff, .scullPWrite fFlags' buff' _ _ => fFlags' = fFlags ∧ buff' = buff
  | _, _ => False

def After.owes (call : Call) : After → Option Int
  | .flags => call.declines
  | .wake ret => some ret
  | .return ret => some ret

structure Finished.Of (call : Call) (pipe pipe' : Backed) (done : Finished size) : Prop where
  runs : ∀ files, (done.sec.run ⟨pipe, files⟩).1 = done.reply ∧
    (done.sec.run ⟨pipe, files⟩).2.pipe = pipe'
  called : done.sec.Of call
  owes : done.after.owes call = done.reply.ret

section Statements
variable {pipe s s' : Backed} {call : Call} {choice : Choice size} {l l' : Inside size}
  {done : Finished size}

theorem begins_reached (h : call.begins = some l) : Reached pipe call l pipe := by
  cases call with
  | scullPOpen mode =>
    cases h
    exact .openTest mode
  | scullPRelease mode =>
    cases h
    exact .loadReaders mode .releases pipe .released
  | scullPRead fFlags count =>
    cases h
    exact .readTest fFlags count
  | scullPWrite fFlags buff =>
    cases h
    exact .writeTest fFlags buff
  | scullPPoll => cases h

theorem reached_stays (h : Reached pipe call l s) (ran : access choice l s = (.stays l', s')) :
    Reached pipe call l' s' := by
  cases h with
  | openTest mode =>
    simp only [access, Prod.mk.injEq, Turn.stays.injEq] at ran
    obtain ⟨rfl, rfl⟩ := ran
    by_cases hbuffer : pipe.dev.buffer = 0
    · rw [if_pos hbuffer]
      exact .openKmalloc mode hbuffer
    · rw [if_neg hbuffer]
      exact .loadReaders mode (.opens none) pipe (.live hbuffer)
  | openKmalloc mode empty =>
    simp only [access] at ran
    split at ran
    · cases ran
    · next fresh hfresh =>
      cases ran
      exact .openEnd mode fresh empty
  | openEnd mode fresh empty =>
    cases ran
    exact .openWp mode fresh empty
  | openWp mode fresh empty =>
    cases ran
    exact .openRp mode fresh empty
  | openRp mode fresh empty =>
    cases ran
    exact .loadReaders mode (.opens (some fresh)) _ (.allocated fresh empty)
  | loadReaders mode counting base found =>
    simp only [access, Prod.mk.injEq, Turn.stays.injEq] at ran
    obtain ⟨rfl, rfl⟩ := ran
    by_cases hreads : mode.read = true
    · rw [if_pos hreads]
      exact .storeReaders mode counting s _ found hreads rfl
    · rw [if_neg hreads]
      have hsame : s.dev.countReaders mode counting.change = s.dev := by
        simp [ScullPipe.countReaders, hreads]
      have hreached := Reached.loadWriters mode counting s found
      rw [hsame] at hreached
      exact hreached
  | storeReaders mode counting base value found reads next =>
    cases ran
    have hreached := Reached.loadWriters mode counting s found
    rw [ScullPipe.countReaders, if_pos reads, ← next] at hreached
    exact hreached
  | loadWriters mode counting base found =>
    simp only [access, Prod.mk.injEq, Turn.stays.injEq] at ran
    obtain ⟨rfl, rfl⟩ := ran
    by_cases hwrites : mode.write = true
    · rw [if_pos hwrites]
      exact .storeWriters mode counting base _ found hwrites rfl
    · rw [if_neg hwrites]
      have hsame : base.dev.count mode counting.change =
          base.dev.countReaders mode counting.change := by
        simp [ScullPipe.count, ScullPipe.countReaders, hwrites]
      have hreached := Reached.counted mode counting base found
      rw [hsame] at hreached
      exact hreached
  | storeWriters mode counting base value found writes next =>
    cases ran
    have hreached := Reached.counted mode counting base found
    rw [ScullPipe.count, if_pos writes, ← next] at hreached
    exact hreached
  | counted mode counting base found =>
    cases found with
    | live buffer => cases ran
    | allocated fresh empty => cases ran
    | released =>
      simp only [access] at ran
      split at ran
      · next hlast =>
        cases ran
        exact .releaseKfree mode hlast
      · cases ran
  | releaseKfree mode last =>
    cases ran
    exact .releaseClear mode _ last rfl
  | releaseClear mode freed last kfree => cases ran
  | readTest fFlags count =>
    simp only [access] at ran
    split at ran
    · cases ran
    · next hdata =>
      cases ran
      exact .readCount fFlags count hdata
  | readCount fFlags count data =>
    cases ran
    exact .readCopy fFlags count _ 0 [] data rfl (Nat.zero_le _) rfl
  | readCopy fFlags count n k bytes data taken le copied =>
    have hlength : bytes.length = k := by simp [copied]
    simp only [access, hlength] at ran
    split at ran
    · next hend =>
      cases ran
      exact .readAdvance fFlags count n bytes data taken (hend ▸ copied)
    · next hmore =>
      split at ran
      · cases ran
      · cases ran
        apply Reached.readCopy fFlags count n (k + 1) _ data taken (by omega)
        rw [List.range_succ, List.map_append, ← copied]
        rfl
  | readAdvance fFlags count n bytes data taken copied => cases ran
  | writeTest fFlags buff =>
    simp only [access] at ran
    split at ran
    · cases ran
    · next hspace =>
      cases ran
      exact .writeCount fFlags buff hspace
  | writeCount fFlags buff space =>
    cases ran
    have hreached := @Reached.writeCopy size pipe fFlags buff _ 0 space rfl (Nat.zero_le _)
    rw [List.take_zero, Ring.paste_nil] at hreached
    exact hreached
  | writeCopy fFlags buff n k space taken le =>
    simp only [access] at ran
    split at ran
    · next hend =>
      cases ran
      subst hend
      exact .writeAdd fFlags buff k space taken
    · next hmore =>
      split at ran
      · cases ran
        have hreached := @Reached.writeZero size pipe fFlags buff n k 0 space taken (by omega) le
        rw [List.replicate_zero, List.append_nil] at hreached
        exact hreached
      · cases ran
        have hle := writeCount_le pipe.dev buff.length
        have hlength : (buff.take k).length = k := List.length_take_of_le (by omega)
        have hreached := @Reached.writeCopy size pipe fFlags buff n (k + 1) space taken (by omega)
        rw [List.take_add_one, Ring.paste_append, hlength] at hreached
        exact hreached
  | writeZero fFlags buff n k zeroed space taken short le =>
    simp only [access] at ran
    split at ran
    · cases ran
    · next hmore =>
      cases ran
      have hle := writeCount_le pipe.dev buff.length
      have hlength : (buff.take k ++ List.replicate zeroed 0).length = k + zeroed := by
        rw [List.length_append, List.length_take_of_le (by omega), List.length_replicate]
      have hreached := @Reached.writeZero size pipe fFlags buff n k (zeroed + 1) space taken short
        (by omega)
      rw [List.replicate_succ', ← List.append_assoc, Ring.paste_append, hlength] at hreached
      exact hreached
  | writeAdd fFlags buff n space taken =>
    cases ran
    exact .writeWrap fFlags buff n space taken
  | writeWrap fFlags buff n space taken => cases ran

theorem reached_leaves (h : Reached pipe call l s) (ran : access choice l s = (.leaves done, s')) :
    done.Of call pipe s' := by
  cases h with
  | openKmalloc mode empty =>
    simp only [access] at ran
    split at ran
    · cases ran
      refine ⟨fun files => ?_, rfl, rfl⟩
      simp [Section.run, scullPOpen, scullPOpenLocked, empty]
    · cases ran
  | counted mode counting base found =>
    cases found with
    | live buffer =>
      cases ran
      refine ⟨fun files => ?_, rfl, rfl⟩
      simp [Section.run, scullPOpen, scullPOpenLocked, buffer, Reply.returns, Counting.change]
    | allocated fresh empty =>
      cases ran
      refine ⟨fun files => ?_, rfl, rfl⟩
      simp [Section.run, scullPOpen, scullPOpenLocked, empty, Reply.returns, Counting.change]
    | released =>
      simp only [access] at ran
      split at ran
      · cases ran
      · next hmore =>
        cases ran
        refine ⟨fun files => ?_, rfl, rfl⟩
        have hmore : ¬ int32 ((pipe.dev.count mode (-1)).nreaders +
            (pipe.dev.count mode (-1)).nwriters) = 0 := hmore
        simp [Section.run, scullPRelease, scullPReleaseLocked, hmore, Counting.change]
  | releaseClear mode freed last kfree =>
    cases ran
    subst kfree
    refine ⟨fun files => ?_, rfl, rfl⟩
    simp only [Section.run, scullPRelease, scullPReleaseLocked, Bool.false_eq_true, if_false,
      if_pos last]
    exact ⟨rfl, trivial⟩
  | readTest fFlags count =>
    simp only [access] at ran
    split at ran
    · next hempty =>
      cases ran
      refine ⟨fun files => ?_, ⟨rfl, rfl⟩, ?_⟩
      · simp only [Section.run, scullPRead, Bool.false_eq_true, if_false, if_pos hempty]
        split <;> exact ⟨rfl, rfl⟩
      · simp only [After.owes, Call.declines]
        split <;> rfl
    · cases ran
  | readCopy fFlags count n k bytes data taken le copied =>
    have hlength : bytes.length = k := by simp [copied]
    simp only [access, hlength] at ran
    split at ran
    · cases ran
    · split at ran
      · cases ran
        have hshort : k < readCount pipe.dev count := by omega
        refine ⟨fun files => ?_, ⟨rfl, rfl⟩, rfl⟩
        simp only [Section.run, scullPRead, Bool.false_eq_true, if_false, if_neg data,
          scullPReadLocked, if_pos hshort]
        refine ⟨?_, trivial⟩
        rw [copied, ← List.map_take, List.take_range, Nat.min_eq_left (Nat.le_of_lt hshort)]
      · cases ran
  | readAdvance fFlags count n bytes data taken copied =>
    cases ran
    subst taken
    refine ⟨fun files => ?_, ⟨rfl, rfl⟩, rfl⟩
    simp only [Section.run, scullPRead, Bool.false_eq_true, if_false, if_neg data,
      scullPReadLocked, lt_irrefl, copied]
    exact ⟨trivial, trivial⟩
  | writeTest fFlags buff =>
    simp only [access] at ran
    split at ran
    · next hfull =>
      cases ran
      refine ⟨fun files => ?_, ⟨rfl, rfl⟩, ?_⟩
      · simp only [Section.run, scullPWrite, Bool.false_eq_true, if_false, if_pos hfull]
        split <;> exact ⟨rfl, rfl⟩
      · simp only [After.owes, Call.declines]
        split <;> rfl
    · cases ran
  | writeCopy fFlags buff n k space taken le =>
    simp only [access] at ran
    split at ran
    · cases ran
    · split at ran <;> cases ran
  | writeZero fFlags buff n k zeroed space taken short le =>
    simp only [access] at ran
    split at ran
    · next hend =>
      cases ran
      subst taken
      refine ⟨fun files => ?_, ⟨rfl, rfl⟩, rfl⟩
      have hzeroed : writeCount pipe.dev buff.length - k = zeroed := by omega
      simp only [Section.run, scullPWrite, Bool.false_eq_true, if_false, if_neg space,
        scullPWriteLocked, if_pos short, copyFromUser, Nat.min_eq_right (Nat.le_of_lt short),
        hzeroed]
      exact ⟨trivial, trivial⟩
    · cases ran
  | writeWrap fFlags buff n space taken =>
    cases ran
    subst taken
    refine ⟨fun files => ?_, ⟨rfl, rfl⟩, rfl⟩
    simp only [Section.run, scullPWrite, Bool.false_eq_true, if_false, if_neg space,
      scullPWriteLocked, lt_irrefl, copyFromUser_full (le_refl _)]
    exact ⟨trivial, rfl⟩
  | _ => cases ran

/-- From the first statement to the last, a call does what one section does. -/
theorem ends_section (begins : call.begins = some l) (h : Ends access l pipe done s') :
    done.Of call pipe s' :=
  h.post (Reached pipe call) (begins_reached begins) (fun _ _ _ _ _ => reached_stays)
    fun _ _ _ _ _ => reached_leaves

end Statements

end MyDrivers.Pipe
