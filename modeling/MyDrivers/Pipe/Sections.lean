import MyDrivers.Lib.Runs
import MyDrivers.Pipe.Device

/-! Runs of the locked sections of the calls on one pipe device, by any number
of open files. Between two sections of one call, which sleeps or is about to,
sections of any other call can come. -/
namespace MyDrivers.Pipe
open Lib Lib.Machine
open Store (Byte copyFromUser copyFromUser_full EAGAIN ENOMEM EFAULT ERESTARTSYS O_NONBLOCK)

/-- The device with the modes of the files that are open on it. -/
structure Session where
  pipe : Backed
  files : List FMode

/-- A section of a call, with the choices that the kernel and the user make. -/
inductive Section (size : Nat) where
  | scullPOpen (mode : FMode) (interrupted : Bool) (kmalloc : Option (Fresh size))
  | scullPRelease (mode : FMode) (interrupted : Bool)
  | scullPRead (fFlags count : Nat) (interrupted : Bool) (accessible : Nat)
  | scullPWrite (fFlags : Nat) (buff : List Byte) (interrupted : Bool) (accessible : Nat)

variable {size : Nat}

def Section.run (s : Session) : Section size → Reply × Session
  | .scullPOpen mode interrupted kmalloc =>
      let (reply, pipe) := Pipe.scullPOpen mode interrupted kmalloc s.pipe
      (reply, ⟨pipe, if reply.ret = some 0 then mode :: s.files else s.files⟩)
  | .scullPRelease mode interrupted =>
      let (reply, pipe) := Pipe.scullPRelease mode interrupted s.pipe
      -- the file is gone whatever `release` returns
      (reply, ⟨pipe, s.files.erase mode⟩)
  | .scullPRead fFlags count interrupted accessible =>
      let (reply, pipe) := Pipe.scullPRead fFlags count interrupted accessible s.pipe
      (reply, ⟨pipe, s.files⟩)
  | .scullPWrite fFlags buff interrupted accessible =>
      let (reply, pipe) := Pipe.scullPWrite fFlags buff interrupted accessible s.pipe
      (reply, ⟨pipe, s.files⟩)

/-- Every call but `open` is made on a file that is open. -/
def Section.Offered (s : Session) : Section size → Prop
  | .scullPOpen _ _ _ => True
  | .scullPRelease mode _ => mode ∈ s.files
  | .scullPRead _ _ _ _ => s.files ≠ []
  | .scullPWrite _ _ _ _ => s.files ≠ []

instance (s : Session) : (sec : Section size) → Decidable (sec.Offered s)
  | .scullPOpen _ _ _ => inferInstanceAs (Decidable True)
  | .scullPRelease mode _ => inferInstanceAs (Decidable (mode ∈ s.files))
  | .scullPRead _ _ _ _ => inferInstanceAs (Decidable (s.files ≠ []))
  | .scullPWrite _ _ _ _ => inferInstanceAs (Decidable (s.files ≠ []))

def Step (s : Session) (done : Section size × Reply) (t : Session) : Prop :=
  done.1.Offered s ∧ done.1.run s = (done.2, t)

theorem step_run {s : Session} {sec : Section size} (h : sec.Offered s) :
    Step s (sec, (sec.run s).1) (sec.run s).2 := ⟨h, rfl⟩

theorem step_deterministic : Deterministic (@Step size) := by
  rintro s done t u ⟨-, ht⟩ ⟨-, hu⟩
  rw [ht] at hu
  exact congrArg Prod.snd hu

def Session.init (size : Nat) (mem : Nat → Byte) : Session := ⟨⟨scullPInitDev size, mem⟩, []⟩

def Section.Releases : Section size → Prop
  | .scullPRelease _ _ => True
  | _ => False

inductive Stepped (s : Session) : Section size × Reply → Session → Prop
  /-- Nothing happens: the call fails or goes to sleep. -/
  | refused (sec : Section size) (reply : Reply) (open? : ¬ sec.Releases)
      (failed : ∀ ret, reply.ret = some ret → ret < 0)
      (idle : reply.alloc = none ∧ reply.freed = none) : Stepped s (sec, reply) s
  | allocated (mode : FMode) (fresh : Fresh size) (empty : s.pipe.dev.buffer = 0) :
      Stepped s
        (.scullPOpen mode false (some fresh), { Reply.returns 0 with alloc := some fresh.addr })
        ⟨⟨(s.pipe.dev.allocated fresh).count mode 1, fresh.mem⟩, mode :: s.files⟩
  | opened (mode : FMode) (kmalloc : Option (Fresh size)) (live : s.pipe.dev.buffer ≠ 0) :
      Stepped s (.scullPOpen mode false kmalloc, .returns 0)
        ⟨⟨s.pipe.dev.count mode 1, s.pipe.mem⟩, mode :: s.files⟩
  /-- An interrupted `release`: the file goes, the device stays as it is. -/
  | lost (mode : FMode) (member : mode ∈ s.files) :
      Stepped s (.scullPRelease mode true, .returns (-ERESTARTSYS))
        ⟨s.pipe, s.files.erase mode⟩
  | freed (mode : FMode) (member : mode ∈ s.files) (dev : ScullPipe)
      (counted : dev = s.pipe.dev.count mode (-1))
      (last : int32 (dev.nreaders + dev.nwriters) = 0) :
      Stepped s
        (.scullPRelease mode false,
          { Reply.returns 0 with freed := if dev.buffer = 0 then none else some dev.buffer })
        ⟨⟨{ dev with buffer := 0 }, s.pipe.mem⟩, s.files.erase mode⟩
  | released (mode : FMode) (member : mode ∈ s.files) (dev : ScullPipe)
      (counted : dev = s.pipe.dev.count mode (-1))
      (more : int32 (dev.nreaders + dev.nwriters) ≠ 0) :
      Stepped s (.scullPRelease mode false, .returns 0)
        ⟨⟨dev, s.pipe.mem⟩, s.files.erase mode⟩
  | read (fFlags count accessible n : Nat) (file : s.files ≠ [])
      (data : s.pipe.dev.rp ≠ s.pipe.dev.wp) (taken : n = readCount s.pipe.dev count) :
      Stepped s
        (.scullPRead fFlags count false accessible,
          { Reply.returns (int64 n) with
            bytes := (List.range n).map fun k => s.pipe.mem (s.pipe.dev.rp + k) })
        ⟨⟨s.pipe.dev.advanceRp n, s.pipe.mem⟩, s.files⟩
  | writeFault (fFlags : Nat) (buff : List Byte) (accessible : Nat) (file : s.files ≠ [])
      (space : spacefree s.pipe.dev ≠ 0) (short : accessible < writeCount s.pipe.dev buff.length) :
      Stepped s (.scullPWrite fFlags buff false accessible, .returns (-EFAULT))
        ⟨⟨s.pipe.dev, Ring.paste s.pipe.mem s.pipe.dev.wp
          (copyFromUser buff (writeCount s.pipe.dev buff.length) accessible)⟩, s.files⟩
  | wrote (fFlags : Nat) (buff : List Byte) (accessible n : Nat) (file : s.files ≠ [])
      (space : spacefree s.pipe.dev ≠ 0) (taken : n = writeCount s.pipe.dev buff.length) :
      Stepped s (.scullPWrite fFlags buff false accessible, .returns (int64 n))
        ⟨⟨s.pipe.dev.advanceWp n, Ring.paste s.pipe.mem s.pipe.dev.wp (buff.take n)⟩, s.files⟩

theorem returns_neg {code : Int} (h : 0 < code) (ret : Int)
    (hret : (Reply.returns (-code)).ret = some ret) : ret < 0 := by
  have : -code = ret := Option.some.inj hret
  omega

theorem sleeps_ret (ret : Int) (hret : Reply.sleeps.ret = some ret) : ret < 0 := by
  simp [Reply.sleeps] at hret

theorem refused_returns {s : Session} {sec : Section size} {code : Int} (open? : ¬ sec.Releases)
    (h : 0 < code) : Stepped s (sec, .returns (-code)) s :=
  .refused sec _ open? (returns_neg h) ⟨rfl, rfl⟩

theorem open_cases {s : Session} {sec : Section size} (mode : FMode) (interrupted : Bool)
    (kmalloc : Option (Fresh size)) (hsec : sec = .scullPOpen mode interrupted kmalloc) :
    Stepped s (sec, (sec.run s).1) (sec.run s).2 := by
  subst hsec
  have hnot : ¬ (Section.scullPOpen mode interrupted kmalloc).Releases := fun h => h
  cases interrupted with
  | true => exact refused_returns hnot (by decide)
  | false =>
    simp only [Section.run, Pipe.scullPOpen, scullPOpenLocked, Bool.false_eq_true, if_false]
    by_cases hbuffer : s.pipe.dev.buffer = 0
    · rw [if_pos hbuffer]
      cases kmalloc with
      | none => exact refused_returns hnot (by decide)
      | some fresh => exact .allocated mode fresh hbuffer
    · rw [if_neg hbuffer]
      exact .opened mode kmalloc hbuffer

theorem release_cases {s : Session} {sec : Section size} (mode : FMode) (interrupted : Bool)
    (hsec : sec = .scullPRelease mode interrupted) (member : mode ∈ s.files) :
    Stepped s (sec, (sec.run s).1) (sec.run s).2 := by
  subst hsec
  cases interrupted with
  | true => exact .lost mode member
  | false =>
    simp only [Section.run, Pipe.scullPRelease, scullPReleaseLocked, Bool.false_eq_true, if_false]
    split
    · next hlast => exact .freed mode member _ rfl hlast
    · next hmore => exact .released mode member _ rfl hmore

theorem read_cases {s : Session} {sec : Section size} (fFlags count : Nat) (interrupted : Bool)
    (accessible : Nat) (hsec : sec = .scullPRead fFlags count interrupted accessible)
    (file : s.files ≠ []) : Stepped s (sec, (sec.run s).1) (sec.run s).2 := by
  have hnot : ¬ sec.Releases := by
    rw [hsec]
    exact fun h => h
  subst hsec
  cases interrupted with
  | true => exact refused_returns hnot (by decide)
  | false =>
    simp only [Section.run, Pipe.scullPRead, Bool.false_eq_true, if_false]
    by_cases hdata : s.pipe.dev.rp = s.pipe.dev.wp
    · rw [if_pos hdata]
      split
      · exact refused_returns hnot (by decide)
      · exact .refused _ _ hnot sleeps_ret ⟨rfl, rfl⟩
    · rw [if_neg hdata]
      unfold scullPReadLocked
      by_cases hshort : accessible < readCount s.pipe.dev count
      · rw [if_pos hshort]
        exact .refused _ _ hnot (returns_neg (show 0 < EFAULT by decide)) ⟨rfl, rfl⟩
      · rw [if_neg hshort]
        exact .read fFlags count accessible _ file hdata rfl

theorem write_cases {s : Session} {sec : Section size} (fFlags : Nat) (buff : List Byte)
    (interrupted : Bool) (accessible : Nat)
    (hsec : sec = .scullPWrite fFlags buff interrupted accessible) (file : s.files ≠ []) :
    Stepped s (sec, (sec.run s).1) (sec.run s).2 := by
  have hnot : ¬ sec.Releases := by
    rw [hsec]
    exact fun h => h
  subst hsec
  cases interrupted with
  | true => exact refused_returns hnot (by decide)
  | false =>
    simp only [Section.run, Pipe.scullPWrite, Bool.false_eq_true, if_false]
    by_cases hspace : spacefree s.pipe.dev = 0
    · rw [if_pos hspace]
      split
      · exact refused_returns hnot (by decide)
      · exact .refused _ _ hnot sleeps_ret ⟨rfl, rfl⟩
    · rw [if_neg hspace]
      unfold scullPWriteLocked
      by_cases hshort : accessible < writeCount s.pipe.dev buff.length
      · rw [if_pos hshort]
        exact .writeFault fFlags buff accessible file hspace hshort
      · rw [if_neg hshort, copyFromUser_full (Nat.le_of_not_lt hshort)]
        exact .wrote fFlags buff accessible _ file hspace rfl

theorem step_cases {s t : Session} {done : Section size × Reply} (h : Step s done t) :
    Stepped s done t := by
  obtain ⟨sec, reply⟩ := done
  obtain ⟨hoffered, hrun⟩ := h
  have hreply : (sec.run s).1 = reply := congrArg Prod.fst hrun
  have hstate : (sec.run s).2 = t := congrArg Prod.snd hrun
  rw [← hreply, ← hstate]
  cases sec with
  | scullPOpen mode interrupted kmalloc => exact open_cases mode interrupted kmalloc rfl
  | scullPRelease mode interrupted => exact release_cases mode interrupted rfl hoffered
  | scullPRead fFlags count interrupted accessible =>
    exact read_cases fFlags count interrupted accessible rfl hoffered
  | scullPWrite fFlags buff interrupted accessible =>
    exact write_cases fFlags buff interrupted accessible rfl hoffered

end MyDrivers.Pipe
