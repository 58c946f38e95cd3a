import MyDrivers.Misc.Callbacks

/-! `misc_modules/jiq.c`: the record its reads share, the callbacks that print through
it, and a read that no other one disturbs. -/
namespace MyDrivers.Misc
open Lib Lib.Format Lib.Machine

inductive JiqFiles where
  | jitWq
  | jitWqDelay
  deriving DecidableEq

structure Pointer where
  object : Nat
  offset : Nat
  deriving DecidableEq

/-- `struct client_data` without the wait queue and the works. -/
structure ClientData where
  leftLoops : Int32
  prevjiffies : UInt64
  delay : Int32
  buf : Pointer
  deriving DecidableEq

def jiqHeader : List Piece := [.lit "time   delta   preempt    pid    cpu    command\n"]

def jiqLine (prev : UInt64) (seen : Seen) : List Piece :=
  [long 0 seen.jiffies, .lit "  ", long 0 (seen.jiffies - prev), .lit "   ",
    flag seen.inInterrupt, .lit "   ", int 0 seen.pid, .lit "   ", int 0 seen.cpu,
    .lit "   ", .str seen.comm.text, .lit "\n"]

/-- What it writes at `buf` stands beside the data. -/
def jiqPrint (data : ClientData) (seen : Seen) : ClientData × List Char :=
  let text := sprintf (jiqLine data.prevjiffies seen)
  (⟨data.leftLoops - 1, seen.jiffies, data.delay,
    { data.buf with offset := data.buf.offset + text.length }⟩, text)

/-- What `jiq_wq` sets, with the header that it writes into `sbuf`. -/
def jiqSet (param : JiqFiles) (jiffies : UInt64) (sbuf : Nat) : ClientData × List Char :=
  let text := sprintf jiqHeader
  (⟨5, jiffies, if param = .jitWq then 0 else 1, ⟨sbuf, text.length⟩⟩, text)

/-- With the text that lies before `buf`; `jiq_print_delayed_wq` differs in the work that
it schedules. -/
def jiqPrintWq (printed : ClientData × List Char) (seen : Seen) :
    (ClientData × List Char) × Bool :=
  let (data, text) := jiqPrint printed.1 seen
  ((data, printed.2 ++ text), data.leftLoops ≠ 0)

def jiqWq (param : JiqFiles) (start : UInt64) (seen : Nat → Seen) (request : Request) :
    Option Outcome :=
  if ¬ request.kmalloc then some (request.nothing 0)
  else if request.ppos > 0 then some (request.nothing 2400)
  else
    (rounds jiqPrintWq seen (jiqSet param start 0) 5).map fun (data, text) =>
      let len := data.buf.offset
      request.copyOut 2400 text len (int64 (request.ppos + len))

theorem counts_jiqPrintWq : Counts jiqPrintWq jiqLine (fun printed => printed.1.leftLoops.toInt.toNat)
    (fun printed => printed.1.prevjiffies) Prod.snd := by
  have hsub (printed : ClientData × List Char) (hpos : 0 < printed.1.leftLoops.toInt.toNat) :
      (printed.1.leftLoops - 1).toInt = printed.1.leftLoops.toInt - 1 := by
    have hlt := printed.1.leftLoops.toInt_lt
    rw [Int32.toInt_sub, Int32.toInt_one]
    apply Int.bmod_eq_of_le <;> omega
  constructor
  · intro printed seen
    rfl
  · intro printed seen hpos
    have hleft : (jiqPrintWq printed seen).1.1.leftLoops.toInt = printed.1.leftLoops.toInt - 1 :=
      hsub printed hpos
    rw [hleft]
    omega
  · intro printed seen hpos
    have hagain : (jiqPrintWq printed seen).2 = true ↔ printed.1.leftLoops - 1 ≠ 0 :=
      decide_eq_true_iff
    rw [hagain, Ne, ← Int32.toInt_inj, hsub printed hpos, Int32.toInt_zero]
    omega
  · intro printed seen _
    rfl

theorem jiqWq_eq (param : JiqFiles) (start : UInt64) (seen : Nat → Seen) (request : Request)
    (hkmalloc : request.kmalloc) (hppos : ¬ request.ppos > 0) :
    jiqWq param start seen request =
      let text := sprintf jiqHeader ++ lines jiqLine start seen 5
      some (request.copyOut 2400 text text.length (int64 (request.ppos + text.length))) := by
  obtain ⟨printed, hrun, htext⟩ := counts_jiqPrintWq.rounds seen (jiqSet param start 0) 4 rfl
  have hlen : printed.1.buf.offset = printed.2.length := by
    have hkept (printed : ClientData × List Char) (seen : Seen)
        (h : printed.1.buf.offset = printed.2.length) :
        (jiqPrintWq printed seen).1.1.buf.offset = (jiqPrintWq printed seen).1.2.length := by
      simp only [jiqPrintWq, jiqPrint, List.length_append, h]
    exact @rounds_invariant _ _ (fun printed => printed.1.buf.offset = printed.2.length) hkept
      _ _ _ _ hrun rfl
  rw [jiqWq, if_neg (not_not_intro hkmalloc), if_neg hppos, hrun]
  simp only [Option.map_some, hlen, htext]
  rfl

end MyDrivers.Misc
