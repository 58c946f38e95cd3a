import MyDrivers.Misc.Callbacks

/-! The readers of `misc_modules/jit.c`. `jit_delay` is given the clock that it reads
before and after its wait; a timer or tasklet runs until it does not rearm itself, undisturbed by other reads. -/
namespace MyDrivers.Misc
open Lib Lib.Format Lib.Machine

def currentFormat (j1 j2 : UInt64) (sec nsec : Int32) : List Piece :=
  [.lit "j1 = 0x", .hex 8 j1.toNat, .lit ", j2 = 0x", .hex 16 j2.toNat, .lit "\n",
    int 40 sec, .lit " ", .zeroInt 9 nsec.toInt, .lit "\n"]

def jitCurrent (j1 j2 : UInt64) (sec nsec : Int32) (request : Request) : Outcome :=
  if ¬ request.kmalloc then request.nothing 0
  else if request.ppos > 0 then request.nothing 240
  else
    let text := sprintf (currentFormat j1 j2 sec nsec)
    request.copyOut 240 text text.length (int64 (request.ppos + text.length))

def delayFormat (j0 j1 : UInt64) : List Piece := [long 0 j0, .lit " ", long 0 j1, .lit "\n"]

/-- `j0` is `jiffies` before the wait and `j1` after it. -/
def jitDelay (j0 j1 : UInt64) (request : Request) : Outcome :=
  if ¬ request.kmalloc then request.nothing 0
  else if uint64 request.ppos ≥ request.count then request.nothing 24
  else
    let text := sprintf (delayFormat j0 j1)
    request.copyOut 24 text text.length (int64 (request.ppos + text.length))

/-! ## Timer and tasklet -/

/-- What the callbacks share with the reader: `text` is what lies in `sbuf` before
`buf`. -/
structure JitData where
  leftLoops : UInt32
  prevjiffies : UInt64
  text : List Char

def jitHeader : List Piece :=
  [.lit "time        duration     inirq    pid       cpu      proc\n"]

def jitLine (prev : UInt64) (seen : Seen) : List Piece :=
  [long 0 seen.jiffies, .lit "  ", long 4 (seen.jiffies - prev), .lit "  ",
    flag seen.inInterrupt, .lit "   ", int 6 seen.pid, .lit "    ", int 0 seen.cpu,
    .lit "    ", .str seen.comm.text, .lit "\n"]

/-- Whether it adds the timer again stands beside the data. -/
def jitTimerFn (data : JitData) (seen : Seen) : JitData × Bool :=
  let text := data.text ++ sprintf (jitLine data.prevjiffies seen)
  let leftLoops := data.leftLoops - 1
  if leftLoops > 0 then (⟨leftLoops, seen.jiffies, text⟩, true)
  else (⟨leftLoops, data.prevjiffies, text⟩, false)

def jitTimer (start : UInt64) (seen : Nat → Seen) (request : Request) : Option Outcome :=
  if ¬ request.kmalloc then some (request.nothing 0)
  else
    (rounds jitTimerFn seen ⟨10, start, sprintf jitHeader⟩ 10).map fun data =>
      let len := strlen (data.text ++ '\x00' :: request.junk)
      request.copyOut 2400 data.text len request.ppos

def jitTletFn (data : JitData) (seen : Seen) : JitData × Bool :=
  let text := data.text ++ sprintf (jitLine data.prevjiffies seen)
  let leftLoops := data.leftLoops - 1
  if leftLoops ≠ 0 then (⟨leftLoops, seen.jiffies, text⟩, true)
  else (⟨leftLoops, data.prevjiffies, text⟩, false)

/-- The reader prints the first line itself, with its own clock twice. -/
def jitTasklet (first : Seen) (seen : Nat → Seen) (request : Request) : Option Outcome :=
  if ¬ request.kmalloc then some (request.nothing 0)
  else
    let text := sprintf jitHeader ++ sprintf (jitLine first.jiffies first)
    (rounds jitTletFn seen ⟨10, first.jiffies, text⟩ 10).map fun data =>
      let len := strlen (data.text ++ '\x00' :: request.junk)
      request.copyOut 2400 data.text len request.ppos

theorem jitTletFn_eq : jitTletFn = jitTimerFn := by
  funext data seen
  have hpos : data.leftLoops - 1 > 0 ↔ data.leftLoops - 1 ≠ 0 := UInt32.pos_iff_ne_zero
  simp only [jitTletFn, jitTimerFn, hpos]

theorem jitTimerFn_eq (data : JitData) (seen : Seen) :
    jitTimerFn data seen =
      ({ leftLoops := data.leftLoops - 1
         prevjiffies := if data.leftLoops - 1 > 0 then seen.jiffies else data.prevjiffies
         text := data.text ++ sprintf (jitLine data.prevjiffies seen) },
        decide (data.leftLoops - 1 > 0)) := by
  unfold jitTimerFn
  by_cases hagain : data.leftLoops - 1 > 0
  · simp only [hagain, decide_true, if_true]
  · simp only [hagain, decide_false, if_false]

theorem counts_jitTimerFn : Counts jitTimerFn jitLine (fun data => data.leftLoops.toNat)
    JitData.prevjiffies JitData.text := by
  have hsub (data : JitData) (hpos : 0 < data.leftLoops.toNat) :
      (data.leftLoops - 1).toNat = data.leftLoops.toNat - 1 :=
    UInt32.toNat_sub_of_le _ _ (UInt32.le_iff_toNat_le.mpr hpos)
  constructor
  · intro data seen
    rw [jitTimerFn_eq]
  · intro data seen hpos
    rw [jitTimerFn_eq]
    exact hsub data hpos
  · intro data seen hpos
    rw [jitTimerFn_eq, decide_eq_true_iff, gt_iff_lt, UInt32.lt_iff_toNat_lt, hsub data hpos,
      UInt32.toNat_zero]
    omega
  · intro data seen hagain
    rw [jitTimerFn_eq] at hagain ⊢
    exact if_pos (of_decide_eq_true hagain)

/-! ## What a reader copies -/

theorem jitLine_unended (prev : UInt64) (seen : Seen) :
    ∀ piece ∈ jitLine prev seen, piece.Unended := by
  intro piece hpiece
  have hcomm := seen.comm.unended
  simp only [jitLine, List.mem_cons, List.not_mem_nil, or_false] at hpiece
  rcases hpiece with h | h | h | h | h | h | h | h | h | h | h | h
  all_goals rw [h]
  all_goals first | trivial | exact hcomm | simp [Piece.Unended, Unended]

theorem jitHeader_unended : ∀ piece ∈ jitHeader, piece.Unended := by
  intro piece hpiece
  rw [List.mem_singleton.mp hpiece]
  simp [Piece.Unended, Unended]

theorem rounds_copyOut (start : UInt64) (seen : Nat → Seen) {text : List Char}
    (htext : Unended text) (request : Request) :
    ((rounds jitTimerFn seen ⟨10, start, text⟩ 10).map fun data =>
      let len := strlen (data.text ++ '\x00' :: request.junk)
      request.copyOut 2400 data.text len request.ppos) =
    let text' := text ++ lines jitLine start seen 10
    some (request.copyOut 2400 text' text'.length request.ppos) := by
  obtain ⟨data, hrun, hdata⟩ := counts_jitTimerFn.rounds seen ⟨10, start, text⟩ 9 rfl
  have hunended : Unended data.text := by
    rw [hdata]
    exact unended_append htext (unended_lines jitLine_unended _ _ _)
  rw [hrun, Option.map_some, strlen_eq hunended, hdata]

theorem jitTimer_eq (start : UInt64) (seen : Nat → Seen) (request : Request)
    (hkmalloc : request.kmalloc) :
    jitTimer start seen request =
      let text := sprintf jitHeader ++ lines jitLine start seen 10
      some (request.copyOut 2400 text text.length request.ppos) := by
  rw [jitTimer, if_neg (not_not_intro hkmalloc)]
  exact rounds_copyOut start seen (unended_sprintf jitHeader_unended) request

theorem jitTasklet_eq (first : Seen) (seen : Nat → Seen) (request : Request)
    (hkmalloc : request.kmalloc) :
    jitTasklet first seen request =
      let text := sprintf jitHeader ++ sprintf (jitLine first.jiffies first) ++
        lines jitLine first.jiffies seen 10
      some (request.copyOut 2400 text text.length request.ppos) := by
  have hunended : Unended (sprintf jitHeader ++ sprintf (jitLine first.jiffies first)) :=
    unended_append (unended_sprintf jitHeader_unended) (unended_sprintf (jitLine_unended _ _))
  rw [jitTasklet, if_neg (not_not_intro hkmalloc), jitTletFn_eq]
  exact rounds_copyOut first.jiffies seen hunended request

end MyDrivers.Misc
